import ExportVault.Enrolment

/-!
# Sessions over whole histories

One request followed through a history in which the others go on: a login with
the password of the registration is not turned away (`login_admits`), the
token it is answered with shows the account until it expires
(`session_admits`), and nothing else does (`session_proven`).
-/

namespace ExportVault

open Interleaving

variable {library : AuthLibrary} {world before after : AuthWorld}
variable {draws : Draws} {user : User} {lifetime : Nat}
variable {source middle next target : Config AuthWorld AuthProc}
variable {early late : List (Event AuthAction Nat)}

theorem grows_act {proc next : AuthProc} {action : AuthAction}
    (actEq : authAct library world proc action = some (after, next)) :
    world.Grows after := by
  cases authMove_of_act actEq with
  | request request => exact .refl world
  | call fault draws live => exact grows_authCall _ fault
  | crash live => exact .refl world

def Serving (request : AuthRequest) (property : AuthWorld → AuthPc → Prop)
    (world : AuthWorld) (proc : AuthProc) : Prop :=
  ∃ pc, proc = .serving request pc ∧ property world pc

/-- What a request has found out, kept by its statements and as the table
grows, it keeps whatever the others do. -/
theorem serving_kept {property : AuthWorld → AuthPc → Prop}
    (stable : ∀ {before after pc}, before.Grows after →
      property before pc → property after pc)
    (step : ∀ {world pc} draws, world.Distinct → pc.ended = false →
      property world pc → property (authStep library draws world pc).1
        (authStep library draws world pc).2)
    (failed : ∀ {world pc} message, pc.ended = false → property world pc →
      property world (.threw (callError message)))
    (crashed : ∀ {world pc}, pc.ended = false → property world pc →
      property world .crashed)
    (start : NoUsers source) (before : AuthHistory library source early middle)
    (after : AuthHistory library middle late target) {index : Nat}
    {request : AuthRequest} {pc : AuthPc}
    (serving : middle.procs index = .serving request pc)
    (holds : property middle.shared pc) :
    Serving request property target.shared (target.procs index) := by
  have run := after.strengthen
    (accountsOutline library fun _ _ => True).step_preserved
    (accountsOutline_holds start before)
  refine Network.exec_follow run ?_ ?_ ?_ ⟨pc, serving, holds⟩
  · rintro config action shared proc ⟨_, outline⟩ actEq ⟨pc, here, holds⟩
    rw [here] at actEq
    cases authMove_of_act actEq with
    | call fault draws live =>
        refine ⟨_, rfl, ?_⟩
        exact authCall_cases
          (motive := fun result => property result.1 result.2) fault
          (step draws outline.1 live holds)
          (fun message => failed message live holds)
          fun message => stable (grows_authStep _)
            (failed message live holds)
    | crash live => exact ⟨.crashed, rfl, crashed live holds⟩
  · rintro config other action shared proc _ actEq ⟨pc, here, holds⟩
    exact ⟨pc, here, stable (grows_act actEq) holds⟩
  · rintro config change shared _ envEq ⟨pc, here, holds⟩
    obtain rfl := Option.some.inj envEq
    exact ⟨pc, here, stable (grows_later _ _) holds⟩

/-- What a request is about to do for a user who has an account. -/
theorem account_kept {waits : AuthPc → Prop}
    (step : ∀ {world pc} draws, world.Distinct → user ∈ world.users →
      pc.ended = false → waits pc →
      waits (authStep library draws world pc).2)
    (failed : ∀ message, waits (.threw (callError message)))
    (crashed : waits .crashed) (start : NoUsers source)
    (before : AuthHistory library source early middle)
    (after : AuthHistory library middle late target) {index : Nat}
    {request : AuthRequest} {pc : AuthPc}
    (serving : middle.procs index = .serving request pc)
    (member : user ∈ middle.shared.users) (holds : waits pc) :
    ∃ pc, target.procs index = .serving request pc ∧ waits pc := by
  have kept : Serving request (fun world pc => user ∈ world.users ∧ waits pc)
      target.shared (target.procs index) :=
    serving_kept (fun grows holds => ⟨grows.mem holds.1, holds.2⟩)
      (fun draws distinct live holds =>
        ⟨(grows_authStep _).mem holds.1,
          step draws distinct holds.1 live holds.2⟩)
      (fun message _ holds => ⟨holds.1, failed message⟩)
      (fun _ holds => ⟨holds.1, crashed⟩) start before after serving
      ⟨member, holds⟩
  obtain ⟨pc, there, _, waits⟩ := kept
  exact ⟨pc, there, waits⟩

/-- What has ended stays as it is. -/
theorem ended_kept (start : NoUsers source)
    (before : AuthHistory library source early middle)
    (after : AuthHistory library middle late target) {index : Nat}
    {request : AuthRequest} {pc : AuthPc}
    (serving : middle.procs index = .serving request pc)
    (ended : pc.ended = true) : target.procs index = .serving request pc := by
  have absurdLive : ∀ {other : AuthPc}, other.ended = false → other ≠ pc := by
    rintro other live rfl
    exact absurd ended (by simp [live])
  have kept : Serving request (fun _ other => other = pc)
      target.shared (target.procs index) :=
    serving_kept (fun _ same => same)
      (fun _ _ live same => absurd same (absurdLive live))
      (fun _ live same => absurd same (absurdLive live))
      (fun live same => absurd same (absurdLive live)) start before after
      serving rfl
  obtain ⟨_, there, rfl⟩ := kept
  exact there

/-- A request begins where the process was idle. -/
theorem request_step {index : Nat} {request : AuthRequest}
    (begins : (authMachine library).step middle
      (.act index (.request request)) = some next) :
    next.shared = middle.shared ∧ next.procs index =
      .serving request (request.begin library middle.shared) := by
  obtain ⟨shared, proc, actEq, rfl⟩ := Network.step_act_iff.mp begins
  simp only [Function.update_self]
  have move := authMove_of_act actEq
  generalize middle.procs index = current at move
  cases move with
  | request request => exact ⟨rfl, rfl⟩

theorem AuthHistory.snoc {event : Event AuthAction Nat}
    (before : AuthHistory library source early middle)
    (stepEq : (authMachine library).step middle event = some next) :
    AuthHistory library source (early ++ [event]) next :=
  Machine.exec_append.mpr ⟨middle, before, trivial, next, stepEq, rfl⟩

/-- A login with the password of the user's account. -/
def Welcomed (library : AuthLibrary) (user : User) : AuthPc → Prop
  | .findUser input =>
      normaliseEmail input.email = user.email ∧
        library.compare input.password user.passwordHash = true
  | .comparePassword input other =>
      other = user ∧
        library.compare input.password user.passwordHash = true
  | .returned reply =>
      ∃ token, reply = .loggedIn token user.id user.name user.email
  | .threw error => ∃ message, error = callError message
  | .crashed => True
  | _ => False

theorem welcomed_step {pc : AuthPc} (draws : Draws)
    (distinct : world.Distinct) (member : user ∈ world.users)
    (live : pc.ended = false) (waits : Welcomed library user pc) :
    Welcomed library user (authStep library draws world pc).2 := by
  cases pc with
  | findUser input =>
      obtain ⟨email, matching⟩ := waits
      simp only [authStep, email, distinct.findByEmail member]
      exact ⟨rfl, matching⟩
  | comparePassword input other =>
      obtain ⟨rfl, matching⟩ := waits
      simp only [authStep, matching]
      exact ⟨_, rfl⟩
  | findExisting input => exact waits.elim
  | hashPassword input => exact waits.elim
  | create input passwordHash => exact waits.elim
  | findMe userId => exact waits.elim
  | _ => cases live

/-- What the program relies on in its packages: a hash matches its password,
and a token holds for its lifetime and is a single word. -/
structure Lawful (library : AuthLibrary) (lifetime : Nat) : Prop where
  compare_hash : ∀ password salt,
    library.compare password (library.hash password salt) = true
  verify_sign : ∀ payload issuedAt now,
    library.verify (library.sign payload issuedAt) now =
      if now < issuedAt + lifetime then some payload else none
  nonempty : ∀ payload issuedAt, library.sign payload issuedAt ≠ ""
  unbroken : ∀ payload issuedAt,
    ∀ char ∈ (library.sign payload issuedAt).toList,
      isStrWhiteSpace char = false

theorem mem_tally {numbers : List Nat} {char : Char}
    (member : char ∈ tally numbers) : char = '.' ∨ char = '|' := by
  induction numbers with
  | nil => cases member
  | cons number rest inductionHypothesis =>
      rw [tally, List.mem_append, List.mem_cons] at member
      rcases member with dot | stroke | later
      · exact .inl (List.eq_of_mem_replicate dot)
      · exact .inr stroke
      · exact inductionHypothesis later

theorem lawful_smallLibrary : Lawful smallLibrary tokenLifetime where
  compare_hash password salt := by
    simp only [smallLibrary, String.toList_ofList, decide_eq_true_eq]
    induction salt with
    | zero => rfl
    | succ salt inductionHypothesis =>
        rw [List.replicate_succ, List.cons_append,
          List.dropWhile_cons_of_pos (by decide), inductionHypothesis]
  verify_sign payload issuedAt now := by
    have codes : ∀ chars : List Char,
        (chars.map Char.toNat).map Char.ofNat = chars := by
      intro chars
      rw [List.map_map]
      exact List.map_id'' Char.ofNat_toNat _
    simp only [smallLibrary, String.toList_ofList, untally_tally, codes,
      List.take_left, List.drop_left, String.ofList_toList]
  nonempty payload issuedAt := by
    intro empty
    have none := congrArg String.toList empty
    simp only [smallLibrary, String.toList_ofList, tally] at none
    cases issuedAt <;> cases none
  unbroken payload issuedAt char member := by
    simp only [smallLibrary, String.toList_ofList] at member
    rcases mem_tally member with rfl | rfl
    · decide
    · decide

/-- Once a registration has been answered, a login with its password and any
spelling of its address is never turned away. -/
theorem login_admits (lawful : Lawful library lifetime)
    (start : NoUsers source)
    (before : AuthHistory library source early middle)
    {registrar index : Nat} {registration : RegisterBody}
    {id name email : String} {body input : LoginBody}
    (registered : middle.procs registrar = .serving (.register registration)
      (.returned (.registered id name email)))
    (parsed : loginSchema library body = .ok input)
    (sameEmail : normaliseEmail body.email = normaliseEmail registration.email)
    (samePassword : body.password = registration.password)
    (begins : (authMachine library).step middle
      (.act index (.request (.login body))) = some next)
    (after : AuthHistory library next late target) :
    ∃ pc, target.procs index = .serving (.login body) pc ∧
      (∀ reply, pc = .returned reply →
        ∃ token, reply = .loggedIn token id name email) ∧
      (∀ error, pc = .threw error → ∃ message, error = callError message) ∧
      ∀ details, pc ≠ .rejected details := by
  have served := (accountsOutline_holds start before).2.1 registrar
  rw [registered] at served
  obtain ⟨user, member, registers, answer⟩ := served
  obtain ⟨rfl, rfl, rfl⟩ := AuthReply.registered.inj answer
  obtain ⟨salt, hashed⟩ := registers.password
  have spelled := loginSchema_ok parsed
  have welcomed : Welcomed library user (.findUser input) := by
    constructor
    · rw [spelled, normaliseEmail_trimText, sameEmail, registers.email]
    · rw [spelled, samePassword, hashed]
      exact lawful.compare_hash _ _
  obtain ⟨sameWorld, serving⟩ := request_step begins
  rw [AuthRequest.begin, parsed] at serving
  obtain ⟨pc, there, waits⟩ := account_kept welcomed_step
    (fun message => ⟨message, rfl⟩) trivial start (before.snoc begins) after
    serving (sameWorld ▸ member) welcomed
  refine ⟨pc, there, ?_, ?_, ?_⟩
  · rintro reply rfl
    exact waits
  · rintro error rfl
    exact waits
  · rintro details rfl
    exact waits

theorem login_admits_racing :
    ∃ middle next target pc,
      AuthHistory smallLibrary noAccounts racing middle ∧
        (authMachine smallLibrary).step middle
          (.act 2 (.request (.login smallLogin))) = some next ∧
        AuthHistory smallLibrary next (authCalls 2 2 ⟨"", 0⟩) target ∧
        target.procs 2 = .serving (.login smallLogin) pc ∧
        (∀ reply, pc = .returned reply →
          ∃ token, reply = .loggedIn token "u" "Ann" "ann@b.co") ∧
        ∀ details, pc ≠ .rejected details := by
  obtain ⟨middle, target, _, before, ⟨_, next, begins, after⟩, registered, _⟩ :=
    racing_ends
  obtain ⟨pc, there, answers, _, accepted⟩ :=
    login_admits lawful_smallLibrary noUsers_noAccounts before registered
      (show loginSchema smallLibrary smallLogin = .ok ⟨"ann@B.co", _⟩ from rfl)
      (by decide +kernel) rfl begins after
  exact ⟨middle, next, target, pc, before, begins, after, there, answers,
    accepted⟩

/-! ## Sessions -/

/-- A request for the own account that has been let in as the user. -/
def Shows (user : User) : AuthPc → Prop
  | .findMe userId => userId = user.id
  | .returned reply =>
      reply = .account user.id user.name user.email user.createdAt
  | .threw error => ∃ message, error = callError message
  | .crashed => True
  | _ => False

theorem shows_step {pc : AuthPc} (draws : Draws)
    (distinct : world.Distinct) (member : user ∈ world.users)
    (live : pc.ended = false) (waits : Shows user pc) :
    Shows user (authStep library draws world pc).2 := by
  cases pc with
  | findMe userId =>
      obtain rfl : userId = user.id := waits
      simp only [authStep, distinct.findById member]
      exact rfl
  | findExisting input => exact waits.elim
  | hashPassword input => exact waits.elim
  | create input passwordHash => exact waits.elim
  | findUser input => exact waits.elim
  | comparePassword input other => exact waits.elim
  | _ => cases live

def bearerHeader (token : String) : Option String :=
  some ("Bearer " ++ token)

theorem bearerToken_bearerHeader {token : String} (nonempty : token ≠ "")
    (unbroken : ∀ char ∈ token.toList, isStrWhiteSpace char = false) :
    bearerToken (bearerHeader token) = some token := by
  have whole : trim token.toList = token.toList :=
    trim_of_ends
      (fun char member => unbroken char (List.mem_of_mem_head? member))
      fun char member => unbroken char (List.mem_of_mem_getLast? member)
  have starts : "Bearer ".toList.isPrefixOf ("Bearer " ++ token).toList =
      true := by
    rw [List.isPrefixOf_iff_prefix, String.toList_append]
    exact List.prefix_append _ _
  have rest : ("Bearer " ++ token).toList.drop 7 = token.toList := by
    rw [String.toList_append]
    exact List.drop_left' rfl
  simp only [bearerHeader, bearerToken, if_pos starts, rest, whole,
    String.ofList_toList, if_neg nonempty]

/-- A token that still holds lets its user in. -/
theorem begin_me {token : String} {header : Option String}
    {payload : JwtPayload} {issuedAt : Nat}
    (lawful : Lawful library lifetime)
    (presented : bearerToken header = some token)
    (signed : token = library.sign payload issuedAt)
    (holds : world.seconds < issuedAt + lifetime) :
    (AuthRequest.me header).begin library world = .findMe payload.sub := by
  have verified : library.verify token world.seconds = some payload := by
    rw [signed, lawful.verify_sign, if_pos holds]
  simp only [AuthRequest.begin, requireAuth, presented, verifyToken, verified,
    Except.map]

/-- Whoever serves a login goes on to serve it, with tokens of the time since
it began. -/
theorem login_kept (start : NoUsers source)
    (before : AuthHistory library source early middle) {index : Nat}
    {body : LoginBody}
    (asks : (authMachine library).step middle
      (.act index (.request (.login body))) = some next)
    (after : AuthHistory library next late target) {pc : AuthPc}
    (serving : target.procs index = .serving (.login body) pc) :
    LoginServed library target.shared middle.shared.seconds body pc := by
  obtain ⟨sameWorld, begun⟩ := request_step asks
  have kept : Serving (.login body) (fun world pc =>
      middle.shared.seconds ≤ world.seconds ∧
        LoginServed library world middle.shared.seconds body pc)
      target.shared (target.procs index) :=
    serving_kept
      (fun grows holds =>
        ⟨holds.1.trans grows.seconds, loginServed_grows grows holds.2⟩)
      (fun draws _ live holds =>
        ⟨holds.1.trans (grows_authStep _).seconds,
          loginServed_step holds.1 live holds.2⟩)
      (fun message _ holds => ⟨holds.1, .inr ⟨message, rfl⟩⟩)
      (fun _ holds => ⟨holds.1, trivial⟩) start (before.snoc asks) after begun
      ⟨by rw [sameWorld], loginServed_begin (by rw [sameWorld])⟩
  obtain ⟨pc, there, _, served⟩ := kept
  obtain ⟨_, rfl⟩ := AuthProc.serving.inj (serving.symm.trans there)
  exact served

/-- A token that a login was answered with shows its account to whoever
presents it, until it expires. -/
theorem session_admits (lawful : Lawful library lifetime)
    (start : NoUsers source)
    {first second third fourth : Config AuthWorld AuthProc}
    {between : List (Event AuthAction Nat)}
    (before : AuthHistory library source early first)
    {other index : Nat} {body : LoginBody} {token id name email : String}
    (asks : (authMachine library).step first
      (.act other (.request (.login body))) = some second)
    (meanwhile : AuthHistory library second between third)
    (answered : third.procs other = .serving (.login body)
      (.returned (.loggedIn token id name email)))
    (begins : (authMachine library).step third
      (.act index (.request (.me (bearerHeader token)))) = some fourth)
    (after : AuthHistory library fourth late target) :
    ∃ user ∈ third.shared.users, ∃ issuedAt,
      (user.id = id ∧ user.name = name ∧ user.email = email) ∧
      first.shared.seconds ≤ issuedAt ∧ issuedAt ≤ third.shared.seconds ∧
      token = library.sign ⟨id, email⟩ issuedAt ∧
      (third.shared.seconds < issuedAt + lifetime →
        ∃ pc, target.procs index = .serving (.me (bearerHeader token)) pc ∧
          Shows user pc) := by
  obtain ⟨user, member, _, _, issuedAt, since, past, answer⟩ :=
    login_kept start before asks meanwhile answered
  obtain ⟨rfl, rfl, rfl, rfl⟩ := AuthReply.loggedIn.inj answer
  refine ⟨user, member, issuedAt, ⟨rfl, rfl, rfl⟩, since, past, rfl,
    fun inTime => ?_⟩
  have presented := bearerToken_bearerHeader
    (lawful.nonempty ⟨user.id, user.email⟩ issuedAt)
    (lawful.unbroken ⟨user.id, user.email⟩ issuedAt)
  obtain ⟨sameWorld, serving⟩ := request_step begins
  rw [begin_me lawful presented rfl inTime] at serving
  have history : AuthHistory library source
      ((early ++ [.act other (.request (.login body))] ++ between) ++ [_])
      fourth :=
    AuthHistory.snoc (Machine.exec_append.mpr
      ⟨second, before.snoc asks, meanwhile⟩) begins
  exact account_kept shows_step (fun message => ⟨message, rfl⟩) trivial start
    history after serving (sameWorld ▸ member) rfl

/-- An idle process takes a request. -/
theorem exists_request_step {index : Nat} (request : AuthRequest)
    (idle : middle.procs index = .idle) :
    ∃ next, (authMachine library).step middle (.act index (.request request)) =
      some next :=
  ⟨_, Network.step_act_iff.mpr ⟨_, _, by rw [idle]; rfl, rfl⟩⟩

theorem session_admits_racing :
    ∃ third fourth target token pc,
      AuthHistory smallLibrary noAccounts (racing ++ loginSteps) third ∧
        (authMachine smallLibrary).step third
          (.act 3 (.request (.me (bearerHeader token)))) = some fourth ∧
        AuthHistory smallLibrary fourth [.env 5000] target ∧
        target.procs 3 = .serving (.me (bearerHeader token)) pc ∧
        ∃ user ∈ third.shared.users, user.id = "u" ∧ Shows user pc := by
  obtain ⟨first, third, token, before, ⟨_, second, asks, meanwhile⟩, _, _,
    answered, starts, stops, idle⟩ := racing_ends
  obtain ⟨fourth, begins⟩ :=
    exists_request_step (.me (bearerHeader token)) idle
  have after : AuthHistory smallLibrary fourth [.env 5000]
      ⟨{ fourth.shared with now := fourth.shared.now + 5000 },
        fourth.procs⟩ := ⟨trivial, _, rfl, rfl⟩
  obtain ⟨user, member, issuedAt, ⟨id, _, _⟩, since, _, _, admits⟩ :=
    session_admits lawful_smallLibrary noUsers_noAccounts before asks
      meanwhile answered begins after
  have inTime : third.shared.seconds < issuedAt + tokenLifetime := by
    have now : third.shared.seconds = 0 := by
      rw [AuthWorld.seconds, stops]
    rw [now]
    exact Nat.add_pos_right _ (by decide)
  obtain ⟨pc, there, shown⟩ := admits inTime
  exact ⟨third, fourth, _, token, pc,
    Machine.exec_append.mpr ⟨first, before, trivial, second, asks, meanwhile⟩,
    begins, after, there, user, member, id, shown⟩

/-- Whoever is let in has presented a token that a login of an account was
answered with no longer ago than its lifetime, provided the token was not
forged; and the account is there. -/
theorem session_proven (lawful : Lawful library lifetime)
    (start : NoUsers source)
    (before : AuthHistory library source early middle) {index : Nat}
    {header : Option String}
    (unforged : ∀ {token payload}, bearerToken header = some token →
      library.verify token middle.shared.seconds = some payload →
      ∃ other body id name email, middle.procs other =
        .serving (.login body) (.returned (.loggedIn token id name email)))
    (begins : (authMachine library).step middle
      (.act index (.request (.me header))) = some next)
    (after : AuthHistory library next late target) :
    (∃ message, target.procs index =
        .serving (.me header) (.threw (unauthorizedError message)) ∧
      (message = "Missing bearer token" ∨
        message = "Invalid or expired token")) ∨
      ∃ user ∈ middle.shared.users, ∃ other body token issuedAt,
        bearerToken header = some token ∧
          middle.procs other = .serving (.login body)
            (.returned (.loggedIn token user.id user.name user.email)) ∧
          token = library.sign ⟨user.id, user.email⟩ issuedAt ∧
          issuedAt ≤ middle.shared.seconds ∧
          middle.shared.seconds < issuedAt + lifetime ∧
          ∃ pc, target.procs index = .serving (.me header) pc ∧
            Shows user pc := by
  obtain ⟨sameWorld, serving⟩ := request_step begins
  have refused : ∀ {message}, (AuthRequest.me header).begin library
      middle.shared = .threw (unauthorizedError message) →
      target.procs index =
        .serving (.me header) (.threw (unauthorizedError message)) := by
    intro message throws
    rw [throws] at serving
    exact ended_kept start (before.snoc begins) after serving rfl
  cases presented : bearerToken header with
  | none =>
      refine .inl ⟨_, refused ?_, .inl rfl⟩
      simp only [AuthRequest.begin, requireAuth, presented]
  | some token =>
      cases verified : library.verify token middle.shared.seconds with
      | none =>
          refine .inl ⟨_, refused ?_, .inr rfl⟩
          simp only [AuthRequest.begin, requireAuth, presented, verifyToken,
            verified, Except.map]
      | some payload =>
          obtain ⟨other, body, id, name, email, answered⟩ :=
            unforged presented verified
          have served := (accountsOutline_holds start before).2.1 other
          rw [answered] at served
          obtain ⟨user, member, _, _, issuedAt, _, past, answer⟩ := served
          obtain ⟨signed, rfl, rfl, rfl⟩ := AuthReply.loggedIn.inj answer
          -- a token that has expired is not verified
          have inTime : middle.shared.seconds < issuedAt + lifetime := by
            by_contra late
            rw [signed, lawful.verify_sign, if_neg late] at verified
            cases verified
          rw [begin_me lawful presented signed inTime] at serving
          obtain ⟨pc, there, shown⟩ := account_kept shows_step
            (fun message => ⟨message, rfl⟩) trivial start
            (before.snoc begins) after serving (sameWorld ▸ member) rfl
          exact .inr ⟨user, member, other, body, token, issuedAt, rfl,
            answered, signed, past, inTime, pc, there, shown⟩

theorem session_proven_racing :
    ∃ middle next token,
      AuthHistory smallLibrary noAccounts (racing ++ loginSteps) middle ∧
        (authMachine smallLibrary).step middle
          (.act 3 (.request (.me (bearerHeader token)))) = some next ∧
        ((∃ message, next.procs 3 = .serving (.me (bearerHeader token))
            (.threw (unauthorizedError message))) ∨
          ∃ user ∈ middle.shared.users, ∃ pc,
            next.procs 3 = .serving (.me (bearerHeader token)) pc ∧
              Shows user pc) := by
  obtain ⟨first, middle, token, early, late, _, _, answered, _, _, idle⟩ :=
    racing_ends
  have before := Machine.exec_append.mpr ⟨first, early, late⟩
  obtain ⟨next, begins⟩ :=
    exists_request_step (.me (bearerHeader token)) idle
  have served := (accountsOutline_holds noUsers_noAccounts before).2.1 2
  rw [answered] at served
  obtain ⟨user, _, _, _, issuedAt, _, _, answer⟩ := served
  have presented : bearerToken (bearerHeader token) = some token := by
    rw [(AuthReply.loggedIn.inj answer).1]
    exact bearerToken_bearerHeader (lawful_smallLibrary.nonempty _ _)
      (lawful_smallLibrary.unbroken _ _)
  have unforged : ∀ {shown payload},
      bearerToken (bearerHeader token) = some shown →
      smallLibrary.verify shown middle.shared.seconds = some payload →
      ∃ other body id name email, middle.procs other =
        .serving (.login body) (.returned (.loggedIn shown id name email)) := by
    intro shown payload found _
    obtain rfl := Option.some.inj (presented.symm.trans found)
    exact ⟨2, _, _, _, _, answered⟩
  refine ⟨middle, next, token, before, begins, ?_⟩
  have after : AuthHistory smallLibrary next [] next := rfl
  rcases session_proven lawful_smallLibrary noUsers_noAccounts before unforged
      begins after with
    ⟨message, there, _⟩ | ⟨user, member, _, _, _, _, _, _, _, _, _, pc,
      there, shown⟩
  · exact .inl ⟨message, there⟩
  · exact .inr ⟨user, member, pc, there, shown⟩

end ExportVault
