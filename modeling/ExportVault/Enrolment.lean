import ExportVault.Accounts
import Mathlib.Data.List.Nodup

/-!
# Accounts over whole histories

Under every interleaving of registrations, logins and requests for the own
account, with crashes and failed calls: an email address has one account, made
by one registration (`accounts_distinct`), and a login is answered for the
password of that registration only (`login_proven`).
-/

namespace ExportVault

open Interleaving

variable {library : AuthLibrary} {world before after : AuthWorld}
variable {draws : Draws} {user : User}

theorem AuthWorld.mem_of_findByEmail {email : String}
    (found : world.findByEmail email = some user) :
    user ∈ world.users ∧ user.email = email :=
  ⟨List.mem_of_find?_eq_some found,
    by simpa using List.find?_some found⟩

theorem AuthWorld.mem_of_findById {id : String}
    (found : world.findById id = some user) :
    user ∈ world.users ∧ user.id = id :=
  ⟨List.mem_of_find?_eq_some found,
    by simpa using List.find?_some found⟩

structure AuthWorld.Distinct (world : AuthWorld) : Prop where
  ids : (world.users.map User.id).Nodup
  emails : (world.users.map User.email).Nodup

theorem AuthWorld.Distinct.eq_of_email {other : User}
    (distinct : world.Distinct) (member : user ∈ world.users)
    (otherMember : other ∈ world.users) (same : user.email = other.email) :
    user = other :=
  List.inj_on_of_nodup_map distinct.emails member otherMember same

theorem AuthWorld.Distinct.eq_of_id {other : User}
    (distinct : world.Distinct) (member : user ∈ world.users)
    (otherMember : other ∈ world.users) (same : user.id = other.id) :
    user = other :=
  List.inj_on_of_nodup_map distinct.ids member otherMember same

theorem AuthWorld.Distinct.findByEmail (distinct : world.Distinct)
    (member : user ∈ world.users) :
    world.findByEmail user.email = some user := by
  cases found : world.findByEmail user.email with
  | none =>
      rw [AuthWorld.findByEmail, List.find?_eq_none] at found
      exact absurd (by simp) (found user member)
  | some other =>
      obtain ⟨otherMember, same⟩ := AuthWorld.mem_of_findByEmail found
      rw [distinct.eq_of_email otherMember member same]

theorem AuthWorld.Distinct.findById (distinct : world.Distinct)
    (member : user ∈ world.users) : world.findById user.id = some user := by
  cases found : world.findById user.id with
  | none =>
      rw [AuthWorld.findById, List.find?_eq_none] at found
      exact absurd (by simp) (found user member)
  | some other =>
      obtain ⟨otherMember, same⟩ := AuthWorld.mem_of_findById found
      rw [distinct.eq_of_id otherMember member same]

/-- What the constraints of the table let through. -/
theorem AuthWorld.createUser_ok {next : AuthWorld}
    (created : world.createUser user = .ok next) :
    next = { world with users := world.users ++ [user] } ∧
      (∀ other ∈ world.users, other.id ≠ user.id) ∧
      ∀ other ∈ world.users, other.email ≠ user.email := by
  simp only [AuthWorld.createUser] at created
  split at created
  · cases created
  · next freshId =>
      split at created
      · cases created
      · next freshEmail =>
          refine ⟨(Except.ok.inj created).symm, ?_, ?_⟩
          · simpa using freshId
          · simpa using freshEmail

theorem AuthWorld.Distinct.create {next : AuthWorld}
    (distinct : world.Distinct)
    (created : world.createUser user = .ok next) : next.Distinct := by
  obtain ⟨rfl, freshId, freshEmail⟩ := AuthWorld.createUser_ok created
  constructor
  · rw [List.map_append, List.map_singleton, List.nodup_append]
    refine ⟨distinct.ids, List.nodup_singleton _, ?_⟩
    intro id member other otherMember
    obtain ⟨old, oldMember, rfl⟩ := List.mem_map.mp member
    rw [List.mem_singleton.mp otherMember]
    exact freshId old oldMember
  · rw [List.map_append, List.map_singleton, List.nodup_append]
    refine ⟨distinct.emails, List.nodup_singleton _, ?_⟩
    intro email member other otherMember
    obtain ⟨old, oldMember, rfl⟩ := List.mem_map.mp member
    rw [List.mem_singleton.mp otherMember]
    exact freshEmail old oldMember

def emailViolation : AppError :=
  ⟨"Unique constraint failed on the fields: (`email`)", 500, "P2002", none⟩

/-- An email that is refused as a duplicate is one of an account. -/
theorem AuthWorld.createUser_taken {error : AppError}
    (refused : world.createUser user = .error error)
    (taken : error = emailTaken ∨ error = emailViolation) :
    ∃ other ∈ world.users, other.email = user.email := by
  simp only [AuthWorld.createUser] at refused
  split at refused
  · -- the id is the one that is taken
    obtain rfl := Except.error.inj refused
    exact absurd taken (by decide)
  · split at refused
    · next duplicate => simpa using duplicate
    · cases refused

/-- Everything a process of the API can do in a step. -/
inductive AuthMove (library : AuthLibrary) (world : AuthWorld) :
    AuthProc → AuthAction → AuthWorld → AuthProc → Prop where
  | request (request : AuthRequest) :
      AuthMove library world .idle (.request request) world
        (.serving request (request.begin library world))
  | call {request : AuthRequest} {pc : AuthPc} (fault : Fault)
      (draws : Draws) (live : pc.ended = false) :
      AuthMove library world (.serving request pc) (.call fault draws)
        (authCall library draws world pc fault).1
        (.serving request (authCall library draws world pc fault).2)
  | crash {request : AuthRequest} {pc : AuthPc} (live : pc.ended = false) :
      AuthMove library world (.serving request pc) .crash world
        (.serving request .crashed)

theorem authMove_of_act {proc next : AuthProc} {action : AuthAction}
    (stepEq : authAct library world proc action = some (after, next)) :
    AuthMove library world proc action after next := by
  cases proc with
  | idle =>
      cases action with
      | request request =>
          obtain ⟨rfl, rfl⟩ := Prod.mk.inj (Option.some.inj stepEq)
          exact .request request
      | _ => cases stepEq
  | serving request pc =>
      cases action with
      | request request => cases stepEq
      | call fault draws =>
          simp only [authAct, Option.ite_none_left_eq_some,
            Option.some.injEq, Prod.mk.injEq, Bool.not_eq_true] at stepEq
          obtain ⟨live, rfl, rfl⟩ := stepEq
          exact .call fault draws live
      | crash =>
          simp only [authAct, Option.ite_none_left_eq_some,
            Option.some.injEq, Prod.mk.injEq, Bool.not_eq_true] at stepEq
          obtain ⟨live, rfl, rfl⟩ := stepEq
          exact .crash live

/-- A call is answered, or fails with or without its effect. -/
theorem authCall_cases {pc : AuthPc} {motive : AuthWorld × AuthPc → Prop}
    (fault : Fault) (answered : motive (authStep library draws world pc))
    (refused : ∀ message, motive (world, .threw (callError message)))
    (lost : ∀ message, motive
      ((authStep library draws world pc).1, .threw (callError message))) :
    motive (authCall library draws world pc fault) := by
  cases fault with
  | none => exact answered
  | refused message => exact refused message
  | lost message => exact lost message
  | keeping kept => exact answered

/-- A statement leaves the world alone, or creates a user. -/
theorem authStep_world (library : AuthLibrary) (draws : Draws)
    (world : AuthWorld) (pc : AuthPc) :
    (authStep library draws world pc).1 = world ∨
      ∃ input passwordHash, pc = .create input passwordHash ∧
        world.createUser (newUser world draws input passwordHash) =
          .ok (authStep library draws world pc).1 := by
  cases pc with
  | create input passwordHash =>
      simp only [authStep]
      split
      · exact .inl rfl
      · next next created => exact .inr ⟨input, passwordHash, rfl, created⟩
  | _ => exact .inl rfl

/-- Users are only added, and the clock does not go back. -/
structure AuthWorld.Grows (before after : AuthWorld) : Prop where
  users : before.users <+: after.users
  now : before.now ≤ after.now

theorem AuthWorld.Grows.refl (world : AuthWorld) : world.Grows world :=
  ⟨List.prefix_refl _, le_refl _⟩

theorem AuthWorld.Grows.mem (grows : before.Grows after)
    (member : user ∈ before.users) : user ∈ after.users :=
  grows.users.subset member

theorem AuthWorld.Grows.seconds (grows : before.Grows after) :
    before.seconds ≤ after.seconds :=
  Nat.div_le_div_right grows.now

theorem grows_authStep (pc : AuthPc) :
    world.Grows (authStep library draws world pc).1 := by
  rcases authStep_world library draws world pc with same | created
  · rw [same]
    exact .refl world
  · obtain ⟨input, passwordHash, _, created⟩ := created
    obtain ⟨next, _⟩ := AuthWorld.createUser_ok created
    rw [next]
    exact ⟨List.prefix_append _ _, le_refl _⟩

theorem grows_authCall (pc : AuthPc) (fault : Fault) :
    world.Grows (authCall library draws world pc fault).1 :=
  authCall_cases (motive := fun result => world.Grows result.1) fault
    (grows_authStep pc) (fun _ => .refl world) fun _ => grows_authStep pc

structure Registers (library : AuthLibrary) (body : RegisterBody)
    (user : User) : Prop where
  accepted : registerIssues library body = []
  name : user.name = trimText body.name
  email : user.email = normaliseEmail body.email
  password : ∃ salt, user.passwordHash = library.hash body.password salt

theorem registerSchema_ok {body input : RegisterBody}
    (parsed : registerSchema library body = .ok input) :
    registerIssues library body = [] ∧
      input = ⟨trimText body.name, trimText body.email, body.password⟩ := by
  simp only [registerSchema] at parsed
  split at parsed
  · next accepted => exact ⟨accepted, (Except.ok.inj parsed).symm⟩
  · cases parsed

theorem loginSchema_ok {body input : LoginBody}
    (parsed : loginSchema library body = .ok input) :
    input = ⟨trimText body.email, body.password⟩ := by
  simp only [loginSchema] at parsed
  split at parsed
  · exact (Except.ok.inj parsed).symm
  · cases parsed

def RegisterServed (library : AuthLibrary) (world : AuthWorld)
    (body : RegisterBody) : AuthPc → Prop
  | .findExisting input => registerSchema library body = .ok input
  | .hashPassword input => registerSchema library body = .ok input
  | .create input passwordHash =>
      registerSchema library body = .ok input ∧
        ∃ salt, passwordHash = library.hash body.password salt
  | .returned reply =>
      ∃ user ∈ world.users, Registers library body user ∧
        reply = .registered user.id user.name user.email
  | .rejected details => registerSchema library body = .error details
  | .threw error =>
      error = emailTaken ∨ error = emailViolation →
        ∃ user ∈ world.users, user.email = normaliseEmail body.email
  | .crashed => True
  | _ => False

/-- A login is answered for the password of its account, by a token of the
time since it began. -/
def LoginServed (library : AuthLibrary) (world : AuthWorld) (since : Nat)
    (body : LoginBody) : AuthPc → Prop
  | .findUser input => loginSchema library body = .ok input
  | .comparePassword input user =>
      loginSchema library body = .ok input ∧ user ∈ world.users ∧
        user.email = normaliseEmail body.email
  | .returned reply =>
      ∃ user ∈ world.users, user.email = normaliseEmail body.email ∧
        library.compare body.password user.passwordHash = true ∧
        ∃ issuedAt, since ≤ issuedAt ∧ issuedAt ≤ world.seconds ∧
          reply = .loggedIn (library.sign ⟨user.id, user.email⟩ issuedAt)
            user.id user.name user.email
  | .rejected details => loginSchema library body = .error details
  | .threw error =>
      error = badCredentials ∨ ∃ message, error = callError message
  | .crashed => True
  | _ => False

/-- A request for the own account shows an account. -/
def MeServed (world : AuthWorld) : AuthPc → Prop
  | .findMe _ => True
  | .returned reply =>
      ∃ user ∈ world.users,
        reply = .account user.id user.name user.email user.createdAt
  | .threw _ => True
  | .crashed => True
  | _ => False

/-- What holds of a process of the API. -/
def Served (library : AuthLibrary) (world : AuthWorld) : AuthProc → Prop
  | .idle => True
  | .serving (.register body) pc => RegisterServed library world body pc
  | .serving (.login body) pc => LoginServed library world 0 body pc
  | .serving (.me _) pc => MeServed world pc

theorem registerServed_grows {body : RegisterBody} {pc : AuthPc}
    (grows : before.Grows after)
    (served : RegisterServed library before body pc) :
    RegisterServed library after body pc := by
  cases pc with
  | returned reply =>
      obtain ⟨user, member, found⟩ := served
      exact ⟨user, grows.mem member, found⟩
  | threw error =>
      intro refused
      obtain ⟨user, member, found⟩ := served refused
      exact ⟨user, grows.mem member, found⟩
  | _ => exact served

theorem loginServed_grows {since : Nat} {body : LoginBody} {pc : AuthPc}
    (grows : before.Grows after)
    (served : LoginServed library before since body pc) :
    LoginServed library after since body pc := by
  cases pc with
  | comparePassword input user =>
      exact ⟨served.1, grows.mem served.2.1, served.2.2⟩
  | returned reply =>
      obtain ⟨user, member, email, matching, issuedAt, late, early, answer⟩ :=
        served
      exact ⟨user, grows.mem member, email, matching, issuedAt, late,
        early.trans grows.seconds, answer⟩
  | _ => exact served

theorem meServed_grows {pc : AuthPc} (grows : before.Grows after)
    (served : MeServed before pc) : MeServed after pc := by
  cases pc with
  | returned reply =>
      obtain ⟨user, member, answer⟩ := served
      exact ⟨user, grows.mem member, answer⟩
  | _ => exact served

theorem served_grows {proc : AuthProc} (grows : before.Grows after)
    (served : Served library before proc) : Served library after proc := by
  cases proc with
  | idle => trivial
  | serving request pc =>
      cases request with
      | register body => exact registerServed_grows grows served
      | login body => exact loginServed_grows grows served
      | me header => exact meServed_grows grows served

theorem callError_ne_emailTaken (message : String) :
    callError message ≠ emailTaken := by
  intro same
  have code : "INTERNAL_ERROR" = "CONFLICT" := congrArg AppError.code same
  exact absurd code (by decide)

theorem callError_ne_emailViolation (message : String) :
    callError message ≠ emailViolation := by
  intro same
  have code : "INTERNAL_ERROR" = "P2002" := congrArg AppError.code same
  exact absurd code (by decide)

theorem registerServed_callError {body : RegisterBody} (message : String) :
    RegisterServed library world body (.threw (callError message)) := by
  rintro (taken | violated)
  · exact absurd taken (callError_ne_emailTaken message)
  · exact absurd violated (callError_ne_emailViolation message)

theorem registerServed_begin {body : RegisterBody} {pc : AuthPc}
    (begins : (AuthRequest.register body).begin library world = pc) :
    RegisterServed library world body pc := by
  simp only [AuthRequest.begin] at begins
  split at begins
  · next details parsed =>
      obtain rfl := begins
      exact parsed
  · next input parsed =>
      obtain rfl := begins
      exact parsed

theorem loginServed_begin {since : Nat} {body : LoginBody} {pc : AuthPc}
    (begins : (AuthRequest.login body).begin library world = pc) :
    LoginServed library world since body pc := by
  simp only [AuthRequest.begin] at begins
  split at begins
  · next details parsed =>
      obtain rfl := begins
      exact parsed
  · next input parsed =>
      obtain rfl := begins
      exact parsed

theorem meServed_begin {header : Option String} {pc : AuthPc}
    (begins : (AuthRequest.me header).begin library world = pc) :
    MeServed world pc := by
  simp only [AuthRequest.begin] at begins
  split at begins
  · obtain rfl := begins
    exact True.intro
  · obtain rfl := begins
    exact True.intro

theorem served_begin {request : AuthRequest} {pc : AuthPc}
    (begins : request.begin library world = pc) :
    Served library world (.serving request pc) := by
  cases request with
  | register body => exact registerServed_begin begins
  | login body => exact loginServed_begin begins
  | me header => exact meServed_begin begins

/-- The row a registration creates is one of its body. -/
theorem registers_newUser {body input : RegisterBody} {passwordHash : String}
    (parsed : registerSchema library body = .ok input)
    (hashed : ∃ salt, passwordHash = library.hash body.password salt) :
    Registers library body (newUser world draws input passwordHash) := by
  obtain ⟨accepted, rfl⟩ := registerSchema_ok parsed
  exact ⟨accepted, trimText_trimText _, normaliseEmail_trimText _, hashed⟩

theorem registerServed_step {body : RegisterBody} {pc : AuthPc}
    (live : pc.ended = false)
    (served : RegisterServed library world body pc) :
    RegisterServed library (authStep library draws world pc).1 body
      (authStep library draws world pc).2 := by
  cases pc with
  | findExisting input =>
      obtain ⟨_, rfl⟩ := registerSchema_ok served
      simp only [authStep]
      split
      · next user found =>
          intro _
          obtain ⟨member, same⟩ := AuthWorld.mem_of_findByEmail found
          exact ⟨user, member, same.trans (normaliseEmail_trimText _)⟩
      · exact served
  | hashPassword input =>
      obtain ⟨_, rfl⟩ := registerSchema_ok served
      exact ⟨served, draws.salt, rfl⟩
  | create input passwordHash =>
      obtain ⟨parsed, hashed⟩ := served
      have registers : Registers library body
          (newUser world draws input passwordHash) :=
        registers_newUser parsed hashed
      simp only [authStep]
      split
      · next error refused =>
          intro taken
          obtain ⟨other, member, same⟩ :=
            AuthWorld.createUser_taken refused taken
          exact ⟨other, member, same.trans registers.email⟩
      · next next created =>
          obtain ⟨rfl, _⟩ := AuthWorld.createUser_ok created
          exact ⟨_, List.mem_append_right _ (List.mem_singleton_self _),
            registers, rfl⟩
  | findUser input => exact served.elim
  | comparePassword input user => exact served.elim
  | findMe userId => exact served.elim
  | _ => cases live

theorem loginServed_step {since : Nat} {body : LoginBody} {pc : AuthPc}
    (begun : since ≤ world.seconds) (live : pc.ended = false)
    (served : LoginServed library world since body pc) :
    LoginServed library (authStep library draws world pc).1 since body
      (authStep library draws world pc).2 := by
  cases pc with
  | findUser input =>
      have parsed := loginSchema_ok served
      simp only [authStep]
      split
      · exact .inl rfl
      · next user found =>
          obtain ⟨member, same⟩ := AuthWorld.mem_of_findByEmail found
          rw [parsed, normaliseEmail_trimText] at same
          exact ⟨served, member, same⟩
  | comparePassword input user =>
      obtain ⟨parsed, member, email⟩ := served
      have password : input.password = body.password := by
        rw [loginSchema_ok parsed]
      simp only [authStep]
      split
      · next matching =>
          exact ⟨user, member, email, password ▸ matching, world.seconds,
            begun, le_refl _, rfl⟩
      · exact .inl rfl
  | findExisting input => exact served.elim
  | hashPassword input => exact served.elim
  | create input passwordHash => exact served.elim
  | findMe userId => exact served.elim
  | _ => cases live

theorem meServed_step {pc : AuthPc} (live : pc.ended = false)
    (served : MeServed world pc) :
    MeServed (authStep library draws world pc).1
      (authStep library draws world pc).2 := by
  cases pc with
  | findMe userId =>
      simp only [authStep]
      split
      · trivial
      · next user found =>
          exact ⟨user, (AuthWorld.mem_of_findById found).1, rfl⟩
  | findExisting input => exact served.elim
  | hashPassword input => exact served.elim
  | create input passwordHash => exact served.elim
  | findUser input => exact served.elim
  | comparePassword input user => exact served.elim
  | _ => cases live

theorem served_call {request : AuthRequest} {pc : AuthPc} (fault : Fault)
    (live : pc.ended = false)
    (served : Served library world (.serving request pc)) :
    Served library (authCall library draws world pc fault).1
      (.serving request (authCall library draws world pc fault).2) := by
  cases request with
  | register body =>
      exact authCall_cases
        (motive := fun result =>
          RegisterServed library result.1 body result.2) fault
        (registerServed_step live served) registerServed_callError
        registerServed_callError
  | login body =>
      exact authCall_cases
        (motive := fun result =>
          LoginServed library result.1 0 body result.2) fault
        (loginServed_step (Nat.zero_le _) live served)
        (fun message => .inr ⟨message, rfl⟩)
        fun message => .inr ⟨message, rfl⟩
  | me header =>
      exact authCall_cases
        (motive := fun result => MeServed result.1 result.2) fault
        (meServed_step live served) (fun _ => trivial) fun _ => trivial

theorem served_crashed (request : AuthRequest) :
    Served library world (.serving request .crashed) := by
  cases request <;> trivial

abbrev AuthCondition :=
  Config AuthWorld AuthProc → Event AuthAction Nat → Prop

theorem distinct_authCall {pc : AuthPc} (fault : Fault)
    (distinct : world.Distinct) :
    (authCall library draws world pc fault).1.Distinct := by
  have created : (authStep library draws world pc).1.Distinct := by
    rcases authStep_world library draws world pc with
      same | ⟨input, passwordHash, _, created⟩
    · rw [same]
      exact distinct
    · exact distinct.create created
  exact authCall_cases (motive := fun result => result.1.Distinct) fault
    created (fun _ => distinct) fun _ => created

theorem grows_later (world : AuthWorld) (milliseconds : Nat) :
    world.Grows { world with now := world.now + milliseconds } :=
  ⟨List.prefix_refl _, Nat.le_add_right _ _⟩

/-- What each request has found out stays true while the others go on. -/
def accountsOutline (library : AuthLibrary) (permitted : AuthCondition) :
    ProofOutline (authNetwork library) permitted where
  invariant := AuthWorld.Distinct
  assertion := Served library
  owner _ := False
  rely := AuthWorld.Grows
  ownerRely _ _ := False
  exclusive _ _ owner := owner.elim
  act_sound := by
    intro config index action shared proc allowed actEq distinct served
    have own := served index
    have move := authMove_of_act actEq
    generalize config.procs index = current at move own
    cases move with
    | request request =>
        exact ⟨distinct, served_begin rfl, .inl (.refl _)⟩
    | call fault draws live =>
        exact ⟨distinct_authCall fault distinct, served_call fault live own,
          .inl (grows_authCall _ fault)⟩
    | crash live => exact ⟨distinct, served_crashed _, .inl (.refl _)⟩
  env_sound := by
    intro config change shared allowed envEq distinct served
    obtain rfl := Option.some.inj envEq
    exact ⟨⟨distinct.ids, distinct.emails⟩, fun other =>
      served_grows (grows_later _ _) (served other)⟩
  stable := served_grows
  owner_stable impossible := impossible.elim

theorem accountsOutline_initial {config : Config AuthWorld AuthProc}
    {permitted : AuthCondition} (start : NoUsers config) :
    (accountsOutline library permitted).Holds config := by
  refine ⟨⟨?_, ?_⟩, fun index => ?_, fun _ _ owner => owner.elim⟩
  · rw [start.users]
    exact List.nodup_nil
  · rw [start.users]
    exact List.nodup_nil
  · rw [start.idle index]
    trivial

/-! ## Accounts and their registrations -/

/-- How a registration ends that has created the row: it is answered with it,
or the answer of its last call is lost. -/
def Enrols (user : User) (pc : AuthPc) : Prop :=
  pc = .returned (.registered user.id user.name user.email) ∨
    ∃ message, pc = .threw (callError message)

/-- The process serves the registration that has created the row. -/
def HasEnrolled (library : AuthLibrary) (user : User) (proc : AuthProc) :
    Prop :=
  ∃ body pc, proc = .serving (.register body) pc ∧
    Registers library body user ∧ Enrols user pc

theorem ended_of_enrols {pc : AuthPc} (enrols : Enrols user pc) :
    pc.ended = true := by
  rcases enrols with rfl | ⟨message, rfl⟩
  · rfl
  · rfl

/-- A statement answers a registration or adds a user only where it creates
the row of that registration. -/
theorem registerServed_creates (draws : Draws) {body : RegisterBody}
    {pc : AuthPc} (live : pc.ended = false)
    (served : RegisterServed library world body pc) :
    ((authStep library draws world pc).1 = world ∧
        ∀ reply, (authStep library draws world pc).2 ≠ .returned reply) ∨
      ∃ user, Registers library body user ∧
        world.createUser user = .ok (authStep library draws world pc).1 ∧
        (authStep library draws world pc).2 =
          .returned (.registered user.id user.name user.email) := by
  cases pc with
  | findExisting input =>
      refine .inl ⟨rfl, fun reply => ?_⟩
      simp only [authStep]
      split <;> nofun
  | hashPassword input => exact .inl ⟨rfl, nofun⟩
  | create input passwordHash =>
      have registers : Registers library body
          (newUser world draws input passwordHash) :=
        registers_newUser served.1 served.2
      simp only [authStep]
      split
      · exact .inl ⟨rfl, nofun⟩
      · next next created => exact .inr ⟨_, registers, created, rfl⟩
  | findUser input => exact served.elim
  | comparePassword input user => exact served.elim
  | findMe userId => exact served.elim
  | _ => cases live

theorem served_creates {request : AuthRequest} {pc : AuthPc} (fault : Fault)
    (live : pc.ended = false)
    (served : Served library world (.serving request pc)) :
    ((authCall library draws world pc fault).1 = world ∧
        ∀ body reply, request = .register body →
          (authCall library draws world pc fault).2 ≠ .returned reply) ∨
      ∃ body user, request = .register body ∧
        Registers library body user ∧
        world.createUser user =
          .ok (authCall library draws world pc fault).1 ∧
        Enrols user (authCall library draws world pc fault).2 := by
  have unchanged : (∀ input passwordHash, pc ≠ .create input passwordHash) →
      (authCall library draws world pc fault).1 = world := by
    intro different
    have same : (authStep library draws world pc).1 = world := by
      rcases authStep_world library draws world pc with
        same | ⟨input, passwordHash, creates, _⟩
      · exact same
      · exact absurd creates (different input passwordHash)
    exact authCall_cases (motive := fun result => result.1 = world) fault
      same (fun _ => rfl) fun _ => same
  cases request with
  | register body =>
      have creates := registerServed_creates draws live served
      cases fault with
      | refused message => exact .inl ⟨rfl, nofun⟩
      | lost message =>
          rcases creates with ⟨same, _⟩ | ⟨user, registers, created, _⟩
          · exact .inl ⟨same, nofun⟩
          · exact .inr ⟨body, user, rfl, registers, created,
              .inr ⟨message, rfl⟩⟩
      | _ =>
          rcases creates with
            ⟨same, unanswered⟩ | ⟨user, registers, created, answers⟩
          · exact .inl ⟨same, fun _ reply _ => unanswered reply⟩
          · exact .inr ⟨body, user, rfl, registers, created, .inl answers⟩
  | login body =>
      refine .inl ⟨unchanged ?_, nofun⟩
      rintro input passwordHash rfl
      exact served
  | me header =>
      refine .inl ⟨unchanged ?_, nofun⟩
      rintro input passwordHash rfl
      exact served

/-- The event is an act of the process by which the user comes into the
table. -/
def Adds (user : User) (index : Nat) (before : Config AuthWorld AuthProc)
    (event : Event AuthAction Nat) (after : Config AuthWorld AuthProc) :
    Prop :=
  (∃ action, event = .act index action) ∧ user ∉ before.shared.users ∧
    user ∈ after.shared.users

def AddedBy (library : AuthLibrary) (source : Config AuthWorld AuthProc)
    (events : List (Event AuthAction Nat)) (user : User) (index : Nat) :
    Prop :=
  ∃ early event late before after,
    events = early ++ event :: late ∧
      (authMachine library).Exec (fun _ _ => True) source early before ∧
      (authMachine library).step before event = some after ∧
      Adds user index before event after

/-- The users and the registrations they come from.  Each user was added by one
process, which serves a registration of it and was answered with the user or
not at all; and a registration is answered with a user it has added. -/
structure Enrolled (library : AuthLibrary)
    (source : Config AuthWorld AuthProc) (events : List (Event AuthAction Nat))
    (config : Config AuthWorld AuthProc) : Prop where
  origin : ∀ user ∈ config.shared.users,
    ∃! index, AddedBy library source events user index
  present : ∀ {user index}, AddedBy library source events user index →
    user ∈ config.shared.users
  registration : ∀ {user index}, AddedBy library source events user index →
    HasEnrolled library user (config.procs index)
  answered : ∀ {index body reply},
    config.procs index = .serving (.register body) (.returned reply) →
    ∃ user, AddedBy library source events user index ∧
      reply = .registered user.id user.name user.email

variable {source config next : Config AuthWorld AuthProc}
variable {early : List (Event AuthAction Nat)}

/-- One event more. -/
theorem addedBy_concat {event : Event AuthAction Nat} {index : Nat}
    (history : (authMachine library).Exec (fun _ _ => True) source early
      config)
    (stepEq : (authMachine library).step config event = some next) :
    AddedBy library source (early ++ [event]) user index ↔
      AddedBy library source early user index ∨
        Adds user index config event next := by
  constructor
  · rintro ⟨first, other, late, before, after, split, earlier, otherEq, adds⟩
    rcases List.eq_nil_or_concat late with rfl | ⟨middle, last, rfl⟩
    · obtain ⟨rfl, sameEvent⟩ := List.append_inj' split rfl
      obtain rfl := List.singleton_inj.mp sameEvent
      obtain rfl := history.unique earlier
      obtain rfl := Option.some.inj (stepEq.symm.trans otherEq)
      exact .inr adds
    · rw [List.concat_eq_append, ← List.cons_append, ← List.append_assoc]
        at split
      exact .inl ⟨first, other, middle, before, after,
        List.append_inj_left' split rfl, earlier, otherEq, adds⟩
  · rintro (⟨first, other, late, before, after, rfl, earlier⟩ | adds)
    · exact ⟨first, other, late ++ [event], before, after,
        by rw [List.append_assoc, List.cons_append], earlier⟩
    · exact ⟨early, event, [], config, next, rfl, history, stepEq, adds⟩

/-- Whoever has ended is not the one that acts. -/
theorem ne_of_ended {index other : Nat} {action : AuthAction}
    {proc : AuthProc} {request : AuthRequest} {pc : AuthPc}
    (actEq : authAct library world (config.procs index) action =
      some (after, proc))
    (serving : config.procs other = .serving request pc)
    (ended : pc.ended = true) : other ≠ index := by
  rintro rfl
  rw [serving] at actEq
  cases authMove_of_act actEq with
  | call fault draws live =>
      rw [ended] at live
      cases live
  | crash live =>
      rw [ended] at live
      cases live

/-- A process that has enrolled its user does nothing else. -/
theorem hasEnrolled_update {index other : Nat} {action : AuthAction}
    {proc : AuthProc}
    (actEq : authAct library config.shared (config.procs index) action =
      some (after, proc))
    (enrolled : HasEnrolled library user (config.procs other)) :
    HasEnrolled library user
      (Function.update config.procs index proc other) := by
  obtain ⟨body, pc, serving, registers, enrols⟩ := enrolled
  refine ⟨body, pc, ?_, registers, enrols⟩
  have different := ne_of_ended actEq serving (ended_of_enrols enrols)
  rw [Function.update_of_ne different]
  exact serving

/-- An event that neither adds a user nor answers a registration. -/
theorem Enrolled.quiet {event : Event AuthAction Nat}
    (enrolled : Enrolled library source early config)
    (history : (authMachine library).Exec (fun _ _ => True) source early
      config)
    (stepEq : (authMachine library).step config event = some next)
    (same : next.shared.users = config.shared.users)
    (kept : ∀ {user index},
      HasEnrolled library user (config.procs index) →
      HasEnrolled library user (next.procs index))
    (unanswered : ∀ {index body reply},
      next.procs index = .serving (.register body) (.returned reply) →
      config.procs index = .serving (.register body) (.returned reply)) :
    Enrolled library source (early ++ [event]) next := by
  have nothing : ∀ {user index},
      AddedBy library source (early ++ [event]) user index ↔
        AddedBy library source early user index := by
    intro user index
    rw [addedBy_concat history stepEq, or_iff_left]
    rintro ⟨_, absent, present⟩
    exact absent (same ▸ present)
  constructor
  · intro user member
    simp only [nothing]
    exact enrolled.origin user (same ▸ member)
  · intro user index added
    rw [same]
    exact enrolled.present (nothing.mp added)
  · intro user index added
    exact kept (enrolled.registration (nothing.mp added))
  · intro index body reply answered
    obtain ⟨user, added, answer⟩ := enrolled.answered (unanswered answered)
    exact ⟨user, nothing.mpr added, answer⟩

/-- A call that creates the row of a registration. -/
theorem Enrolled.create {index : Nat} {body : RegisterBody} {pc : AuthPc}
    {action : AuthAction}
    (enrolled : Enrolled library source early config)
    (history : (authMachine library).Exec (fun _ _ => True) source early
      config)
    (actEq : authAct library config.shared (config.procs index) action =
      some (after, .serving (.register body) pc))
    (created : config.shared.createUser user = .ok after)
    (registers : Registers library body user) (enrols : Enrols user pc) :
    Enrolled library source (early ++ [.act index action])
      ⟨after, Function.update config.procs index
        (.serving (.register body) pc)⟩ := by
  have stepEq : (authMachine library).step config (.act index action) =
      some ⟨after, Function.update config.procs index
        (.serving (.register body) pc)⟩ :=
    Network.step_act_iff.mpr ⟨after, _, actEq, rfl⟩
  obtain ⟨rfl, freshId, _⟩ := AuthWorld.createUser_ok created
  have absent : user ∉ config.shared.users :=
    fun member => freshId user member rfl
  have adds : ∀ {other number},
      Adds other number config (.act index action)
          ⟨{ config.shared with users := config.shared.users ++ [user] },
            Function.update config.procs index
              (.serving (.register body) pc)⟩ ↔
        other = user ∧ number = index := by
    intro other number
    constructor
    · rintro ⟨⟨_, acts⟩, missing, there⟩
      obtain ⟨rfl, _⟩ := Event.act.inj acts
      rcases List.mem_append.mp there with known | new
      · exact absurd known missing
      · exact ⟨List.mem_singleton.mp new, rfl⟩
    · rintro ⟨rfl, rfl⟩
      exact ⟨⟨action, rfl⟩, absent,
        List.mem_append_right _ (List.mem_singleton_self _)⟩
  constructor
  · intro account member
    simp only [addedBy_concat history stepEq, adds]
    rcases List.mem_append.mp member with known | new
    · obtain ⟨origin, added, unique⟩ := enrolled.origin account known
      refine ⟨origin, .inl added, ?_⟩
      rintro other (earlier | ⟨rfl, _⟩)
      · exact unique other earlier
      · exact absurd known absent
    · obtain rfl := List.mem_singleton.mp new
      refine ⟨index, .inr ⟨rfl, rfl⟩, ?_⟩
      rintro other (earlier | ⟨_, rfl⟩)
      · exact absurd (enrolled.present earlier) absent
      · rfl
  · intro account number added
    rcases (addedBy_concat history stepEq).mp added with earlier | now
    · exact List.mem_append_left _ (enrolled.present earlier)
    · exact now.2.2
  · intro account number added
    rcases (addedBy_concat history stepEq).mp added with earlier | now
    · exact hasEnrolled_update actEq (enrolled.registration earlier)
    · obtain ⟨rfl, rfl⟩ := adds.mp now
      exact ⟨body, pc, Function.update_self _ _ _, registers, enrols⟩
  · intro number otherBody reply answered
    by_cases acts : number = index
    · subst acts
      simp only [Function.update_self] at answered
      obtain ⟨_, rfl⟩ := AuthProc.serving.inj answered
      refine ⟨user, (addedBy_concat history stepEq).mpr
        (.inr (adds.mpr ⟨rfl, rfl⟩)), ?_⟩
      rcases enrols with answer | ⟨message, failed⟩
      · exact AuthPc.returned.inj answer
      · cases failed
    · simp only [Function.update_of_ne acts] at answered
      obtain ⟨account, added, answer⟩ := enrolled.answered answered
      exact ⟨account, (addedBy_concat history stepEq).mpr (.inl added),
        answer⟩

/-- No request is answered before its first call. -/
theorem begin_ne_returned {request : AuthRequest} {reply : AuthReply} :
    request.begin library world ≠ .returned reply := by
  cases request with
  | register body =>
      simp only [AuthRequest.begin]
      split <;> nofun
  | login body =>
      simp only [AuthRequest.begin]
      split <;> nofun
  | me header =>
      simp only [AuthRequest.begin]
      split <;> nofun

theorem enrolled_step {permitted : AuthCondition}
    {event : Event AuthAction Nat}
    (history : (authMachine library).Exec (fun _ _ => True) source early
      config)
    (holds : (accountsOutline library permitted).Holds config)
    (stepEq : (authMachine library).step config event = some next)
    (enrolled : Enrolled library source early config) :
    Enrolled library source (early ++ [event]) next := by
  cases event with
  | env change =>
      obtain ⟨shared, envEq, rfl⟩ := Network.step_env_iff.mp stepEq
      obtain rfl := Option.some.inj envEq
      exact enrolled.quiet history stepEq rfl id id
  | act index action =>
      obtain ⟨shared, proc, actEq, rfl⟩ := Network.step_act_iff.mp stepEq
      -- the other processes serve what they served
      have quiet : shared.users = config.shared.users →
          (∀ body reply, proc ≠ .serving (.register body)
            (.returned reply)) →
          Enrolled library source (early ++ [.act index action])
            ⟨shared, Function.update config.procs index proc⟩ := by
        intro same unanswered
        refine enrolled.quiet history stepEq same (hasEnrolled_update actEq) ?_
        intro other body reply answered
        by_cases acts : other = index
        · subst acts
          simp only [Function.update_self] at answered
          exact absurd answered (unanswered body reply)
        · simpa only [Function.update_of_ne acts] using answered
      have move := authMove_of_act actEq
      have own := holds.2.1 index
      generalize current : config.procs index = before at move own
      cases move with
      | request request =>
          refine quiet rfl fun body reply answered => ?_
          exact begin_ne_returned (AuthProc.serving.inj answered).2
      | call fault draws live =>
          rcases served_creates fault live own with
            ⟨same, unanswered⟩ | ⟨body, user, rfl, registers, created, enrols⟩
          · refine quiet (congrArg AuthWorld.users same) ?_
            intro body reply answered
            obtain ⟨asks, answers⟩ := AuthProc.serving.inj answered
            exact unanswered body reply asks answers
          · exact enrolled.create history actEq created registers enrols
      | crash live => exact quiet rfl nofun

variable {middle target : Config AuthWorld AuthProc}
variable {late events : List (Event AuthAction Nat)}

abbrev AuthHistory (library : AuthLibrary)
    (source : Config AuthWorld AuthProc) (events : List (Event AuthAction Nat))
    (target : Config AuthWorld AuthProc) : Prop :=
  (authMachine library).Exec (fun _ _ => True) source events target

theorem accountsOutline_holds (start : NoUsers source)
    (history : AuthHistory library source events target) :
    (accountsOutline library fun _ _ => True).Holds target :=
  (accountsOutline library _).preserved history
    (accountsOutline_initial start)

theorem enrolled_history (start : NoUsers source)
    (history : AuthHistory library source events target) :
    Enrolled library source events target := by
  have kept : ∀ {early : List (Event AuthAction Nat)}
      {before : Config AuthWorld AuthProc} {event : Event AuthAction Nat}
      {after : Config AuthWorld AuthProc},
      AuthHistory library source early before → True →
      (authMachine library).step before event = some after →
      Enrolled library source early before →
      Enrolled library source (early ++ [event]) after := by
    intro early before event after earlier _ stepEq enrolled
    exact enrolled_step earlier (accountsOutline_holds start earlier) stepEq
      enrolled
  have never : ∀ {user index}, ¬ AddedBy library source [] user index := by
    rintro user index ⟨early, event, late, _, _, split, _⟩
    simp at split
  refine history.history kept ⟨?_, ?_, ?_, ?_⟩
  · intro user member
    rw [start.users] at member
    cases member
  · intro user index added
    exact absurd added never
  · intro user index added
    exact absurd added never
  · intro index body reply answered
    rw [start.idle index] at answered
    cases answered

/-- A computation that a test accepts is a history. -/
theorem exists_authHistory (source : Config AuthWorld AuthProc)
    (events : List (Event AuthAction Nat))
    (test : Config AuthWorld AuthProc → Bool)
    (accepted : ((authMachine smallLibrary).runChecked (fun _ _ => true)
      source events).any test = true) :
    ∃ target, AuthHistory smallLibrary source events target ∧
      test target = true := by
  obtain ⟨target, runEq, ends⟩ := Machine.exists_of_any_runChecked accepted
  exact ⟨target, Machine.exec_of_runChecked (fun _ => True)
    (fun _ _ => trivial) (fun _ _ _ => trivial) trivial runEq, ends⟩

/-- The login of process 2 has been answered with some token. -/
def hasLoggedIn (config : Config AuthWorld AuthProc) : Bool :=
  match config.procs 2 with
  | .serving (.login body) (.returned (.loggedIn _ id name email)) =>
      decide (body = smallLogin ∧ id = "u" ∧ name = "Ann" ∧
        email = "ann@b.co")
  | _ => false

theorem exists_of_hasLoggedIn {config : Config AuthWorld AuthProc}
    (logged : hasLoggedIn config = true) :
    ∃ token, config.procs 2 = .serving (.login smallLogin)
      (.returned (.loggedIn token "u" "Ann" "ann@b.co")) := by
  simp only [hasLoggedIn] at logged
  split at logged
  · next body token id name email serving =>
      obtain ⟨rfl, rfl, rfl, rfl⟩ := of_decide_eq_true logged
      exact ⟨token, serving⟩
  · cases logged

def loginSteps : List (Event AuthAction Nat) :=
  .act 2 (.request (.login smallLogin)) :: authCalls 2 2 ⟨"", 0⟩

/-- The first registration of the race is answered and the other refused;
then a login is answered. -/
theorem racing_ends :
    ∃ middle target token,
      AuthHistory smallLibrary noAccounts racing middle ∧
        AuthHistory smallLibrary middle loginSteps target ∧
        middle.procs 0 = .serving (.register smallRegistration)
          (.returned (.registered "u" "Ann" "ann@b.co")) ∧
        middle.procs 1 = .serving (.register otherRegistration)
          (.threw emailViolation) ∧
        target.procs 2 = .serving (.login smallLogin)
          (.returned (.loggedIn token "u" "Ann" "ann@b.co")) ∧
        middle.shared.now = 0 ∧ target.shared.now = 0 ∧
        target.procs 3 = .idle := by
  obtain ⟨middle, before, ends⟩ := exists_authHistory noAccounts racing
    (fun config => decide
        (config.procs 0 = .serving (.register smallRegistration)
            (.returned (.registered "u" "Ann" "ann@b.co")) ∧
          config.procs 1 = .serving (.register otherRegistration)
            (.threw emailViolation) ∧ config.shared.now = 0) &&
      ((authMachine smallLibrary).runChecked (fun _ _ => true) config
        loginSteps).any fun last => hasLoggedIn last &&
          decide (last.shared.now = 0 ∧ last.procs 3 = .idle))
    (by decide +kernel)
  simp only [Bool.and_eq_true, decide_eq_true_eq] at ends
  obtain ⟨⟨first, second, starts⟩, continues⟩ := ends
  obtain ⟨target, after, ends⟩ := exists_authHistory middle loginSteps _
    continues
  simp only [Bool.and_eq_true, decide_eq_true_eq] at ends
  obtain ⟨logged, stops, idle⟩ := ends
  obtain ⟨token, answered⟩ := exists_of_hasLoggedIn logged
  exact ⟨middle, target, token, before, after, first, second, answered,
    starts, stops, idle⟩

/-- However registrations race, an email address has one account and the
account comes from one registration, the one that is answered with it if its
answer is not lost; a registration that is refused as a duplicate is one for
an account that exists. -/
theorem accounts_distinct (start : NoUsers source)
    (history : AuthHistory library source events target) :
    target.shared.Distinct ∧ Enrolled library source events target ∧
      ∀ {index body error},
        target.procs index = .serving (.register body) (.threw error) →
        error = emailTaken ∨ error = emailViolation →
          ∃ user ∈ target.shared.users,
            user.email = normaliseEmail body.email := by
  have holds := accountsOutline_holds start history
  refine ⟨holds.1, enrolled_history start history, ?_⟩
  intro index body error serving
  have served := holds.2.1 index
  rw [serving] at served
  exact served

theorem accounts_distinct_racing :
    ∃ target, AuthHistory smallLibrary noAccounts racing target ∧
      target.shared.Distinct ∧
      Enrolled smallLibrary noAccounts racing target ∧
      (∃ user, AddedBy smallLibrary noAccounts racing user 0 ∧
        user.id = "u") ∧
      ∃ user ∈ target.shared.users,
        user.email = normaliseEmail otherRegistration.email := by
  obtain ⟨target, _, _, history, _, first, second, _⟩ := racing_ends
  obtain ⟨distinct, enrolled, refused⟩ :=
    accounts_distinct noUsers_noAccounts history
  obtain ⟨user, added, answer⟩ := enrolled.answered first
  refine ⟨target, history, distinct, enrolled, ⟨user, added, ?_⟩,
    refused second (.inr rfl)⟩
  exact (AuthReply.registered.inj answer).1.symm

/-- A login is answered for the password of the registration of its address
only, and what refuses the others is the same for an unknown address and a
wrong password. -/
theorem login_proven (start : NoUsers source)
    (history : AuthHistory library source events target) {index : Nat}
    {body : LoginBody} {pc : AuthPc}
    (serving : target.procs index = .serving (.login body) pc) :
    (∀ reply, pc = .returned reply →
      ∃ user ∈ target.shared.users, ∃ other registration ended salt issuedAt,
        target.procs other = .serving (.register registration) ended ∧
          Registers library registration user ∧
          normaliseEmail registration.email = normaliseEmail body.email ∧
          user.passwordHash = library.hash registration.password salt ∧
          library.compare body.password user.passwordHash = true ∧
          issuedAt ≤ target.shared.seconds ∧
          reply = .loggedIn (library.sign ⟨user.id, user.email⟩ issuedAt)
            user.id user.name user.email) ∧
      ∀ error, pc = .threw error →
        error = badCredentials ∨ ∃ message, error = callError message := by
  have served := (accountsOutline_holds start history).2.1 index
  rw [serving] at served
  refine ⟨?_, ?_⟩
  · rintro reply rfl
    obtain ⟨user, member, email, matching, issuedAt, _, past, answer⟩ := served
    have enrolled := enrolled_history start history
    obtain ⟨other, added, _⟩ := enrolled.origin user member
    obtain ⟨registration, ended, registering, registers, _⟩ :=
      enrolled.registration added
    obtain ⟨salt, hashed⟩ := registers.password
    exact ⟨user, member, other, registration, ended, salt, issuedAt,
      registering, registers, registers.email.symm.trans email, hashed,
      matching, past, answer⟩
  · rintro error rfl
    exact served

theorem login_proven_racing :
    ∃ target, AuthHistory smallLibrary noAccounts (racing ++ loginSteps)
        target ∧
      ∃ other registration ended salt,
        target.procs other = .serving (.register registration) ended ∧
          normaliseEmail registration.email = "ann@b.co" ∧
          smallLibrary.compare "Correct0horse"
            (smallLibrary.hash registration.password salt) = true := by
  obtain ⟨middle, target, token, before, after, _, _, answered, _⟩ :=
    racing_ends
  have history := Machine.exec_append.mpr ⟨middle, before, after⟩
  obtain ⟨_, _, other, registration, ended, salt, _, serving, _, email,
    hashed, matching, _⟩ :=
    (login_proven noUsers_noAccounts history answered).1 _ rfl
  refine ⟨target, history, other, registration, ended, salt, serving, ?_,
    hashed ▸ matching⟩
  rw [email]
  decide +kernel

end ExportVault
