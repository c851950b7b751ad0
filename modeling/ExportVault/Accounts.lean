import ExportVault.Runner
import ExportVault.Interleaving
import Mathlib.Data.List.DropRight

/-!
# Accounts

The users of the program: the request schemas and handlers of
`server/src/controllers/auth.controller.ts`, `registerUser`, `loginUser` and
the tokens of `server/src/services/auth.service.ts`, and `requireAuth` of
`server/src/middleware/auth.middleware.ts`, one database or hashing call at a
time.  The packages `zod`, `bcryptjs` and `jsonwebtoken` are parameters.  Log
lines and the rate limits are left out.
-/

namespace ExportVault

open Interleaving

/-- `text.trim()`. -/
def trimText (text : String) : String :=
  String.ofList (trim text.toList)

/-- `text.toLowerCase()` for ASCII text. -/
def toLowerCase (text : String) : String :=
  String.ofList (text.toList.map Char.toLower)

def textLength (text : String) : Nat :=
  units text.toList

/-- `email.trim().toLowerCase()`, the form an email address is stored in. -/
def normaliseEmail (email : String) : String :=
  toLowerCase (trimText email)

theorem not_isStrWhiteSpace_head {text : List Char} {char : Char}
    (member : char ∈ (text.dropWhile isStrWhiteSpace).head?) :
    isStrWhiteSpace char = false := by
  have stays := List.head?_dropWhile_not isStrWhiteSpace text
  rw [Option.mem_def.mp member] at stays
  simpa using stays

theorem trim_trim (text : List Char) : trim (trim text) = trim text := by
  apply trim_of_ends
  · intro char member
    -- what is dropped at the end leaves the first character
    obtain ⟨tail, whole⟩ := List.rdropWhile_prefix isStrWhiteSpace
      (text.dropWhile isStrWhiteSpace)
    have first : char ∈ (text.dropWhile isStrWhiteSpace).head? := by
      rw [← whole, List.head?_append]
      exact Option.or_eq_some_iff.mpr (.inl member)
    exact not_isStrWhiteSpace_head first
  · intro char member
    rw [trim, List.getLast?_reverse] at member
    exact not_isStrWhiteSpace_head member

@[simp]
theorem trimText_trimText (text : String) :
    trimText (trimText text) = trimText text := by
  rw [trimText, trimText, String.toList_ofList, trim_trim]

@[simp]
theorem normaliseEmail_trimText (email : String) :
    normaliseEmail (trimText email) = normaliseEmail email := by
  rw [normaliseEmail, normaliseEmail, trimText_trimText]

/-- The claims of a token. -/
structure JwtPayload where
  sub : String
  email : String
  deriving DecidableEq, Repr

/-- What the program calls of its packages: the email check of `zod` and its
message for a text that is too long, `hash` and `compare` of `bcryptjs`, and
`sign` and `verify` of `jsonwebtoken` with the secret of the server.  Times
are in seconds. -/
structure AuthLibrary where
  isEmail : String → Bool
  tooLong : Nat → String
  hash : (password : String) → (salt : Nat) → String
  compare : (password passwordHash : String) → Bool
  sign : JwtPayload → (issuedAt : Nat) → String
  verify : (token : String) → (now : Nat) → Option JwtPayload

def unauthorizedError (message : String) : AppError :=
  ⟨message, 401, "UNAUTHORIZED", none⟩

structure RegisterBody where
  name : String
  email : String
  password : String
  deriving DecidableEq, Repr

structure LoginBody where
  email : String
  password : String
  deriving DecidableEq, Repr

/-- A check of a schema. -/
def issue (wrong : Bool) (field message : String) : List FieldIssue :=
  if wrong then [⟨field, message⟩] else []

def hasChar (test : Char → Bool) (text : String) : Bool :=
  text.toList.any test

/-- The checks of `registerSchema`, in the order `zod` makes them. -/
def registerIssues (library : AuthLibrary) (body : RegisterBody) :
    List FieldIssue :=
  let name := trimText body.name
  let email := trimText body.email
  issue (decide (textLength name < 2)) "name"
      "Name must be at least 2 characters" ++
    issue (decide (100 < textLength name)) "name" (library.tooLong 100) ++
    issue (!library.isEmail email) "email"
      "A valid email address is required" ++
    issue (decide (255 < textLength email)) "email" (library.tooLong 255) ++
    issue (decide (textLength body.password < 10)) "password"
      "Password must be at least 10 characters" ++
    issue (decide (200 < textLength body.password)) "password"
      (library.tooLong 200) ++
    issue (!hasChar Char.isLower body.password) "password"
      "Password must contain a lowercase letter" ++
    issue (!hasChar Char.isUpper body.password) "password"
      "Password must contain an uppercase letter" ++
    issue (!hasChar Char.isDigit body.password) "password"
      "Password must contain a digit"

/-- `registerSchema.parse`: the trimmed body, or what is wrong with it. -/
def registerSchema (library : AuthLibrary) (body : RegisterBody) :
    Except (List FieldIssue) RegisterBody :=
  match registerIssues library body with
  | [] =>
      .ok
        { name := trimText body.name
          email := trimText body.email
          password := body.password }
  | issues => .error issues

/-- The checks of `loginSchema`. -/
def loginIssues (library : AuthLibrary) (body : LoginBody) :
    List FieldIssue :=
  issue (!library.isEmail (trimText body.email)) "email"
      "A valid email address is required" ++
    issue (decide (textLength body.password < 1)) "password"
      "Password is required"

def loginSchema (library : AuthLibrary) (body : LoginBody) :
    Except (List FieldIssue) LoginBody :=
  match loginIssues library body with
  | [] => .ok { email := trimText body.email, password := body.password }
  | issues => .error issues

/-- A row of `users`; dates are milliseconds. -/
structure User where
  id : String
  name : String
  email : String
  passwordHash : String
  createdAt : Nat
  deriving DecidableEq, Repr

/-- What the processes of the API share. -/
structure AuthWorld where
  now : Nat
  users : List User
  deriving DecidableEq, Repr

namespace AuthWorld

/-- `prisma.user.findUnique({ where: { email } })`. -/
def findByEmail (world : AuthWorld) (email : String) : Option User :=
  world.users.find? fun user => user.email = email

/-- `prisma.user.findUnique({ where: { id } })`. -/
def findById (world : AuthWorld) (id : String) : Option User :=
  world.users.find? fun user => user.id = id

/-- The clock of `jsonwebtoken`. -/
def seconds (world : AuthWorld) : Nat :=
  world.now / 1000

/-- `prisma.user.create`: both the id and the email are unique. -/
def createUser (world : AuthWorld) (user : User) :
    Except AppError AuthWorld :=
  if world.users.any fun other => other.id = user.id then
    .error ⟨"Unique constraint failed on the fields: (`id`)", 500, "P2002",
      none⟩
  else if world.users.any fun other => other.email = user.email then
    .error ⟨"Unique constraint failed on the fields: (`email`)", 500, "P2002",
      none⟩
  else .ok { world with users := world.users ++ [user] }

end AuthWorld

/-! ## Handlers -/

inductive AuthRequest where
  | register (body : RegisterBody)
  | login (body : LoginBody)
  /-- A request for the own account, with its `Authorization` header. -/
  | me (header : Option String)
  deriving DecidableEq, Repr

inductive AuthReply where
  | registered (id name email : String)
  | loggedIn (token id name email : String)
  | account (id name email : String) (createdAt : Nat)
  deriving DecidableEq, Repr

/-- The next call of a handler. -/
inductive AuthPc where
  | findExisting (input : RegisterBody)
  | hashPassword (input : RegisterBody)
  | create (input : RegisterBody) (passwordHash : String)
  | findUser (input : LoginBody)
  | comparePassword (input : LoginBody) (user : User)
  | findMe (userId : String)
  | returned (reply : AuthReply)
  | rejected (details : List FieldIssue)
  | threw (error : AppError)
  | crashed
  deriving DecidableEq, Repr

namespace AuthPc

/-- The request has been answered, or never will be. -/
def ended : AuthPc → Bool
  | returned _ => true
  | rejected _ => true
  | threw _ => true
  | crashed => true
  | _ => false

end AuthPc

def emailTaken : AppError :=
  conflictError "An account with that email already exists"

/-- The answer to an unknown email and to a wrong password. -/
def badCredentials : AppError :=
  unauthorizedError "Invalid email or password"

def signToken (library : AuthLibrary) (world : AuthWorld)
    (payload : JwtPayload) : String :=
  library.sign payload world.seconds

def verifyToken (library : AuthLibrary) (world : AuthWorld) (token : String) :
    Except AppError JwtPayload :=
  match library.verify token world.seconds with
  | none => .error (unauthorizedError "Invalid or expired token")
  | some payload => .ok payload

/-- The token of an `Authorization` header. -/
def bearerToken (header : Option String) : Option String :=
  match header with
  | none => none
  | some text =>
      if "Bearer ".toList.isPrefixOf text.toList then
        let token := String.ofList (trim (text.toList.drop 7))
        if token = "" then none else some token
      else none

def requireAuth (library : AuthLibrary) (world : AuthWorld)
    (header : Option String) : Except AppError String :=
  match bearerToken header with
  | none => .error (unauthorizedError "Missing bearer token")
  | some token => (verifyToken library world token).map JwtPayload.sub

def AuthRequest.begin (library : AuthLibrary) (world : AuthWorld) :
    AuthRequest → AuthPc
  | .register body =>
      match registerSchema library body with
      | .error details => .rejected details
      | .ok input => .findExisting input
  | .login body =>
      match loginSchema library body with
      | .error details => .rejected details
      | .ok input => .findUser input
  | .me header =>
      match requireAuth library world header with
      | .error error => .threw error
      | .ok userId => .findMe userId

structure Draws where
  id : String
  salt : Nat
  deriving DecidableEq, Repr

/-- The row `registerUser` creates. -/
def newUser (world : AuthWorld) (draws : Draws) (input : RegisterBody)
    (passwordHash : String) : User where
  id := draws.id
  name := trimText input.name
  email := normaliseEmail input.email
  passwordHash := passwordHash
  createdAt := world.now

/-- One call of a handler: its effect, and the call that follows. -/
def authStep (library : AuthLibrary) (draws : Draws) (world : AuthWorld) :
    AuthPc → AuthWorld × AuthPc
  | .findExisting input =>
      (world,
        match world.findByEmail (normaliseEmail input.email) with
        | some _ => .threw emailTaken
        | none => .hashPassword input)
  | .hashPassword input =>
      (world, .create input (library.hash input.password draws.salt))
  | .create input passwordHash =>
      let user := newUser world draws input passwordHash
      match world.createUser user with
      | .error error => (world, .threw error)
      | .ok next => (next, .returned (.registered user.id user.name user.email))
  | .findUser input =>
      (world,
        match world.findByEmail (normaliseEmail input.email) with
        | none => .threw badCredentials
        | some user => .comparePassword input user)
  | .comparePassword input user =>
      (world,
        if library.compare input.password user.passwordHash then
          .returned
            (.loggedIn
              (signToken library world { sub := user.id, email := user.email })
              user.id user.name user.email)
        else .threw badCredentials)
  | .findMe userId =>
      (world,
        match world.findById userId with
        | none => .threw (unauthorizedError "Account no longer exists")
        | some user =>
            .returned (.account user.id user.name user.email user.createdAt))
  | .returned reply => (world, .returned reply)
  | .rejected details => (world, .rejected details)
  | .threw error => (world, .threw error)
  | .crashed => (world, .crashed)

/-- One call of a handler under a fault: what is thrown goes to the error
handler. -/
def authCall (library : AuthLibrary) (draws : Draws) (world : AuthWorld)
    (pc : AuthPc) : Fault → AuthWorld × AuthPc
  | .refused message => (world, .threw (callError message))
  | .lost message =>
      ((authStep library draws world pc).1, .threw (callError message))
  | _ => authStep library draws world pc

inductive AuthProc where
  | idle
  | serving (request : AuthRequest) (pc : AuthPc)
  deriving DecidableEq, Repr

inductive AuthAction where
  | request (request : AuthRequest)
  | call (fault : Fault) (draws : Draws)
  | crash
  deriving DecidableEq, Repr

/-- What one process does next. -/
def authAct (library : AuthLibrary) (world : AuthWorld) :
    AuthProc → AuthAction → Option (AuthWorld × AuthProc)
  | .idle, .request request =>
      some (world, .serving request (request.begin library world))
  | .serving request pc, .call fault draws =>
      if pc.ended then none
      else
        match authCall library draws world pc fault with
        | (after, next) => some (after, .serving request next)
  | .serving request pc, .crash =>
      if pc.ended then none else some (world, .serving request .crashed)
  | _, _ => none

/-- The users and their requests; from outside, time goes on. -/
def authNetwork (library : AuthLibrary) :
    Network AuthWorld AuthProc AuthAction Nat where
  act _ := authAct library
  env world milliseconds :=
    some { world with now := world.now + milliseconds }

def authMachine (library : AuthLibrary) :
    Machine (Config AuthWorld AuthProc) (Event AuthAction Nat) :=
  (authNetwork library).machine

/-- Nobody has registered yet. -/
structure NoUsers (config : Config AuthWorld AuthProc) : Prop where
  users : config.shared.users = []
  idle : ∀ index, config.procs index = .idle

/-- Each number as that many dots and a stroke. -/
def tally : List Nat → List Char
  | [] => []
  | number :: rest => List.replicate number '.' ++ '|' :: tally rest

/-- The numbers of a tally, the first of them counted from `count`. -/
def untally (count : Nat) : List Char → List Nat
  | [] => []
  | char :: rest =>
      if char = '.' then untally (count + 1) rest
      else count :: untally 0 rest

theorem untally_replicate (count number : Nat) (rest : List Char) :
    untally count (List.replicate number '.' ++ '|' :: rest) =
      (count + number) :: untally 0 rest := by
  induction number generalizing count with
  | zero => rfl
  | succ number inductionHypothesis =>
      rw [List.replicate_succ, List.cons_append, untally, if_pos rfl,
        inductionHypothesis]
      congr 1
      omega

theorem untally_tally (numbers : List Nat) :
    untally 0 (tally numbers) = numbers := by
  induction numbers with
  | nil => rfl
  | cons number rest inductionHypothesis =>
      rw [tally, untally_replicate, inductionHypothesis, Nat.zero_add]

/-- Twelve hours, in seconds. -/
def tokenLifetime : Nat := 43200

/-- Salted passwords, and tokens that are tallies of their claims. -/
def smallLibrary : AuthLibrary where
  isEmail text := text.toList.contains '@'
  tooLong limit :=
    "String must contain at most " ++ toString limit ++ " character(s)"
  hash password salt :=
    String.ofList (List.replicate salt '.' ++ '$' :: password.toList)
  compare password passwordHash :=
    decide (passwordHash.toList.dropWhile (· = '.') = '$' :: password.toList)
  sign payload issuedAt :=
    String.ofList
      (tally (issuedAt :: payload.sub.toList.length ::
        (payload.sub.toList ++ payload.email.toList).map Char.toNat))
  verify token now :=
    match untally 0 token.toList with
    | issuedAt :: size :: codes =>
        if now < issuedAt + tokenLifetime then
          let chars := codes.map Char.ofNat
          some
            { sub := String.ofList (chars.take size)
              email := String.ofList (chars.drop size) }
        else none
    | _ => none

def noAccounts : Config AuthWorld AuthProc := ⟨⟨0, []⟩, fun _ => .idle⟩

theorem noUsers_noAccounts : NoUsers noAccounts :=
  ⟨rfl, fun _ => rfl⟩

def authCalls (index count : Nat) (draws : Draws) :
    List (Event AuthAction Nat) :=
  List.replicate count (.act index (.call .none draws))

def smallRegistration : RegisterBody where
  name := " Ann "
  email := "Ann@b.co"
  password := "Correct0horse"

/-- The same address in another spelling. -/
def otherRegistration : RegisterBody where
  name := "Annie"
  email := "ANN@b.co "
  password := "Another1horse"

def smallLogin : LoginBody where
  email := " ann@B.co"
  password := "Correct0horse"

/-- Two registrations of one address both find it free. -/
def racing : List (Event AuthAction Nat) :=
  .act 0 (.request (.register smallRegistration)) ::
    .act 1 (.request (.register otherRegistration)) ::
    authCalls 0 2 ⟨"u", 3⟩ ++ authCalls 1 2 ⟨"v", 5⟩ ++
    authCalls 0 1 ⟨"u", 0⟩ ++ authCalls 1 1 ⟨"v", 0⟩

end ExportVault
