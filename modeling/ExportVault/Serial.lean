import ExportVault.Exports
import ExportVault.Isolation

/-!
# Requests served one at a time

`Vault.serve` makes the calls of a request with nobody in between.  Requests
served that way, of any users, are a history of the installation
(`requests_refine`): every command is the work of a process of its own, the
vault holds throughout what the installation holds, and the response to a
command tells what its process returned.
-/

namespace ExportVault

open Interleaving

structure Vault.Holds (vault : Vault) (installation : Installation) : Prop where
  sees : ∀ exportJobId,
    vault.world installation.now exportJobId = installation.view exportJobId
  listed : vault.exports.map Export.id = installation.ids
  dated : ∀ row ∈ vault.exports, ∀ verification ∈ row.verifications,
    verification.createdAt ≤ installation.now

variable {server : Server} {env : Env} {vault : Vault} {call : Call}
variable {installation : Installation} {userId exportJobId other : String}
variable {after first second world : World} {pc : ApiPc} {row : Export}

namespace Vault

/-- The vault does not notice that time passes. -/
theorem Holds.later (holds : vault.Holds installation) (milliseconds : Nat) :
    vault.Holds (installation.change (.tick milliseconds)) where
  sees id := by
    have before := holds.sees id
    simp only [Vault.world, Installation.view, World.mk.injEq] at before
    simp only [Vault.world, Installation.view, Installation.change,
      World.mk.injEq]
    exact ⟨trivial, before.2⟩
  listed := holds.listed
  dated row member verification inside :=
    le_trans (holds.dated row member verification inside)
      (by simp [Installation.change])

/-- A command writes the row of its export only. -/
theorem mem_absorbRows_of_ne (different : row.id ≠ canonical exportJobId) :
    row ∈ vault.absorbRows call exportJobId after ↔ row ∈ vault.exports := by
  rw [absorbRows]
  split
  · rw [List.mem_map]
    constructor
    · rintro ⟨before, member, rfl⟩
      split at different
      · next here => exact absurd here different
      · next elsewhere => rwa [if_neg elsewhere]
    · intro member
      exact ⟨row, member, if_neg different⟩
  · split
    · rfl
    · rw [List.mem_append, List.mem_singleton, or_iff_left]
      rintro rfl
      exact different rfl

theorem find_absorb_of_ne
    (different : canonical other ≠ canonical exportJobId) :
    (vault.absorb call exportJobId after).find other = vault.find other := by
  ext row
  rw [find_eq_some_iff, find_eq_some_iff]
  refine and_congr_left fun here => mem_absorbRows_of_ne ?_
  rwa [here]

/-- Another spelling of an id names the same row and another entry. -/
theorem world_setEntry (now : Int)
    (same : canonical other = canonical exportJobId) :
    vault.world now other =
      (vault.world now exportJobId).setEntry (vault.queue other) := by
  simp only [Vault.world, World.setEntry, find, same]

/-- A vault that holds what the installation holds does so after a command on
both. -/
theorem Holds.absorb (holds : vault.Holds installation)
    (clock : call.now = installation.now)
    (stays : Stays (installation.view exportJobId) after)
    (verified : vault.find exportJobId = none → after.verifications = [])
    (commanded : Commanded (vault.world call.now exportJobId) after) :
    (vault.absorb call exportJobId after).Holds
      (installation.absorb exportJobId after) where
  sees id := by
    have here : (vault.absorb call exportJobId after).world installation.now
        exportJobId =
          (installation.absorb exportJobId after).view exportJobId := by
      rw [view_absorb_self stays, ← clock]
      refine world_absorb (fun row found verification inside => ?_) verified
        commanded
      rw [clock]
      exact holds.dated row (find_eq_some_iff.mp found).1 verification inside
    by_cases same : id = exportJobId
    · subst same
      exact here
    have queueSame : (vault.absorb call exportJobId after).queue id =
        vault.queue id := absorb_queue_of_ne same
    have before := holds.sees id
    by_cases spelled : canonical id = canonical exportJobId
    · show (vault.absorb call exportJobId after).world installation.now id = _
      have queue : vault.queue id = installation.queue id :=
        congrArg World.entry before
      rw [world_setEntry _ spelled, here, ← view_setEntry spelled.symm,
        queueSame, queue_absorb_of_ne same, queue]
    · have foundSame : (vault.absorb call exportJobId after).find id =
          vault.find id := find_absorb_of_ne spelled
      simp only [Vault.world, Installation.view, World.mk.injEq] at before
      simp only [Vault.world, Installation.view, World.mk.injEq, foundSame,
        queueSame, rows_absorb_of_ne spelled, queue_absorb_of_ne same]
      obtain ⟨now, records, job, checkpoints, failures, verifications, _,
        entry⟩ := before
      exact ⟨now, records, job, checkpoints, failures, verifications, rfl,
        entry⟩
  listed := by
    have seen := congrArg World.job (holds.sees exportJobId)
    simp only [Vault.world, Installation.view] at seen
    simp only [Vault.absorb, absorbRows, Installation.absorb, ← seen,
      ← holds.listed]
    cases found : vault.find exportJobId with
    | some present =>
        have sameIds : (Export.id ∘ fun row =>
            if row.id = canonical exportJobId then absorbRow call after row
            else row) = Export.id := by
          funext row
          by_cases here : row.id = canonical exportJobId
          · simp [here]
          · simp [here]
        simp [List.map_map, sameIds]
    | none =>
        cases job : after.job with
        | none => simp
        | some created => simp
  dated row member := by
    have sofar : ∀ earlier ∈ vault.exports,
        ∀ verification ∈ earlier.verifications,
          verification.createdAt ≤ installation.now := holds.dated
    change row ∈ vault.absorbRows call exportJobId after at member
    by_cases here : row.id = canonical exportJobId
    · rw [absorbRows] at member
      split at member
      · obtain ⟨earlier, inside, rfl⟩ := List.mem_map.mp member
        split
        · intro verification written
          rcases List.mem_append.mp written with old | new
          · exact sofar earlier inside verification old
          · obtain ⟨_, _, rfl⟩ := List.mem_map.mp new
            exact clock.le
        · exact sofar earlier inside
      · split at member
        · exact sofar row member
        · rcases List.mem_append.mp member with inside | last
          · exact sofar row inside
          · rw [List.mem_singleton.mp last]
            exact fun _ written => absurd written List.not_mem_nil
    · exact sofar row ((mem_absorbRows_of_ne here).mp member)

end Vault

theorem Stays.trans (earlier : Stays world first)
    (later : Stays first second) : Stays world second where
  now := later.now.trans earlier.now
  records := later.records.trans earlier.records
  job := later.job ∘ earlier.job

namespace Installation

/-- What nobody changed is written back as it is. -/
theorem absorb_view :
    installation.absorb exportJobId (installation.view exportJobId) =
      installation := by
  have rows : Function.update installation.rows (canonical exportJobId)
      (installation.view exportJobId).exportRows = installation.rows :=
    Function.update_eq_self ..
  have queue : Function.update installation.queue exportJobId
      (installation.view exportJobId).entry = installation.queue :=
    Function.update_eq_self ..
  cases job : (installation.rows (canonical exportJobId)).job with
  | none => simp only [absorb, job, rows, queue]; simp [view, job]
  | some row => simp only [absorb, job, rows, queue]; simp [view]

/-- Only the last of two writes counts. -/
theorem absorb_absorb
    (before : (installation.rows (canonical exportJobId)).job ≠ none →
      first.job ≠ none)
    (keeps : first.job ≠ none → second.job ≠ none) :
    (installation.absorb exportJobId first).absorb exportJobId second =
      installation.absorb exportJobId second := by
  have rows : Function.update (Function.update installation.rows
      (canonical exportJobId) first.exportRows) (canonical exportJobId)
        second.exportRows =
      Function.update installation.rows (canonical exportJobId)
        second.exportRows :=
    Function.update_idem ..
  have queue : Function.update (Function.update installation.queue
      exportJobId first.entry) exportJobId second.entry =
      Function.update installation.queue exportJobId second.entry :=
    Function.update_idem ..
  simp only [absorb, Function.update_self, rows, queue]
  cases job : (installation.rows (canonical exportJobId)).job with
  | some row =>
      obtain ⟨middle, there⟩ := Option.ne_none_iff_exists'.mp
        (before (by simp [job]))
      simp [World.exportRows, there]
  | none =>
      cases middle : first.job with
      | none => simp [World.exportRows, middle]
      | some row =>
          obtain ⟨last, there⟩ := Option.ne_none_iff_exists'.mp
            (keeps (by simp [middle]))
          simp [World.exportRows, middle, there]

/-- What a process of one export does alone with its calls, it does in the
installation. -/
theorem solo_calls {index : Nat} {proc next : Proc} {faults : List Fault}
    (stays : Stays (installation.view exportJobId) world)
    (soloEq : (ExportVault.network (env.forExport exportJobId)).solo index
      world proc (faults.map .call) = some (after, next)) :
    (network env).solo index (installation.absorb exportJobId world)
        (.of exportJobId proc) (faults.map fun fault => .go (.call fault)) =
      some (installation.absorb exportJobId after, .of exportJobId next) := by
  induction faults generalizing world proc with
  | nil =>
      obtain ⟨rfl, rfl⟩ := Prod.mk.inj (Option.some.inj soloEq)
      rfl
  | cons fault rest inductionHypothesis =>
      simp only [List.map_cons, Network.solo, Option.bind_eq_some_iff,
        Prod.exists] at soloEq
      obtain ⟨middle, following, actEq, restEq⟩ := soloEq
      have acts : ExportVault.act (env.forExport exportJobId) index world proc
          (.call fault) = some (middle, following) := actEq
      have step : Stays world middle := stays_actStep (actStep_of_act acts)
      have moves : (installation.absorb exportJobId world).act env index
          (.of exportJobId proc) (.go (.call fault)) =
          some (installation.absorb exportJobId middle,
            .of exportJobId following) := by
        cases proc with
        | idle => cases acts
        | _ =>
            simp only [Activity.of, act, actOn, view_absorb_self stays, acts,
              Option.map_some, absorb_absorb stays.job step.job]
      simp only [List.map_cons, Network.solo, network, moves, Option.bind_some]
      exact inductionHypothesis (stays.trans step) restEq

end Installation

/-- A command that meets nobody, as calls of its process. -/
theorem solo_runCommand (env : Env) (index calls : Nat) (world : World)
    (pc : ApiPc) :
    ∃ count, (network env).solo index world (.api pc)
        (List.replicate count (.call .none)) =
      some ((runCommand env calls world pc).1,
        .api (runCommand env calls world pc).2) := by
  induction calls generalizing world pc with
  | zero => exact ⟨0, rfl⟩
  | succ calls inductionHypothesis =>
      rw [runCommand]
      cases live : pc.ended with
      | true => exact ⟨0, rfl⟩
      | false =>
          obtain ⟨count, rest⟩ := inductionHypothesis (apiStep env world pc).1
            (apiStep env world pc).2
          refine ⟨count + 1, ?_⟩
          rw [List.replicate_succ, solo_api, live,
            if_neg Bool.false_ne_true]
          exact rest

/-- The command a request runs once its route has accepted it: the status code
of its answer, the export and the request. -/
def Call.command (userId : String) (call : Call) :
    Option (Nat × String × Request) :=
  let withId := fun (exportJobId : String) (request : Request) =>
    if isUuid exportJobId then some (200, exportJobId, request) else none
  match call.operation with
  | .create rowLimit =>
      let rowLimit := rowLimit.getD maxRowLimit
      if rowLimit ≤ 0 ∨ maxRowLimit < rowLimit then none
      else some (201, call.newId, .create userId rowLimit)
  | .resume exportJobId => withId exportJobId (.resume userId)
  | .cancel exportJobId => withId exportJobId (.cancel userId)
  | .download exportJobId => withId exportJobId (.download userId)
  | .verify exportJobId => withId exportJobId (.verify userId)
  | .list | .stats | .detail _ => none

def commandResponse (server : Server) (vault : Vault) (call : Call)
    (statusCode : Nat) (exportJobId : String) :
    Except AppError ApiReply → Response
  | .error error => errorHandler server call error
  | .ok reply => replyResponse server vault call statusCode exportJobId reply

/-- The id that is generated for a new row is a UUID in lower case. -/
def Call.Generates (call : Call) : Prop :=
  isUuid call.newId = true ∧ canonical call.newId = call.newId

/-- Requests of any users, each with its user, with the responses. -/
def Vault.serveEach (server : Server) :
    Vault → List (String × Call) → Vault × List Response
  | vault, [] => (vault, [])
  | vault, (userId, call) :: rest =>
      let served := vault.serve server userId call
      let results := Vault.serveEach server served.1 rest
      (results.1, served.2 :: results.2)

/-- The response is that of the process that ran the command, if the request
ran one. -/
def Vault.Answered (server : Server) (vault : Vault) (userId : String)
    (call : Call) (activity : Activity) (response : Response) : Prop :=
  ∀ statusCode exportJobId request,
    call.command userId = some (statusCode, exportJobId, request) →
      ∃ pc : ApiPc, activity = .on exportJobId (.api pc) ∧ pc.ended = true ∧
        response =
          commandResponse server vault call statusCode exportJobId pc.outcome

theorem serve_command {statusCode : Nat} {request : Request}
    (runs : call.command userId = some (statusCode, exportJobId, request)) :
    vault.serve server userId call =
      vault.serveCommand server call statusCode exportJobId request := by
  cases operation : call.operation with
  | create rowLimit =>
      simp only [Call.command, operation, Option.ite_none_left_eq_some,
        Option.some.injEq, Prod.mk.injEq] at runs
      obtain ⟨accepted, rfl, rfl, rfl⟩ := runs
      simp only [Vault.serve, operation, if_neg accepted]
  | list | stats | detail =>
      simp only [Call.command, operation] at runs
      cases runs
  | resume other | cancel other | download other | verify other =>
      simp only [Call.command, operation, Option.ite_none_right_eq_some,
        Option.some.injEq, Prod.mk.injEq] at runs
      obtain ⟨uuid, rfl, rfl, rfl⟩ := runs
      simp only [Vault.serve, operation, if_pos uuid]

/-- A request that runs no command changes nothing. -/
theorem serve_quiet (quiet : call.command userId = none) :
    (vault.serve server userId call).1 = vault := by
  cases operation : call.operation with
  | create rowLimit =>
      simp only [Call.command, operation, ite_eq_left_iff, reduceCtorEq,
        imp_false, not_not] at quiet
      simp only [Vault.serve, operation, if_pos quiet]
  | list | stats => simp only [Vault.serve, operation]
  | detail other =>
      simp only [Vault.serve, operation]
      split <;> rfl
  | resume other | cancel other | download other | verify other =>
      simp only [Call.command, operation, ite_eq_right_iff, reduceCtorEq,
        imp_false] at quiet
      simp only [Vault.serve, operation, if_neg quiet]

/-- A process may turn to the command a route has accepted. -/
theorem accepts_command (generates : call.Generates) {statusCode : Nat}
    {request : Request}
    (runs : call.command userId = some (statusCode, exportJobId, request)) :
    (Action.request request).accepts exportJobId = true := by
  cases operation : call.operation with
  | create rowLimit =>
      simp only [Call.command, operation, Option.ite_none_left_eq_some,
        Option.some.injEq, Prod.mk.injEq] at runs
      obtain ⟨_, rfl, rfl, rfl⟩ := runs
      simp only [Action.accepts, generates.1, generates.2, decide_true,
        Bool.and_self]
  | list | stats | detail =>
      simp only [Call.command, operation] at runs
      cases runs
  | resume other | cancel other | download other | verify other =>
      simp only [Call.command, operation, Option.ite_none_right_eq_some,
        Option.some.injEq, Prod.mk.injEq] at runs
      obtain ⟨uuid, rfl, rfl, rfl⟩ := runs
      exact uuid

/-! ## Histories -/

variable {source : Config Installation Activity}

/-- A command, as a process that meets nobody runs it. -/
theorem serveCommand_solo (server : Server) (index : Nat) (statusCode : Nat)
    (request : Request) (holds : vault.Holds installation)
    (clock : call.now = installation.now)
    (accepted : (Action.request request).accepts exportJobId = true) :
    let served :=
      vault.serveCommand server call statusCode exportJobId request
    let result := runCommand (server.env.forExport exportJobId)
      request.begin.callsLeft (installation.view exportJobId) request.begin
    ∃ moves,
      (Installation.network server.env).solo index installation .idle moves =
        some (installation.absorb exportJobId result.1,
          .on exportJobId (.api result.2)) ∧
      (canonical exportJobId = exportJobId → ∀ config, ∀ move ∈ moves,
        NamesExports config (.act index move)) ∧
      served.1.Holds (installation.absorb exportJobId result.1) ∧
      result.2.ended = true ∧
      served.2 = commandResponse server served.1 call statusCode exportJobId
        result.2.outcome := by
  intro served result
  let env := server.env.forExport exportJobId
  let seen := installation.view exportJobId
  have sees : vault.world call.now exportJobId = seen := by
    rw [clock]
    exact holds.sees exportJobId
  obtain ⟨count, soloEq⟩ := solo_runCommand env index request.begin.callsLeft
    seen request.begin
  have commanded : Commanded seen result.1 := commanded_runCommand _ _ _ _
  have kept : ∀ {world : World} (pc : ApiPc), Stays seen world →
      Stays seen (apiStep env world pc).1 :=
    fun pc before => before.trans (stays_apiStep pc)
  have stays : Stays seen result.1 :=
    runCommand_keeps (Stays seen) kept request.begin.callsLeft
      request.begin (.refl _)
  have begins : installation.act server.env index .idle
      (.take exportJobId (.request request)) =
      some (installation, .on exportJobId (.api request.begin)) := by
    simp only [Installation.act, if_pos accepted, Installation.actOn,
      ExportVault.act, Option.map_some, Activity.of, Installation.absorb_view]
  have answers : vault.command server call exportJobId request =
      (vault.absorb call exportJobId result.1, result.2.outcome) := by
    simp only [Vault.command, sees]
    rfl
  have verified : vault.find exportJobId = none →
      result.1.verifications = [] := by
    intro absent
    have before := sees
    simp only [Vault.world, absent] at before
    have noJob : seen.job = none := before ▸ rfl
    refine (runCommand_absent noJob request _).trans ?_
    rw [← before]
    rfl
  refine ⟨.take exportJobId (.request request) ::
    List.replicate count (.go (.call .none)), ?_, ?_, ?_, ?_, ?_⟩
  · rw [← List.map_replicate] at soloEq
    have moves := Installation.solo_calls (Stays.refl seen) soloEq
    rw [Installation.absorb_view, List.map_replicate] at moves
    simp only [Network.solo, Installation.network, begins, Option.bind_some]
    exact moves
  · intro named config move member
    rcases List.mem_cons.mp member with rfl | member
    · exact ⟨uuid_of_accepts accepted, named⟩
    · rw [List.eq_of_mem_replicate member]
      trivial
  · show (vault.command server call exportJobId request).1.Holds _
    rw [answers]
    exact holds.absorb clock stays verified (sees ▸ commanded)
  · exact runCommand_ends env le_rfl
  · simp only [served, Vault.serveCommand, answers]
    rfl

/-- One request, as the process with the given index serves it. -/
theorem serve_refines (server : Server) (userId : String) (first : Nat)
    (holds : vault.Holds source.shared)
    (idle : source.procs first = .idle) (generates : call.Generates)
    (later : source.shared.now ≤ call.now) :
    let served := vault.serve server userId call
    ∃ events shared activity,
      (installationMachine server.env).Exec AnyMove source events
        ⟨shared, Function.update source.procs first activity⟩ ∧
      served.1.Holds shared ∧ shared.now = call.now ∧
      served.1.Answered server userId call activity served.2 := by
  intro served
  let wait := (call.now - source.shared.now).toNat
  let waited := source.shared.change (.tick wait)
  have clock : call.now = waited.now := by
    simp only [waited, wait, Installation.change]
    omega
  have waits : (installationMachine server.env).Exec AnyMove source
      [.env (.tick wait)] ⟨waited, source.procs⟩ :=
    ⟨trivial, _, rfl, rfl⟩
  have holdsThen : vault.Holds waited := holds.later wait
  cases runs : call.command userId with
  | none =>
      have same : served.1 = vault := serve_quiet runs
      refine ⟨[.env (.tick wait)], waited, .idle, ?_, same ▸ holdsThen,
        clock.symm, fun _ _ _ command => ?_⟩
      · rwa [← idle, Function.update_eq_self]
      · rw [runs] at command
        cases command
  | some command =>
      obtain ⟨statusCode, exportJobId, request⟩ := command
      have accepted := accepts_command generates runs
      have isCommand : served =
          vault.serveCommand server call statusCode exportJobId request :=
        serve_command runs
      obtain ⟨moves, soloEq, _, holdsAfter, ended, response⟩ :=
        serveCommand_solo server first statusCode request holdsThen clock
          accepted
      rw [← idle] at soloEq
      have works : (installationMachine server.env).Exec AnyMove
          ⟨waited, source.procs⟩ (moves.map (.act first)) _ :=
        Network.exec_solo (fun _ _ _ => trivial) soloEq
      refine ⟨_, _, _, Machine.exec_append.mpr ⟨_, waits, works⟩,
        isCommand ▸ holdsAfter, clock.symm, ?_⟩
      intro code id other command
      obtain ⟨rfl, rfl, rfl⟩ : statusCode = code ∧ exportJobId = id ∧
          request = other := by simpa [runs] using command
      exact ⟨_, rfl, ended, isCommand ▸ response⟩

/-- Requests of any users, served one after the other, are a history of the
installation: each command is run by a process of its own, the vault holds in
the end what the installation holds, and every response is that of its
process. -/
theorem requests_refine (server : Server) (first : Nat)
    {calls : List (String × Call)}
    (holds : vault.Holds source.shared)
    (idle : ∀ index, first ≤ index → source.procs index = .idle)
    (generate : ∀ entry ∈ calls, entry.2.Generates)
    (ordered : (source.shared.now ::
      calls.map fun entry => entry.2.now).Pairwise (· ≤ ·)) :
    ∃ events target,
      (installationMachine server.env).Exec AnyMove source events
        target ∧
      (vault.serveEach server calls).1.Holds target.shared ∧
      (∀ index, index < first → target.procs index = source.procs index) ∧
      ∀ position userId call, calls[position]? = some (userId, call) →
        ∃ response, (vault.serveEach server calls).2[position]? =
            some response ∧
          (vault.serveEach server (calls.take (position + 1))).1.Answered
            server userId call (target.procs (first + position))
            response := by
  -- the vault, the process and the state are those of the requests ahead
  induction calls generalizing vault source first with
  | nil =>
      exact ⟨[], source, rfl, holds, fun _ _ => rfl,
        fun _ _ _ absent => absurd absent (by simp)⟩
  | cons entry rest inductionHypothesis =>
      obtain ⟨userId, call⟩ := entry
      rw [List.map_cons, List.pairwise_cons] at ordered
      obtain ⟨later, ordered⟩ := ordered
      obtain ⟨events, shared, activity, works, holdsThen, now, answered⟩ :=
        serve_refines server userId first holds (idle first le_rfl)
          (generate _ List.mem_cons_self) (later _ List.mem_cons_self)
      let middle : Config Installation Activity :=
        ⟨shared, Function.update source.procs first activity⟩
      have stillIdle : ∀ index, first + 1 ≤ index →
          middle.procs index = .idle := by
        intro index above
        rw [show middle.procs index = source.procs index from
          Function.update_of_ne (by omega) ..]
        exact idle index (by omega)
      have holdsMiddle : (vault.serve server userId call).1.Holds
          middle.shared := holdsThen
      obtain ⟨more, target, runs, holdsAfter, same, responses⟩ :=
        inductionHypothesis (first + 1) holdsMiddle stillIdle
          (fun entry member => generate entry (List.mem_cons_of_mem _ member))
          (by rwa [show middle.shared.now = call.now from now])
      refine ⟨events ++ more, target,
        Machine.exec_append.mpr ⟨middle, works, runs⟩, holdsAfter, ?_, ?_⟩
      · intro index below
        rw [same index (by omega)]
        exact Function.update_of_ne (by omega) ..
      · intro position user other there
        cases position with
        | zero =>
            obtain ⟨rfl, rfl⟩ : userId = user ∧ call = other := by
              simpa using there
            refine ⟨_, rfl, ?_⟩
            have here : target.procs first = activity :=
              (same first (by omega)).trans (Function.update_self ..)
            rw [show first + 0 = first from rfl, here]
            exact answered
        | succ position =>
            obtain ⟨response, listed, tells⟩ := responses position user other
              (by simpa using there)
            refine ⟨response, listed, ?_⟩
            rw [show first + (position + 1) = first + 1 + position by omega]
            exact tells

/-- Nothing has been exported yet. -/
def emptyVault (records : RecordTable) : Vault where
  records := records
  exports := []
  distinct := List.nodup_nil
  queue _ := none
  store := ⟨[]⟩

theorem holds_emptyVault (records : RecordTable) :
    (emptyVault records).Holds (smallInstallation records).shared :=
  ⟨fun _ => rfl, rfl, fun _ member => absurd member List.not_mem_nil⟩

/-- Ada cancels under the id in upper case. -/
def cancelledByAda : List (String × Call) :=
  [("ada", ⟨.create (some 2), 3, "r1", adaId⟩),
    ("eve", ⟨.cancel adaId, 4, "r2", newId⟩),
    ("ada", ⟨.cancel (String.ofList (adaId.toList.map Char.toUpper)), 5,
      "r3", newId⟩)]

theorem requests_refine_cancelledByAda :
    ∃ events target,
      (installationMachine smallEnv).Exec AnyMove
        (smallInstallation twoRecords) events target ∧
      ((emptyVault twoRecords).serveEach smallServer cancelledByAda).1.Holds
        target.shared ∧
      ((emptyVault twoRecords).serveEach smallServer
        cancelledByAda).2.map Response.statusCode = [201, 404, 200] := by
  have generate : ∀ entry ∈ cancelledByAda, entry.2.Generates := by
    intro entry member
    simp only [cancelledByAda, List.mem_cons, List.not_mem_nil,
      or_false] at member
    rcases member with rfl | rfl | rfl <;>
      exact ⟨by decide, by decide⟩
  obtain ⟨events, target, history, holds, _, _⟩ :=
    requests_refine smallServer 0 (holds_emptyVault twoRecords)
      (fun _ _ => rfl) generate (by decide)
  exact ⟨events, target, history, holds, by decide +kernel⟩

end ExportVault
