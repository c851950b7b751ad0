import ExportVault.Serial

/-!
# The page of an export

What `client/src/pages/ExportDetailPage.tsx` offers to do with an export, read
off the response it has fetched, against what the API accepts: in every state
the installation can reach, the API does what the page offers, and what the
page does not offer it refuses (`offers_accepted`).
-/

namespace ExportVault

open Interleaving

/-- `response.ok`. -/
def Response.ok (response : Response) : Bool :=
  200 ≤ response.statusCode && response.statusCode < 300

/-- A property of a parsed payload; `none` is `undefined`. -/
def Json.get (name : String) : Json → Option Json
  | .obj fields => fields.lookup name
  | _ => none

def Json.text : Json → Option String
  | .str value => some value
  | _ => none

structure DetailPage where
  status : String
  canResume : Bool
  canCancel : Bool
  canDownload : Bool
  deriving DecidableEq, Repr

/-- `query.data` as the page reads it; a response that is not ok has the page
show an error. -/
def exportDetailPage (response : Response) : Option DetailPage :=
  if response.ok then
    let status := ((response.body.get "status").bind Json.text).getD ""
    let verification := (response.body.get "verification").bind fun value =>
      (value.get "status").bind Json.text
    some
      { status := status
        canResume := ["INTERRUPTED", "FAILED", "PENDING", "QUEUED",
          "RESUMING"].contains status
        canCancel := ["PENDING", "QUEUED", "RUNNING", "RESUMING",
          "INTERRUPTED"].contains status
        canDownload := status = "COMPLETED" && verification = some "PASSED" }
  else none

variable {server : Server} {env : Env} {vault : Vault} {world : World}
variable {job : ExportJob} {row : Export} {userId exportJobId : String}
variable {call view press : Call} {now : Int}

def Export.page (row : Export) : DetailPage where
  status := row.job.status.name
  canResume := resumableForUser.contains row.job.status
  canCancel := cancellable.contains row.job.status
  canDownload := row.job.status = .completed &&
    row.latestVerification.any fun stamped => stamped.row.passed

/-- The verdict the page reads off a verification. -/
theorem verdict_serializeVerification
    (latest : Option (Stamped ExportVerification)) :
    ((serializeVerification latest).get "status").bind Json.text =
      latest.map fun stamped =>
        if stamped.row.passed then "PASSED" else "FAILED" := by
  cases latest with
  | none => rfl
  | some stamped =>
      simp [serializeVerification, Json.optional, Json.get, List.lookup_cons,
        passedText, Json.text]

/-- The response to `GET /api/exports/:id` has the page show the row. -/
theorem exportDetailPage_detail (found : vault.find exportJobId = some row)
    (owner : row.job.userId = userId) :
    exportDetailPage (vault.detail server view userId exportJobId) =
      some row.page := by
  have status : ((vault.detail server view userId exportJobId).body.get
      "status").bind Json.text = some row.job.status.name := by
    simp [Vault.detail, found, owner, success, Json.get, Export.serialize,
      serializeExportJob, List.lookup_cons, Json.text]
  have verification : (vault.detail server view userId exportJobId).body.get
      "verification" = some (serializeVerification row.latestVerification) := by
    simp [Vault.detail, found, owner, success, Json.get, Export.serialize,
      serializeExportJob, List.lookup_cons]
  have ok : (vault.detail server view userId exportJobId).ok = true := by
    simp [Vault.detail, found, owner, success, Response.ok]
  rw [exportDetailPage, if_pos ok, status, verification, Option.bind_some,
    verdict_serializeVerification, Export.page]
  cases row.job.status <;> cases row.latestVerification with
  | none => rfl
  | some stamped =>
      cases passed : stamped.row.passed <;> simp [passed] <;> decide

/-! ## What the API accepts -/

theorem runCommand_live {calls : Nat} {pc : ApiPc} (live : pc.ended = false) :
    runCommand env (calls + 1) world pc =
      runCommand env calls (apiStep env world pc).1
        (apiStep env world pc).2 := by
  rw [runCommand, live, if_neg Bool.false_ne_true]

/-- The command has thrown an error that is answered with a client error. -/
def ApiPc.Refused (pc : ApiPc) : Prop :=
  ∃ error, pc = .threw error ∧ 400 ≤ error.statusCode

theorem refused_conflict (message : String)
    (details : Option ErrorDetails) :
    (ApiPc.threw (conflictError message details)).Refused :=
  ⟨_, rfl, by simp [conflictError]⟩

theorem refused_forbidden (message : String) :
    (ApiPc.threw (forbiddenError message)).Refused :=
  ⟨_, rfl, by simp [forbiddenError]⟩

/-- A command that is refused at a call is refused. -/
theorem refused_runCommand {calls : Nat} {pc : ApiPc}
    (live : pc.ended = false) (refused : (apiStep env world pc).2.Refused) :
    (runCommand env (calls + 1) world pc).2.Refused := by
  obtain ⟨error, threw, clientError⟩ := refused
  refine ⟨error, ?_, clientError⟩
  rw [runCommand_live live, threw, runCommand_ended rfl]

theorem refused_notFound : (ApiPc.threw exportNotFound).Refused :=
  ⟨_, rfl, by simp [exportNotFound, notFoundError]⟩

/-- `enqueueExportJob` comes to its end whatever the queue holds. -/
theorem enqueue_returns (updated : ExportJob) :
    (runCommand env 4 world (.getJob (.resume updated))).2 =
      .returned (.job updated) := by
  rw [runCommand_live rfl]
  cases entryEq : world.entry with
  | none =>
      simp only [apiStep, entryEq]
      rw [runCommand_live rfl]
      simp only [apiStep, entryEq]
      rw [ApiPc.afterEnqueue, runCommand_ended rfl]
  | some entry =>
      obtain ⟨state, attempts, stalls⟩ := entry
      simp only [apiStep, entryEq]
      rw [runCommand_live rfl]
      cases state with
      | active holder =>
          simp only [apiStep, entryEq]
          rw [ApiPc.afterEnqueue, runCommand_ended rfl]
      | _ =>
          simp only [apiStep, entryEq]
          rw [runCommand_live rfl]
          simp only [apiStep, entryEq]
          rw [runCommand_live rfl]
          simp only [apiStep, World.setEntry]
          rw [ApiPc.afterEnqueue, runCommand_ended rfl]

/-- The owner's resume of an export in a resumable status is accepted. -/
theorem resume_returns (found : world.job = some job)
    (listed : job.status ∈ resumableForUser) :
    ∃ reply, (runCommand env 7 world (.findForResume job.userId)).2 =
      .returned (.job reply) := by
  have notOver : job.status ≠ .completed ∧ job.status ≠ .cancelled := by
    constructor <;> intro ended <;> rw [ended] at listed <;>
      exact absurd listed (by decide)
  have looked : (apiStep env world (.findForResume job.userId)).2 =
      .countCheckpoints := by
    simp [apiStep, getOwnedExportJob, found, afterFindForResume, notOver,
      listed]
  let updated : ExportJob := { resumeChange job with updatedAt := world.now }
  have written : (apiStep env world .writeResuming).2 =
      .getJob (.resume updated) := by
    simp [apiStep, found, returnJob, updated]
  refine ⟨updated, ?_⟩
  rw [runCommand_live rfl, looked, runCommand_live rfl, runCommand_live rfl]
  show (runCommand env 4 _ (apiStep env world .writeResuming).2).2 = _
  rw [written]
  exact enqueue_returns updated

/-- Any other resume is refused. -/
theorem resume_refused (found : world.job = some job)
    (outside : job.status ∉ resumableForUser) :
    (runCommand env 7 world (.findForResume userId)).2.Refused := by
  refine refused_runCommand rfl
    (getOwnedExportJob_cases userId refused_notFound ?_)
  intro other same
  obtain rfl := Option.some.inj (found.symm.trans same)
  rw [afterFindForResume]
  cases status : job.status <;> first
    | exact refused_conflict _ _
    | exact absurd (status ▸ outside) (by decide)

/-- The owner's cancel of an export in a cancellable status is accepted, and
so is a second one. -/
theorem cancel_returns (found : world.job = some job)
    (listed : job.status ∈ cancellable ∨ job.status = .cancelled) :
    ∃ reply, (runCommand env 2 world (.findForCancel job.userId)).2 =
      .returned (.job reply) := by
  have looked : apiStep env world (.findForCancel job.userId) =
      (world, afterFindForCancel job) := by
    simp [apiStep, getOwnedExportJob, found]
  rw [runCommand_live rfl, looked]
  rcases listed with listed | cancelled
  · have next : afterFindForCancel job = .writeCancel job := by
      rw [afterFindForCancel]
      cases status : job.status <;> first
        | rfl
        | exact absurd (status ▸ listed) (by decide)
    refine ⟨{ cancelChange world.now job job with updatedAt := world.now }, ?_⟩
    rw [next, runCommand_live rfl]
    simp only [apiStep, returnJob, World.updateJob_job, found, Option.map_some]
    rw [runCommand_ended rfl]
  · refine ⟨job, ?_⟩
    rw [afterFindForCancel, cancelled, if_neg (by decide), if_pos rfl,
      runCommand_ended rfl]

theorem cancel_refused (found : world.job = some job)
    (outside : job.status ∉ cancellable)
    (notCancelled : job.status ≠ .cancelled) :
    (runCommand env 2 world (.findForCancel userId)).2.Refused := by
  refine refused_runCommand rfl
    (getOwnedExportJob_cases userId refused_notFound ?_)
  intro other same
  obtain rfl := Option.some.inj (found.symm.trans same)
  rw [afterFindForCancel]
  cases status : job.status <;> first
    | exact refused_conflict _ _
    | exact absurd status notCancelled
    | exact absurd (status ▸ outside) (by decide)

/-- The owner's download of a completed export with a file whose latest
verification has passed. -/
theorem download_returns {fileKey : String} {v : ExportVerification}
    (found : world.job = some job)
    (completed : job.status = .completed) (file : job.fileKey = some fileKey)
    (named : fileKey ≠ "") (latest : world.latestVerification = some v)
    (passed : v.passed = true) :
    (runCommand env 2 world (.findForDownload job.userId)).2 =
      .returned (.download
        (env.signedUrl fileKey ("export-" ++ env.exportJobId ++ ".csv"))
        ("export-" ++ env.exportJobId ++ ".csv") env.signedUrlTtl v.fileBytes
        v.sha256) := by
  have looked : apiStep env world (.findForDownload job.userId) =
      (world, .latestForDownload fileKey) := by
    simp [apiStep, getOwnedExportJob, found, afterFindForDownload, completed,
      file, named]
  rw [runCommand_live rfl, looked, runCommand_live rfl]
  simp [apiStep, afterLatestForDownload, latest, passed, runCommand]

theorem download_refused (found : world.job = some job)
    (unfit : job.status = .completed →
      world.latestVerification.any ExportVerification.passed = false) :
    (runCommand env 2 world (.findForDownload userId)).2.Refused := by
  rw [runCommand_live rfl]
  have threw : ∀ {error : AppError}, (ApiPc.threw error).Refused →
      (runCommand env 1 world (.threw error)).2.Refused := by
    intro error refused
    rwa [runCommand_ended rfl]
  refine getOwnedExportJob_cases
    (motive := fun next => (runCommand env 1 world next).2.Refused) userId
    (threw refused_notFound) ?_
  intro other same
  obtain rfl := Option.some.inj (found.symm.trans same)
  rw [afterFindForDownload]
  split
  · exact threw (refused_conflict _ _)
  · next completed =>
      have failing := unfit (not_not.mp completed)
      split
      · exact threw (refused_conflict _ _)
      · split
        · exact threw (refused_conflict _ _)
        · refine refused_runCommand rfl ?_
          simp only [apiStep, afterLatestForDownload]
          split
          · exact refused_forbidden _
          · next v latest =>
              rw [latest] at failing
              rw [if_pos (by simpa using failing)]
              exact refused_forbidden _

theorem ok_of_refused {request : Request}
    (refused : (runCommand { server.env with exportJobId := exportJobId }
      request.begin.callsLeft (vault.world call.now exportJobId)
      request.begin).2.Refused) :
    (vault.serveCommand server call 200 exportJobId request).2.ok = false := by
  obtain ⟨error, threw, clientError⟩ := refused
  simp only [Vault.serveCommand, Vault.command, threw, ApiPc.outcome,
    errorHandler, Response.ok, Bool.and_eq_false_iff, decide_eq_false_iff_not]
  omega

theorem ok_of_returned {request : Request} {reply : ApiReply}
    (returned : (runCommand { server.env with exportJobId := exportJobId }
      request.begin.callsLeft (vault.world call.now exportJobId)
      request.begin).2 = .returned reply) :
    (vault.serveCommand server call 200 exportJobId request).2.ok = true := by
  simp only [Vault.serveCommand, Vault.command, returned, ApiPc.outcome]
  cases reply with
  | job | download => simp [replyResponse, success, Response.ok]
  | verification job latest =>
      cases latest <;> simp [replyResponse, verifyReply, success, Response.ok]

/-- The latest verification of a row is the one a command reads. -/
theorem latestVerification_world (found : vault.find exportJobId = some row)
    (now : Int) :
    (vault.world now exportJobId).latestVerification =
      row.latestVerification.map Stamped.row := by
  simp [World.latestVerification, Vault.world, found,
    Export.latestVerification, List.getLast?_map]

theorem job_world (found : vault.find exportJobId = some row) (now : Int) :
    (vault.world now exportJobId).job = some row.job := by
  rw [Vault.world, found, Option.map_some]

theorem resume_ok (found : vault.find exportJobId = some row) :
    (vault.serveCommand server call 200 exportJobId
      (.resume row.job.userId)).2.ok = row.page.canResume := by
  have job := job_world found call.now
  by_cases listed : row.job.status ∈ resumableForUser
  · obtain ⟨_, returned⟩ := resume_returns job listed
    rw [ok_of_returned returned, Export.page, List.contains_iff_mem.mpr listed]
  · rw [ok_of_refused (resume_refused job listed), Export.page]
    simpa using listed

theorem cancel_ok (found : vault.find exportJobId = some row) :
    (vault.serveCommand server call 200 exportJobId
      (.cancel row.job.userId)).2.ok =
        (row.page.canCancel || row.page.status = "CANCELLED") := by
  have job := job_world found call.now
  have isCancelled : decide (row.page.status = "CANCELLED") =
      decide (row.job.status = .cancelled) := by
    apply decide_eq_decide.mpr
    cases status : row.job.status <;>
      simp [Export.page, status, ExportStatus.name]
  rw [isCancelled]
  by_cases listed : row.job.status ∈ cancellable ∨ row.job.status = .cancelled
  · obtain ⟨_, returned⟩ := cancel_returns job listed
    rw [ok_of_returned returned]
    simpa [Export.page] using listed
  · obtain ⟨outside, notCancelled⟩ := not_or.mp listed
    rw [ok_of_refused (cancel_refused job outside notCancelled)]
    simp [Export.page, outside, notCancelled]

theorem finalKey_ne_empty (exportJobId : String) :
    finalKey exportJobId ≠ "" := fun empty => by
  simpa [finalKey] using congrArg String.toList empty

theorem download_ok (found : vault.find exportJobId = some row)
    (filed : row.job.status = .completed →
      ∃ fileKey, row.job.fileKey = some fileKey ∧ fileKey ≠ "") :
    (vault.serveCommand server call 200 exportJobId
      (.download row.job.userId)).2.ok = row.page.canDownload := by
  have job := job_world found call.now
  have latest := latestVerification_world found call.now
  cases fit : row.page.canDownload with
  | true =>
      simp only [Export.page, Bool.and_eq_true, decide_eq_true_eq,
        Option.any_eq_true] at fit
      obtain ⟨completed, stamped, last, passed⟩ := fit
      obtain ⟨fileKey, file, nonempty⟩ := filed completed
      rw [last, Option.map_some] at latest
      exact ok_of_returned (download_returns job completed file nonempty
        latest passed)
  | false =>
      refine ok_of_refused (download_refused job fun completed => ?_)
      rw [latest, Option.any_map]
      simpa [Export.page, completed] using fit

/-- A completed export names an object, under whatever spelling of its id. -/
def World.Filed (world : World) : Prop :=
  world.status = some .completed →
    ∃ fileKey, world.fileKey = some fileKey ∧ fileKey ≠ ""

section Statements

variable {env : Env} {before after : World}

theorem World.Filed.kept (filed : before.Filed)
    (file : after.fileKey = before.fileKey)
    (status : after.status = some .completed →
      before.status = some .completed) : after.Filed := by
  intro completed
  rw [file]
  exact filed (status completed)

/-- A statement that sets another status than `COMPLETED`, if any. -/
theorem SetsStatus.completed {sets : Option ExportStatus}
    (written : SetsStatus sets before after)
    (other : sets ≠ some .completed) (completed : after.status =
      some .completed) : before.status = some .completed := by
  rcases written with same | ⟨status, isSet, written⟩
  · exact same.symm.trans completed
  · rw [written] at completed
    obtain ⟨_, _, rfl⟩ := Option.map_eq_some_iff.mp completed
    exact absurd isSet other

theorem filed_runStep (kept : List String) (pc : RunPc)
    (filed : before.Filed) : (runStep env kept before pc).1.Filed := by
  by_cases completes : pc.sets = some .completed
  · cases pc with
    | writeCompleted run =>
        intro completed
        refine ⟨finalKey env.exportJobId, ?_, finalKey_ne_empty _⟩
        simp only [runStep, World.status, World.updateJob_job,
          Option.map_map] at completed
        obtain ⟨job, found, _⟩ := Option.map_eq_some_iff.mp completed
        simp only [runStep, World.fileKey, World.updateJob_job, found,
          Option.map_some, Option.bind_some]
    | _ => cases completes
  · have status := (runStep_status env kept before pc).completed completes
    rcases runStep_fileKey env kept before pc with same | final
    · exact filed.kept same status
    · intro completed
      obtain ⟨job, found, _⟩ :=
        Option.map_eq_some_iff.mp (status completed)
      exact ⟨_, by rw [final, found, Option.map_some], finalKey_ne_empty _⟩

theorem filed_apiStep (pc : ApiPc) (filed : before.Filed) :
    (apiStep env before pc).1.Filed := by
  by_cases other : pc.inserts = false ∨ before.job ≠ none
  · refine filed.kept (apiStep_fileKey env other)
      ((apiStep_status env other).completed ?_)
    cases pc with
    | writeCancel job =>
        rw [ApiPc.sets]
        split <;> simp
    | _ => simp [ApiPc.sets]
  · -- the row that is inserted is `PENDING`
    simp only [not_or, not_not, Bool.not_eq_false] at other
    obtain ⟨inserts, absent⟩ := other
    cases pc with
    | insertJob =>
        intro completed
        simp [apiStep, absent, World.status, newExportJob] at completed
    | _ => cases inserts

theorem filed_sweepCall (pc : SweepPc) (fault : Fault)
    (filed : before.Filed) : (sweepCall env before pc fault).1.Filed := by
  have step : (sweepStep env before pc).1.Filed := by
    refine filed.kept (sweepStep_fileKey env before pc)
      ((sweepStep_status env before pc).completed ?_)
    cases pc <;> simp [SweepPc.sets]
  exact sweepCall_cases (motive := fun result => result.1.Filed) fault step
    filed step

theorem World.Filed.passive (filed : before.Filed)
    (same : before.SameExport after) : after.Filed :=
  filed.kept (by rw [World.fileKey, World.fileKey, same.job])
    fun completed => same.status.symm.trans completed

theorem filed_actStep {index : Nat} {proc next : Proc} {action : Action}
    (filed : before.Filed)
    (step : ActStep env index before proc action after next) :
    after.Filed := by
  cases step with
  | run fault live =>
      exact runCall_cases (motive := fun result => result.1.Filed) fault
        (fun kept => filed_runStep kept _ filed) (fun _ => filed)
        fun _ => filed_runStep [] _ filed
  | api fault live =>
      exact apiCall_cases (motive := fun result => result.1.Filed) fault
        (filed_apiStep _ filed) (fun _ => filed)
        fun _ => filed_apiStep _ filed
  | sweep fault => exact filed_sweepCall _ _ filed
  | queueFailed fault same entry => exact filed.passive same
  | deliver | settleReturned | settleThrew | stall =>
      exact filed.passive (before.sameExport_setEntry _)
  | _ => exact filed

end Statements

/-- Every completed export of the installation names an object. -/
def Installation.Filed (installation : Installation) : Prop :=
  ∀ exportJobId, (installation.view exportJobId).Filed

section Histories

variable {source target : Config Installation Activity}
variable {events : List (Event Move Change)}

theorem filed_absorb {installation : Installation} {after : World}
    (filed : installation.Filed)
    (stays : Stays (installation.view exportJobId) after)
    (filedAfter : after.Filed) :
    (installation.absorb exportJobId after).Filed := by
  intro other
  by_cases same : canonical exportJobId = canonical other
  · rw [← view_setEntry same, view_absorb_self stays]
    exact filedAfter.passive (after.sameExport_setEntry _)
  · refine (filed other).kept ?_ fun completed => ?_
    · simp only [World.fileKey, Installation.view,
        rows_absorb_of_ne (Ne.symm same)]
    · simpa only [World.status, Installation.view,
        rows_absorb_of_ne (Ne.symm same)] using completed

theorem filed_step {before after : Config Installation Activity}
    {event : Event Move Change}
    (stepEq : (installationMachine server.env).step before event = some after)
    (filed : before.shared.Filed) : after.shared.Filed := by
  cases event with
  | act index move =>
      obtain ⟨shared, proc, actEq, rfl⟩ := Network.step_act_iff.mp stepEq
      have step := moveStep_of_act actEq
      generalize before.procs index = activity at step
      cases step with
      | take accepted step | go step =>
          have acts := actStep_of_act step
          exact filed_absorb filed (stays_actStep acts)
            (filed_actStep (filed _) acts)
      | visit fault answers | visitFails fault fails =>
          exact filed_absorb filed (stays_sweepCall _ _)
            (filed_sweepCall _ _ (filed _))
      | _ => exact filed
  | env change =>
      obtain ⟨shared, changed, rfl⟩ := Network.step_env_iff.mp stepEq
      obtain rfl := Option.some.inj changed
      cases change <;> exact filed

/-- The completed row a vault holds has its file once the installation has
been reached. -/
theorem filed_of_holds (initial : Unexported source)
    (history : (installationMachine server.env).Exec AnyMove source
      events target) (holds : vault.Holds target.shared)
    (found : vault.find exportJobId = some row)
    (completed : row.job.status = .completed) :
    ∃ fileKey, row.job.fileKey = some fileKey ∧ fileKey ≠ "" := by
  have start : source.shared.Filed := by
    intro other isCompleted
    simp [World.status, Installation.view, initial.noRows] at isCompleted
  have filed : target.shared.Filed :=
    history.invariant (fun _ stepEq before => filed_step stepEq before) start
  have seen := congrArg World.job (holds.sees exportJobId)
  simp only [Vault.world, found, Option.map_some] at seen
  have isCompleted : (target.shared.view exportJobId).status =
      some .completed := by rw [World.status, ← seen, ← completed]; rfl
  obtain ⟨fileKey, file, nonempty⟩ := filed exportJobId isCompleted
  rw [World.fileKey, ← seen] at file
  exact ⟨fileKey, file, nonempty⟩

/-- The API accepts a resume or a download exactly when the page, on its last
response, offers it; and a cancel when the page offers it or the export is
cancelled already. -/
theorem offers_accepted (initial : Unexported source)
    (history : (installationMachine server.env).Exec AnyMove source
      events target) (holds : vault.Holds target.shared)
    (uuid : isUuid exportJobId = true) (userId : String)
    (view press : Call) :
    let shown := exportDetailPage (vault.serve server userId
      { view with operation := .detail exportJobId }).2
    let accepts := fun operation =>
      (vault.serve server userId { press with operation := operation }).2.ok
    accepts (.resume exportJobId) = shown.any DetailPage.canResume ∧
      accepts (.download exportJobId) = shown.any DetailPage.canDownload ∧
      accepts (.cancel exportJobId) = shown.any fun page =>
        page.canCancel || page.status = "CANCELLED" := by
  intro shown accepts
  by_cases owns : Owns userId vault (canonical exportJobId)
  · obtain ⟨row, found, _, rfl, _⟩ := find_of_owns owns
    have page : shown = some row.page := by
      simp only [shown, Vault.serve, uuid, if_true]
      exact exportDetailPage_detail found rfl
    have command : ∀ (operation : Operation) (request : Request),
        Call.command row.job.userId { press with operation := operation } =
          some (200, exportJobId, request) →
        accepts operation = (vault.serveCommand server
          { press with operation := operation } 200 exportJobId
          request).2.ok :=
      fun _ _ runs => congrArg (Response.ok ∘ Prod.snd) (serve_command runs)
    rw [page, Option.any_some, Option.any_some, Option.any_some,
      command (.resume exportJobId) (.resume row.job.userId) (if_pos uuid),
      command (.download exportJobId) (.download row.job.userId)
        (if_pos uuid),
      command (.cancel exportJobId) (.cancel row.job.userId) (if_pos uuid)]
    exact ⟨resume_ok found, download_ok found
      (filed_of_holds initial history holds found), cancel_ok found⟩
  · -- nobody else sees the page, and nobody else's requests are accepted
    have foreign : ∀ call : Call,
        call.operation.target = some exportJobId →
        (vault.serve server userId call).2.ok = false := by
      intro call names
      rw [serve_foreign names uuid owns]
      simp [errorHandler, exportNotFound, notFoundError, Response.ok]
    have blank : shown = none := by
      simp only [shown, exportDetailPage]
      rw [foreign _ rfl]
      rfl
    rw [blank]
    exact ⟨foreign _ rfl, foreign _ rfl, foreign _ rfl⟩

def adasFirst : Vault :=
  ((emptyVault twoRecords).serve smallServer "ada"
    ⟨.create (some 2), 3, "r1", adaId⟩).1

def adasLook : Call := ⟨.detail adaId, 4, "r2", newId⟩

/-- The page offers Ada to resume her queued export and to cancel it, and the
API would do both; there is nothing to download yet. -/
theorem offers_accepted_adasFirst :
    exportDetailPage (adasFirst.serve smallServer "ada" adasLook).2 =
        some ⟨"QUEUED", true, true, false⟩ ∧
      (adasFirst.serve smallServer "ada"
        { adasLook with operation := .resume adaId }).2.ok = true ∧
      (adasFirst.serve smallServer "ada"
        { adasLook with operation := .download adaId }).2.ok = false ∧
      (adasFirst.serve smallServer "ada"
        { adasLook with operation := .cancel adaId }).2.ok = true := by
  have generates : Call.Generates ⟨.create (some 2), 3, "r1", adaId⟩ :=
    ⟨by decide, by decide⟩
  obtain ⟨_, _, _, history, holds, _, _⟩ := serve_refines
    smallServer "ada" 0 (holds_emptyVault twoRecords) rfl generates
    (by decide)
  have shown : exportDetailPage (adasFirst.serve smallServer "ada"
      adasLook).2 = some ⟨"QUEUED", true, true, false⟩ := by decide +kernel
  obtain ⟨resume, download, cancel⟩ := offers_accepted
    (unexported_smallInstallation _) history holds
    (show isUuid adaId = true by decide) "ada" adasLook adasLook
  refine ⟨shown, resume.trans ?_, download.trans ?_, cancel.trans ?_⟩
  all_goals
    exact (congrArg (Option.any _) shown).trans (by decide)

end Histories

end ExportVault
