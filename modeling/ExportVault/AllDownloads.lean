import ExportVault.AllExports
import ExportVault.Audit

/-!
# The files of an installation

The file of a completed export, and what is downloaded of it, whatever
happens to the records: for each export of an installation whose runs follow
one another.  A run under another spelling of the id has chunks and a file of
its own, but it shares the log and the verification rows, and two such runs
mix up each other's files.
-/

namespace ExportVault

open Interleaving

/-- A run of the export begins only when no other run of it is executing,
under whatever spelling of its id. -/
def OneRunAlive (id : String) : InstallationCondition := fun config event =>
  match event with
  | .act index (.take exportJobId action) =>
      canonical exportJobId = id → action = .start ∨ action = .deliver →
        ∀ other spelling proc, other ≠ index →
          config.procs other = .on spelling proc →
          canonical spelling = id → proc.executing = false
  | _ => True

/-- The row was in the table in one of the states, after the export was
created. -/
def SeenSince (id : String) (states : List (Config Installation Activity))
    (row : RawRecordRow) : Prop :=
  ∃ state ∈ states, (state.shared.rows id).job ≠ none ∧
    row ∈ state.shared.records.rows

/-- The record was in the table in all of the states since the export was
created. -/
def KeptSince (id : String) (states : List (Config Installation Activity))
    (number : Int) : Prop :=
  ∀ state ∈ states, (state.shared.rows id).job ≠ none →
    ∃ row ∈ state.shared.records.rows, row.id = number

section Histories

variable {env : Env} {id : String}
variable {source target : Config Installation Activity}
variable {events : List (Event Move Change)}

/-- However the records change: with successive owners the file of a completed
export has the requested number of rows with strictly increasing ids in
`1..snapshotMaxId`, each of them a version its record had after the export was
created, and each record that existed all the time, up to the last exported
id, exactly once. -/
theorem completed_export_gapless (initial : Unexported source)
    (history : (installationMachine env).Exec
      (fun config event => SameSpelling id config event ∧
        OnExport env id AloneAtClaim config event) source events target)
    (uuid : isUuid id = true) (isId : canonical id = id) {job : ExportJob}
    (found : (target.shared.rows id).job = some job)
    (completed : job.status = .completed) :
    ∃ rows : List RawRecordRow,
      target.shared.store.get? (finalKey id) = some (exportBytes rows) ∧
        (rows.length : Int) = job.requestedRowLimit ∧
        Keyset.Ascending RawRecordRow.id rows ∧
        (∀ row ∈ rows, 1 ≤ row.id ∧ row.id ≤ job.snapshotMaxId) ∧
        (∀ row ∈ rows, SeenSince id
          ((installationMachine env).states source events) row) ∧
        ∀ number, KeptSince id
            ((installationMachine env).states source events) number →
          (∃ row ∈ rows, number ≤ row.id) →
          (rows.map RawRecordRow.id).count number = 1 := by
  have visited : ∀ {state},
      state ∈ (machine (env.forExport id)).states (exportConfig env id source)
        ((exportProjection env uuid isId).events source events) →
      ∃ whole ∈ (installationMachine env).states source events,
        state = exportConfig env id whole := fun member =>
    (exportProjection env uuid isId).exists_of_mem_states history
      (fun allowed => allowed.1) (tidy_unexported initial id) member
  obtain ⟨rows, stored, count, ascending, within, seen, kept⟩ :=
    completedFile_gapless (initial_unexported env id initial)
      (export_history initial history uuid isId) ((job_part isId).trans found)
      completed
  refine ⟨rows, (get?_part (ownKey_finalKey id)).symm.trans stored, count,
    ascending, within, fun row member => ?_, fun number present => ?_⟩
  · obtain ⟨state, stateMember, created, inTable⟩ := seen row member
    obtain ⟨whole, wholeMember, rfl⟩ := visited stateMember
    exact ⟨whole, wholeMember, by rwa [← job_part isId], inTable⟩
  · refine kept number fun state stateMember created => ?_
    obtain ⟨whole, wholeMember, rfl⟩ := visited stateMember
    exact present whole wholeMember (by rwa [← job_part isId])

end Histories

theorem completed_export_gapless_crashedAndResumed :
    ∃ target rows, (installationMachine smallEnv).Exec
        (fun config event => SameSpelling firstExport config event ∧
          OnExport smallEnv firstExport AloneAtClaim config event)
        (smallInstallation twoRecords)
        (crashedAndResumed.map (named firstExport)) target ∧
      statusIs firstExport .completed target = true ∧
      target.shared.store.get? (finalKey firstExport) =
        some (exportBytes rows) ∧ rows.length = 2 := by
  obtain ⟨target, history, _, ends⟩ := exists_installation_history
    (fun config event => SameSpelling firstExport config event ∧
      OnExport smallEnv firstExport AloneAtClaim config event)
    twoRecords 3 (onExport firstExport (aloneAtClaim 3))
    (crashedAndResumed.map (named firstExport))
    (fun target => (target.shared.rows firstExport).job.any
      fun job : ExportJob => decide (job.status = .completed) &&
        decide (job.requestedRowLimit = 2))
    (onExport_sound fun idle passes => aloneAtClaim_sound idle passes)
    (by decide +kernel)
  obtain ⟨job, found, ended⟩ := (Option.any_eq_true _ _).mp ends
  simp only [Bool.and_eq_true, decide_eq_true_eq] at ended
  obtain ⟨rows, stored, count, _⟩ := completed_export_gapless
    (unexported_smallInstallation _) history (by decide) (by decide) found
    ended.1
  exact ⟨target, rows, history, by simp [statusIs, found, ended.1], stored,
    by omega⟩

/-- A run under the second spelling dies with its first chunk written, the
first record is deleted, a run under the id commits the next record as the
first batch and dies, and the entry under the second spelling is delivered
again. -/
def mixedRuns : List (Event Move Change) :=
  createdAndRespelled 2 ++
    .act 2 (.take firstRespelled .deliver) :: goes 2 8 ++
    [.act 2 (.go .crash), .act 2 (.go .stall),
      .env (.setRecords withoutFirst), .env (.tick 60000),
      .act 3 (.take firstExport .deliver)] ++ goes 3 10 ++
    [.act 3 (.go .crash), .env (.tick 60000),
      .act 4 (.take firstRespelled .deliver)] ++ goes 4 22

/-- `OneRunAlive`, computed for the first processes. -/
def oneRunAlive (bound : Nat) (id : String)
    (config : Config Installation Activity) : Event Move Change → Bool
  | .act index (.take exportJobId action) =>
      canonical exportJobId ≠ id || !(action = .start || action = .deliver) ||
        (List.range bound).all fun other =>
          other = index || match config.procs other with
            | .on spelling proc =>
                canonical spelling ≠ id || !proc.executing
            | _ => true
  | _ => true

theorem oneRunAlive_sound {bound : Nat} {id : String}
    {config : Config Installation Activity} {event : Event Move Change}
    (quiet : QuietFrom bound config)
    (passes : oneRunAlive bound id config event = true) :
    OneRunAlive id config event := by
  cases event with
  | env => trivial
  | act index move =>
      cases move with
      | take exportJobId action =>
          intro same begins other spelling proc different there spelled
          have below : other < bound := by
            by_contra beyond
            rw [quiet other (not_lt.mp beyond)] at there
            cases there
          have begun : (decide (action = .start) ||
              decide (action = .deliver)) = true := by simpa using begins
          simp only [oneRunAlive, same, begun, ne_eq, not_true_eq_false,
            decide_false, Bool.not_true, Bool.false_or, Bool.or_eq_true,
            decide_eq_true_eq, List.all_eq_true, List.mem_range] at passes
          have free := passes other below
          simpa [different, there, spelled] using free
      | _ => trivial

/-- One run is alive at a time, and the file of the completed export leaves
out record 3, which was in the table all the time. -/
theorem mixed_runs_skip_row :
    ∃ target job, (installationMachine smallEnv).Exec
        (OneRunAlive firstExport) (smallInstallation threeRecords) mixedRuns
        target ∧
      (target.shared.rows firstExport).job = some job ∧
      job.status = .completed ∧
      job.fileKey = some (finalKey firstRespelled) ∧
      target.shared.store.get? (finalKey firstExport) = none ∧
      target.shared.store.get? (finalKey firstRespelled) =
        some (exportBytes [smallRecord 1, smallRecord 4]) ∧
      KeptSince firstExport ((installationMachine smallEnv).states
        (smallInstallation threeRecords) mixedRuns) 3 := by
  obtain ⟨target, history, _, ends⟩ := exists_installation_history
    (OneRunAlive firstExport) threeRecords 5 (oneRunAlive 5 firstExport)
    mixedRuns
    (fun target =>
      (target.shared.rows firstExport).job.any (fun job : ExportJob =>
        decide (job.status = .completed) &&
          decide (job.fileKey = some (finalKey firstRespelled))) &&
      decide (target.shared.store.get? (finalKey firstExport) = none) &&
      decide (target.shared.store.get? (finalKey firstRespelled) =
        some (exportBytes [smallRecord 1, smallRecord 4])))
    oneRunAlive_sound (by decide +kernel)
  simp only [Bool.and_eq_true, decide_eq_true_eq, Option.any_eq_true] at ends
  obtain ⟨⟨⟨job, found, completed, fileKey⟩, missing⟩, stored⟩ := ends
  refine ⟨target, job, history, found, completed, fileKey, missing, stored,
    fun state member _ => ?_⟩
  have everywhere : ((installationMachine smallEnv).states
      (smallInstallation threeRecords) mixedRuns).all (fun state =>
        state.shared.records.rows.contains (smallRecord 3)) = true := by
    decide +kernel
  exact ⟨smallRecord 3,
    List.contains_iff_mem.mp (List.all_eq_true.mp everywhere state member),
    rfl⟩

/-! ## Downloads -/

/-- A download that names the export by another spelling of its id has the
URL of the file of the export all the same. -/
def Signed (env : Env) (id : String)
    (config : Config Installation Activity) : Prop :=
  ∀ index exportJobId url filename expires fileBytes sha256,
    config.procs index = .on exportJobId (.api (.returned
      (.download url filename expires fileBytes sha256))) →
    canonical exportJobId = id → exportJobId ≠ id →
    url = env.signedUrl (finalKey id) filename

/-- A command begins unanswered. -/
theorem unanswered_begin (request : Request) (reply : ApiReply) :
    request.begin ≠ .returned reply := by
  cases request with
  | create userId rowLimit =>
      simp only [Request.begin]
      repeat' split
      all_goals simp
  | _ => simp [Request.begin]

section Signatures

variable {env : Env} {id : String} {world after : World} {index : Nat}
variable {proc next : Proc} {action : Action}
variable {url filename sha256 : String} {expires fileBytes : Int}

/-- A command that opens only the file of the export answers with its URL. -/
theorem signed_apiStep {pc : ApiPc} (quiet : pc.queueless = true)
    (opened : pc.FileOf id) (live : pc.ended = false)
    (answers : (apiStep env world pc).2 =
      .returned (.download url filename expires fileBytes sha256)) :
    url = env.signedUrl (finalKey id) filename := by
  by_cases asked : ∃ fileKey, pc = .latestForDownload fileKey
  · obtain ⟨fileKey, rfl⟩ := asked
    obtain rfl : fileKey = finalKey id := opened fileKey rfl
    simp only [apiStep] at answers
    cases latest : world.latestVerification with
    | none =>
        rw [latest] at answers
        cases answers
    | some verification =>
        rw [latest] at answers
        simp only [afterLatestForDownload] at answers
        split at answers
        · cases answers
        · obtain ⟨rfl, rfl, _⟩ :=
            ApiReply.download.inj (ApiPc.returned.inj answers)
          rfl
  · -- No other statement hands out the name it was called by.
    have unasked : ∀ fileKey, pc ≠ .latestForDownload fileKey :=
      fun fileKey isAsked => asked ⟨fileKey, isAsked⟩
    have unanswered : ∀ reply, pc ≠ .returned reply := by
      rintro reply rfl
      cases live
    have same := @renamed_apiStep env world pc (env.forExport id) quiet
      unasked unanswered
    rw [answers] at same
    simp only [ApiPc.renamed, ApiReply.renamed, ApiPc.returned.injEq,
      ApiReply.download.injEq, Env.forExport] at same
    rw [← same.2.1]
    exact same.1.symm

theorem signed_act (quiet : proc.queueless = true) (opened : proc.FileOf id)
    (step : ActStep env index world proc action after (.api (.returned
      (.download url filename expires fileBytes sha256)))) :
    url = env.signedUrl (finalKey id) filename := by
  generalize answered : Proc.api (.returned
    (.download url filename expires fileBytes sha256)) = following at step
  cases step with
  | @api pc fault live =>
      have answers := Proc.api.inj answered
      revert answers
      exact apiCall_cases (motive := fun result =>
        ApiPc.returned (.download url filename expires fileBytes sha256) =
          result.2 → url = env.signedUrl (finalKey id) filename) fault
        (fun answers => signed_apiStep quiet opened live answers.symm)
        (fun _ answers => by cases answers) fun _ answers => by cases answers
  | request request =>
      exact absurd (Proc.api.inj answered).symm (unanswered_begin request _)
  | _ => cases answered

end Signatures

section Histories

variable {env : Env} {id : String}
variable {source target before after : Config Installation Activity}
variable {event : Event Move Change} {events : List (Event Move Change)}

theorem signed_step (tidy : TidyConfig id before)
    (stepEq : (installationMachine env).step before event = some after)
    (signed : Signed env id before) : Signed env id after := by
  cases event with
  | env change =>
      obtain ⟨shared, _, rfl⟩ := Network.step_env_iff.mp stepEq
      exact signed
  | act index move =>
      obtain ⟨shared, activity, actEq, rfl⟩ :=
        Network.step_act_iff.mp stepEq
      intro other exportJobId url filename expires fileBytes sha256 answered
        same different
      by_cases here : other = index
      · subst here
        simp only [Function.update_self] at answered
        have own := tidy.procs other
        have step := moveStep_of_act actEq
        generalize before.procs other = activityBefore at own step
        cases step with
        | @take taken action world following accepted step =>
            cases actStep_of_act step with
            | @request request =>
                exact absurd (Proc.api.inj (Activity.on.inj answered).2)
                  (unanswered_begin request _)
            | _ => cases answered
        | @go taken proc following action world step =>
            cases following with
            | api pc =>
                simp only [Activity.of, Activity.on.injEq, Proc.api.injEq]
                  at answered
                obtain ⟨rfl, rfl⟩ := answered
                obtain ⟨opened, spelled⟩ := own.2.2 same
                have url := signed_act (spelled.resolve_left different) opened
                  (actStep_of_act step)
                exact url
            | _ => cases answered
        | _ => cases answered
      · simp only [Function.update_of_ne here] at answered
        exact signed other exportJobId url filename expires fileBytes sha256
          answered same different

theorem signed_history (initial : Unexported source)
    (isId : canonical id = id)
    (history : (installationMachine env).Exec (SameSpelling id) source events
      target) : Signed env id target := by
  have begun : TidyConfig id source ∧ Signed env id source :=
    ⟨tidy_unexported initial id, fun index => by simp [initial.idle index]⟩
  have kept : ∀ {before event after}, SameSpelling id before event →
      (installationMachine env).step before event = some after →
      TidyConfig id before ∧ Signed env id before →
      TidyConfig id after ∧ Signed env id after := by
    rintro before event after allowed stepEq ⟨tidy, signed⟩
    exact ⟨tidy_step isId allowed stepEq tidy, signed_step tidy stepEq signed⟩
  exact (history.invariant kept begun).2

/-- No export has verification rows yet. -/
theorem unverified_unexported (initial : Unexported source) :
    (exportConfig env id source).shared.verifications = [] :=
  congrArg ExportRows.verifications (initial.noRows (canonical id))

/-- What a process that answered a download has answered in the system of the
export. -/
theorem download_toward {exportJobId url filename sha256 : String}
    {expires fileBytes : Int} (same : canonical exportJobId = id) {index : Nat}
    (answered : target.procs index = .on exportJobId (.api (.returned
      (.download url filename expires fileBytes sha256)))) :
    ∃ url filename, (exportConfig env id target).procs index =
      .api (.returned (.download url filename expires fileBytes sha256)) := by
  by_cases here : exportJobId = id
  · subst here
    exact ⟨url, filename, by simp only [exportConfig, answered,
      toward_on_self]⟩
  · simp only [exportConfig, answered, toward_on_spelled same here,
      Proc.renamed, ApiPc.renamed, ApiReply.renamed]
    exact ⟨_, _, rfl⟩

/-- With successive owners, whenever `getExportDownload` answers for an
export, under whatever spelling of its id: the URL is that of its file, and
the object there has the digest and the length of the answer and passes every
check of the verifier; and so it does ever after. -/
theorem export_download_proven (initial : Unexported source)
    (history : (installationMachine env).Exec
      (fun config event => SameSpelling id config event ∧
        OnExport env id AloneAtClaim config event) source events target)
    (uuid : isUuid id = true) (isId : canonical id = id) {index : Nat}
    {exportJobId url filename sha256 : String} {expires fileBytes : Int}
    (same : canonical exportJobId = id)
    (answered : target.procs index = .on exportJobId (.api (.returned
      (.download url filename expires fileBytes sha256)))) :
    ∃ job file, (target.shared.rows id).job = some job ∧
      job.fileKey = some (finalKey id) ∧
      url = env.signedUrl (finalKey id) filename ∧
      target.shared.store.get? (finalKey id) = some file ∧
      sha256 = env.sha256 file ∧ fileBytes = file.size ∧
      Passes env job file := by
  have spelled := history.mono fun allowed => allowed.1
  have fileOf := (tidy_history initial isId spelled).shared.file
  obtain ⟨partUrl, partName, there⟩ :=
    @download_toward env id target _ _ _ _ _ _ same _ answered
  obtain ⟨job, fileKey, file, found, hasFile, url', stored, digest, size,
    passes⟩ := download_proven (initial_unexported env id initial)
      (unverified_unexported initial)
      (export_history initial history uuid isId) there
  have isFinal : fileKey = finalKey id := by
    refine fileOf fileKey ?_
    rw [World.fileKey]
    have seen : (target.shared.view id).job = some job := found
    rw [seen]
    exact hasFile
  subst isFinal
  refine ⟨job, file, (job_part isId).symm.trans found, hasFile, ?_,
    (get?_part (ownKey_finalKey id)).symm.trans stored, digest, size, passes⟩
  by_cases here : exportJobId = id
  · subst here
    simp only [exportConfig, answered, toward_on_self, Proc.api.injEq,
      ApiPc.returned.injEq, ApiReply.download.injEq] at there
    rw [there.1, there.2.1]
    exact url'
  · exact signed_history initial isId spelled index exportJobId url filename
      expires fileBytes sha256 answered same here

end Histories

def Activity.downloaded : Activity → Option (String × String)
  | .on exportJobId (.api (.returned (.download _ _ _ _ sha256))) =>
      some (exportJobId, sha256)
  | _ => none

theorem exists_of_downloaded {activity : Activity}
    {exportJobId sha256 : String}
    (answered : activity.downloaded = some (exportJobId, sha256)) :
    ∃ url filename expires fileBytes, activity = .on exportJobId (.api
      (.returned (.download url filename expires fileBytes sha256))) := by
  simp only [Activity.downloaded] at answered
  split at answered
  · obtain ⟨rfl, rfl⟩ := Prod.mk.inj (Option.some.inj answered)
    exact ⟨_, _, _, _, rfl⟩
  · cases answered

/-- The export is completed, and downloaded under another spelling of its
id. -/
def downloadedRespelled : List (Event Move Change) :=
  exportOnce.map (named firstExport) ++
    (.act 2 (.request (.download "u")) :: calls 2 2).map
      (named firstRespelled)

theorem downloadedRespelled_ends :
    ∃ target job digest, (installationMachine smallEnv).Exec
        (fun config event => SameSpelling firstExport config event ∧
          OnExport smallEnv firstExport AloneAtClaim config event)
        (smallInstallation oneRecord) downloadedRespelled target ∧
      (target.procs 2).downloaded = some (firstRespelled, digest) ∧
      (target.shared.rows firstExport).job = some job ∧
      job.snapshotMaxId = 1 := by
  obtain ⟨target, history, _, ends⟩ := exists_installation_history
    (fun config event => SameSpelling firstExport config event ∧
      OnExport smallEnv firstExport AloneAtClaim config event)
    oneRecord 3 (onExport firstExport (aloneAtClaim 3)) downloadedRespelled
    (fun target =>
      decide ((target.procs 2).downloaded =
        some (firstRespelled, "167")) &&
      (target.shared.rows firstExport).job.any fun job : ExportJob =>
        decide (job.snapshotMaxId = 1))
    (onExport_sound fun idle passes => aloneAtClaim_sound idle passes)
    (by decide +kernel)
  simp only [Bool.and_eq_true, decide_eq_true_eq, Option.any_eq_true] at ends
  obtain ⟨answered, job, found, boundary⟩ := ends
  exact ⟨target, job, "167", history, answered, found, boundary⟩

theorem export_download_proven_downloadedRespelled :
    ∃ target job file, (installationMachine smallEnv).Exec
        (fun config event => SameSpelling firstExport config event ∧
          OnExport smallEnv firstExport AloneAtClaim config event)
        (smallInstallation oneRecord) downloadedRespelled target ∧
      (target.shared.rows firstExport).job = some job ∧
      target.shared.store.get? (finalKey firstExport) = some file ∧
      Passes smallEnv job file := by
  obtain ⟨target, _, digest, history, answer, _⟩ := downloadedRespelled_ends
  obtain ⟨url, filename, expires, fileBytes, answered⟩ :=
    exists_of_downloaded answer
  have spelled : canonical firstRespelled = firstExport := by decide +kernel
  obtain ⟨job, file, found, _, _, stored, _, _, passes⟩ :=
    export_download_proven (unexported_smallInstallation _) history
      (by decide) (by decide) spelled answered
  exact ⟨target, job, file, history, found, stored, passes⟩

/-- The record changes. -/
def firstRenamed : RecordTable :=
  ⟨[{ smallRecord 1 with name := "Bo" }], by decide, by decide⟩

/-- A run under the id dies with its chunk written, the record changes, and a
run under the second spelling exports it anew and fails to delete its chunk.
A verification of that file is slow to write its row: meanwhile the first
entry is delivered again, and completes the export with the old chunk. -/
def mixedFiles : List (Event Move Change) :=
  .act 0 (.take firstExport (.request (.create "u" 1))) :: goes 0 6 ++
    .act 1 (.take firstExport .deliver) :: goes 1 8 ++
    [.act 1 (.go .crash), .env (.setRecords firstRenamed),
      .env (.tick 60000), .act 2 .beginSweep,
      .act 2 (.scan [firstExport])] ++ goes 2 2 ++
    .act 3 (.take firstRespelled (.request (.resume "u"))) :: goes 3 5 ++
    .act 4 (.take firstRespelled .deliver) :: goes 4 20 ++
    .act 4 (.go (.call (.refused "SlowDown"))) :: goes 4 2 ++
    .act 5 (.take firstExport (.request (.verify "u"))) :: goes 5 4 ++
    [.act 1 (.go .stall), .act 6 (.take firstExport .deliver)] ++
    goes 6 16 ++ goes 5 1 ++
    .act 7 (.take firstExport (.request (.download "u"))) :: goes 7 2

/-- One run is alive at a time, and the answer of the download has the digest
of another file than the one it points at. -/
theorem mixed_files_downloaded :
    ∃ target job url filename expires fileBytes sha256 file,
      (installationMachine smallEnv).Exec (OneRunAlive firstExport)
        (smallInstallation oneRecord) mixedFiles target ∧
      target.procs 7 = .on firstExport (.api (.returned
        (.download url filename expires fileBytes sha256))) ∧
      (target.shared.rows firstExport).job = some job ∧
      job.fileKey = some (finalKey firstExport) ∧
      target.shared.store.get? (finalKey firstExport) = some file ∧
      sha256 ≠ smallEnv.sha256 file := by
  obtain ⟨target, history, _, ends⟩ := exists_installation_history
    (OneRunAlive firstExport) oneRecord 8 (oneRunAlive 8 firstExport)
    mixedFiles
    (fun target =>
      decide ((target.procs 7).downloaded = some (firstExport, "157")) &&
      (target.shared.rows firstExport).job.any (fun job : ExportJob =>
        decide (job.fileKey = some (finalKey firstExport))) &&
      (target.shared.store.get? (finalKey firstExport)).any fun file =>
        decide (smallEnv.sha256 file ≠ "157"))
    oneRunAlive_sound (by decide +kernel)
  simp only [Bool.and_eq_true, decide_eq_true_eq, Option.any_eq_true] at ends
  obtain ⟨⟨answer, job, found, fileKey⟩, file, stored, differs⟩ := ends
  obtain ⟨url, filename, expires, fileBytes, answered⟩ :=
    exists_of_downloaded answer
  exact ⟨target, job, url, filename, expires, fileBytes, "157", file, history,
    answered, found, fileKey, stored, differs.symm⟩

/-- Whenever `getExportDownload` answers for an export of an installation, the
script finds nothing wrong with the object, as long as the ids are safe
integers: with successive owners, whatever happens to the records. -/
theorem export_download_passes_audit {env : Env} {id : String}
    {source target : Config Installation Activity}
    {events : List (Event Move Change)} (initial : Unexported source)
    (history : (installationMachine env).Exec
      (fun config event => SameSpelling id config event ∧
        OnExport env id AloneAtClaim config event) source events target)
    (uuid : isUuid id = true) (isId : canonical id = id) {index : Nat}
    {exportJobId url filename digest : String} {expires fileBytes : Int}
    (same : canonical exportJobId = id)
    (answered : target.procs index = .on exportJobId (.api (.returned
      (.download url filename expires fileBytes digest))))
    {job : ExportJob} (found : (target.shared.rows id).job = some job)
    (safe : job.snapshotMaxId ≤ 9007199254740991) :
    ∃ text, target.shared.store.get? (finalKey id) = some (utf8 text) ∧
      auditProblems env.sha256 job.requestedRowLimit.toNat
        (bigIntToJson (some job.snapshotMaxId)) digest text = some [] := by
  obtain ⟨partUrl, partName, there⟩ :=
    @download_toward env id target _ _ _ _ _ _ same _ answered
  obtain ⟨text, stored, silent⟩ := download_passes_audit
    (initial_unexported env id initial) (unverified_unexported initial)
    (export_history initial history uuid isId) there
    ((job_part isId).trans found) safe
  exact ⟨text, (get?_part (ownKey_finalKey id)).symm.trans stored, silent⟩

theorem export_download_passes_audit_downloadedRespelled :
    ∃ target job digest text, (installationMachine smallEnv).Exec
        (fun config event => SameSpelling firstExport config event ∧
          OnExport smallEnv firstExport AloneAtClaim config event)
        (smallInstallation oneRecord) downloadedRespelled target ∧
      (target.shared.rows firstExport).job = some job ∧
      target.shared.store.get? (finalKey firstExport) = some (utf8 text) ∧
      auditProblems smallEnv.sha256 job.requestedRowLimit.toNat
        (bigIntToJson (some job.snapshotMaxId)) digest text = some [] := by
  obtain ⟨target, job, digest, history, answer, found, boundary⟩ :=
    downloadedRespelled_ends
  obtain ⟨url, filename, expires, fileBytes, answered⟩ :=
    exists_of_downloaded answer
  have spelled : canonical firstRespelled = firstExport := by decide +kernel
  obtain ⟨text, stored, silent⟩ := export_download_passes_audit
    (unexported_smallInstallation _) history (by decide) (by decide) spelled
    answered found (by rw [boundary]; decide)
  exact ⟨target, job, digest, text, history, found, stored, silent⟩

end ExportVault
