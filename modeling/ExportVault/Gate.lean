import ExportVault.Verdict

/-!
# The download gate

A download is answered when the latest verification row has passed, and the
row is written when the verifier has come to the end of the file.  A call that
verifies a replaced file writes its row, and so closes the gate on a bad one,
exactly when the file can be parsed and the extreme ids fit their `BIGINT`
columns (`gate_closes_iff`).
-/

namespace ExportVault

open Interleaving

def readId (row : List String) : Option Int :=
  if row.length = csvColumns.length then bigInt (idText row) else none

def readIds (records : List (List String)) : List Int :=
  records.tail.filterMap readId

/-- `minId` and `maxId` are the extremes of the ids so far. -/
structure Extremes (ids : List Int) (state : VerifyState) : Prop where
  minimal : ∀ id ∈ ids, ∃ minId ∈ state.minId, minId ≤ id
  maximal : ∀ id ∈ ids, ∃ maxId ∈ state.maxId, id ≤ maxId
  minRead : ∀ minId ∈ state.minId, minId ∈ ids
  maxRead : ∀ maxId ∈ state.maxId, maxId ∈ ids

variable {snapshotMaxId expectedRows : Int} {records : List (List String)}
variable {state : VerifyState} {ids : List Int}

theorem Extremes.same {after : VerifyState} (extremes : Extremes ids state)
    (minSame : after.minId = state.minId)
    (maxSame : after.maxId = state.maxId) : Extremes ids after := by
  refine ⟨?_, ?_, ?_, ?_⟩
  · rw [minSame]
    exact extremes.minimal
  · rw [maxSame]
    exact extremes.maximal
  · rw [minSame]
    exact extremes.minRead
  · rw [maxSame]
    exact extremes.maxRead

theorem Extremes.countId {id : Int} (extremes : Extremes ids state) :
    Extremes (ids ++ [id]) (state.countId snapshotMaxId id) := by
  have minCase : ∃ minId, (state.countId snapshotMaxId id).minId =
      some minId ∧ minId ≤ id ∧ (minId = id ∨ state.minId = some minId) ∧
        ∀ other ∈ state.minId, minId ≤ other := by
    simp only [VerifyState.countId]
    cases state.minId with
    | none => exact ⟨id, rfl, le_refl id, .inl rfl, by simp⟩
    | some minId =>
        by_cases smaller : id < minId
        · exact ⟨id, if_pos smaller, le_refl id, .inl rfl,
            by simpa using le_of_lt smaller⟩
        · exact ⟨minId, if_neg smaller, not_lt.mp smaller, .inr rfl,
            by simp⟩
  have maxCase : ∃ maxId, (state.countId snapshotMaxId id).maxId =
      some maxId ∧ id ≤ maxId ∧ (maxId = id ∨ state.maxId = some maxId) ∧
        ∀ other ∈ state.maxId, other ≤ maxId := by
    simp only [VerifyState.countId]
    cases state.maxId with
    | none => exact ⟨id, rfl, le_refl id, .inl rfl, by simp⟩
    | some maxId =>
        by_cases larger : maxId < id
        · exact ⟨id, if_pos larger, le_refl id, .inl rfl,
            by simpa using le_of_lt larger⟩
        · exact ⟨maxId, if_neg larger, not_lt.mp larger, .inr rfl, by simp⟩
  obtain ⟨minId, minEq, minBelow, minFrom, minOthers⟩ := minCase
  obtain ⟨maxId, maxEq, maxAbove, maxFrom, maxOthers⟩ := maxCase
  refine ⟨?_, ?_, ?_, ?_⟩
  · intro other member
    refine ⟨minId, minEq, ?_⟩
    rcases List.mem_append.mp member with before | now
    · obtain ⟨old, oldEq, below⟩ := extremes.minimal other before
      exact le_trans (minOthers old oldEq) below
    · rwa [List.mem_singleton.mp now]
  · intro other member
    refine ⟨maxId, maxEq, ?_⟩
    rcases List.mem_append.mp member with before | now
    · obtain ⟨old, oldEq, above⟩ := extremes.maximal other before
      exact le_trans above (maxOthers old oldEq)
    · rwa [List.mem_singleton.mp now]
  · intro other member
    obtain rfl := Option.some.inj (minEq.symm.trans member)
    rcases minFrom with rfl | before
    · simp
    · exact List.mem_append_left _ (extremes.minRead _ before)
  · intro other member
    obtain rfl := Option.some.inj (maxEq.symm.trans member)
    rcases maxFrom with rfl | before
    · simp
    · exact List.mem_append_left _ (extremes.maxRead _ before)

theorem extremes_verifyRow {row : List String}
    (started : state.rowIndex ≠ 0) (extremes : Extremes ids state) :
    Extremes (ids ++ (readId row).toList)
      (verifyRow snapshotMaxId state row) := by
  have seen : Extremes ids (state.seeRow row) := by
    apply extremes.same <;> rw [VerifyState.seeRow] <;> split <;> rfl
  by_cases fields : row.length = csvColumns.length
  · rw [verifyRow_of_started started fields, readId, if_pos fields]
    cases bigInt (idText row) with
    | none =>
        rw [Option.toList_none, List.append_nil]
        exact seen.same rfl rfl
    | some id => exact seen.countId
  · rw [readId, if_neg fields, Option.toList_none, List.append_nil, verifyRow,
      if_neg started]
    simp only [fields, ne_eq, not_false_eq_true, if_true]
    exact extremes.same rfl rfl

theorem extremes_foldl {rows : List (List String)}
    (started : state.rowIndex ≠ 0) (extremes : Extremes ids state) :
    Extremes (ids ++ rows.filterMap readId)
      (rows.foldl (verifyRow snapshotMaxId) state) := by
  induction rows generalizing ids state with
  | nil => simpa using extremes
  | cons row rest inductionHypothesis =>
      have turn : Extremes (ids ++ (readId row).toList)
          (verifyRow snapshotMaxId state row) :=
        extremes_verifyRow started extremes
      have next := inductionHypothesis started_verifyRow turn
      have regroup : ids ++ (row :: rest).filterMap readId =
          ids ++ (readId row).toList ++ rest.filterMap readId := by
        cases read : readId row <;> simp [read]
      rw [regroup, List.foldl_cons]
      exact next

/-- The extremes of a whole file. -/
theorem extremes_verifyRecords (snapshotMaxId : Int)
    (records : List (List String)) :
    Extremes (readIds records) (verifyRecords snapshotMaxId records) := by
  have empty : ∀ state : VerifyState, state.minId = none →
      state.maxId = none → Extremes [] state := by
    intro state noMin noMax
    exact ⟨by simp, by simp, by simp [noMin], by simp [noMax]⟩
  cases records with
  | nil => exact empty _ rfl rfl
  | cons header rows =>
      exact extremes_foldl started_verifyRow (empty _ rfl rfl)

/-- The row of a verification can be stored exactly when all the ids that were
read fit their columns. -/
theorem storable_iff {fileBytes : Int} {sha256 : String} :
    (verificationResult expectedRows snapshotMaxId fileBytes sha256
        (verifyRecords snapshotMaxId records)).storable = true ↔
      ∀ id ∈ readIds records, isBigInt id := by
  have extremes := extremes_verifyRecords snapshotMaxId records
  generalize verifyRecords snapshotMaxId records = state at extremes
  have stored : (verificationResult expectedRows snapshotMaxId fileBytes sha256
        state).storable = true ↔
      (∀ minId ∈ state.minId, isBigInt minId) ∧
        ∀ maxId ∈ state.maxId, isBigInt maxId := by
    simp only [VerificationResult.storable, verificationResult,
      Bool.and_eq_true]
    cases state.minId <;> cases state.maxId <;> simp
  rw [stored]
  constructor
  · rintro ⟨low, high⟩ id member
    obtain ⟨minId, minEq, below⟩ := extremes.minimal id member
    obtain ⟨maxId, maxEq, above⟩ := extremes.maximal id member
    have lowFits := low minId minEq
    have highFits := high maxId maxEq
    simp only [isBigInt] at lowFits highFits ⊢
    omega
  · intro fit
    exact ⟨fun minId minEq => fit minId (extremes.minRead minId minEq),
      fun maxId maxEq => fit maxId (extremes.maxRead maxId maxEq)⟩

/-! ## The gate -/

/-- The content can be parsed, and the verification row it gives can be
stored. -/
def Verifiable (env : Env) (body : Bytes) : Prop :=
  ∃ records, env.csvParse body = .ok records ∧
    ∀ id ∈ readIds records, isBigInt id

/-- The content satisfies every check of the verifier. -/
def Passes (env : Env) (job : ExportJob) (body : Bytes) : Prop :=
  ∃ result,
    verifyBody env job.requestedRowLimit job.snapshotMaxId body.size body =
      .ok result ∧ result.passed = true

/-- Exactly one verification row has been appended, and it describes the
content. -/
def Described (env : Env) (job : ExportJob) (body : Bytes)
    (before after : World) : Prop :=
  ∃ result,
    verifyBody env job.requestedRowLimit job.snapshotMaxId body.size body =
      .ok result ∧
    after.verifications = before.verifications ++ [result.toRow]

def requestCalls (request : Request) (count : Nat) : List Action :=
  .request request :: List.replicate count (.call .none)

def Downloads (env : Env) (reader : Nat) (world : World) : Prop :=
  ∃ userId count final url filename expires fileBytes sha256,
    (network env).solo reader world .idle
        (requestCalls (.download userId) count) =
      some (final, .api (.returned
        (.download url filename expires fileBytes sha256)))

variable {env : Env} {world : World} {job : ExportJob} {body : Bytes}

/-- A download is answered with a URL only when the latest verification has
passed. -/
theorem passed_of_downloads {reader : Nat}
    (downloads : Downloads env reader world) :
    ∃ latest, world.latestVerification = some latest ∧
      latest.passed = true := by
  obtain ⟨userId, count, final, url, filename, expires, fileBytes, sha256,
    answered⟩ := downloads
  have begins : (network env).solo reader world .idle
      (requestCalls (.download userId) count) =
        (network env).solo reader world (.api (.findForDownload userId))
          (List.replicate count (.call .none)) := by
    rfl
  rw [begins] at answered
  have looked : ∀ {fileKey : String} {count : Nat},
      (network env).solo reader world (.api (.latestForDownload fileKey))
          (List.replicate count (.call .none)) =
        some (final, .api (.returned
          (.download url filename expires fileBytes sha256))) →
      ∃ latest, world.latestVerification = some latest ∧
        latest.passed = true := by
    intro fileKey count answered
    cases count with
    | zero => cases answered
    | succ count =>
        rw [List.replicate_succ, solo_api] at answered
        simp only [ApiPc.ended, Bool.false_eq_true, if_false, apiStep,
          afterLatestForDownload] at answered
        cases latestEq : world.latestVerification with
        | none =>
            rw [latestEq] at answered
            cases count with
            | zero => cases answered
            | succ count => simp [List.replicate_succ, solo_api,
                ApiPc.ended] at answered
        | some latest =>
            rw [latestEq] at answered
            cases passed : latest.passed with
            | true => exact ⟨latest, rfl, passed⟩
            | false =>
                simp only [passed, Bool.not_false, if_true] at answered
                cases count with
                | zero => cases answered
                | succ count => simp [List.replicate_succ, solo_api,
                    ApiPc.ended] at answered
  have refused : ∀ {error : AppError} {count : Nat},
      (network env).solo reader world (.api (.threw error))
          (List.replicate count (.call .none)) ≠
        some (final, .api (.returned
          (.download url filename expires fileBytes sha256))) := by
    intro error count answered
    cases count with
    | zero => cases answered
    | succ count =>
        simp [List.replicate_succ, solo_api, ApiPc.ended] at answered
  cases count with
  | zero => cases answered
  | succ count =>
      rw [List.replicate_succ, solo_api] at answered
      simp only [ApiPc.ended, Bool.false_eq_true, if_false, apiStep,
        getOwnedExportJob, afterFindForDownload] at answered
      repeat' split at answered
      all_goals first | exact looked answered | exact absurd answered refused

/-- What a verification has to say about the content. -/
theorem described_iff {before after : World} :
    Described env job body before after ↔
      ∃ records, env.csvParse body = .ok records ∧
        after.verifications = before.verifications ++
          [(verificationResult job.requestedRowLimit job.snapshotMaxId
            body.size (env.sha256 body)
            (verifyRecords job.snapshotMaxId records)).toRow] := by
  rw [Described, verifyBody]
  cases env.csvParse body with
  | error error => simp
  | ok records => simp

/-- The calls of a verification of a stored file. -/
theorem solo_verify {fileKey : String} (verifier : Nat)
    (found : world.job = some job) (hasFile : job.fileKey = some fileKey)
    (named : fileKey ≠ "") (stored : world.store.get? fileKey = some body)
    (count : Nat) :
    (network env).solo verifier world .idle
        (requestCalls (.verify job.userId) (count + 4)) =
      match verifyBody env job.requestedRowLimit job.snapshotMaxId body.size
          body with
      | .error error =>
          (network env).solo verifier world (.api (.threw error))
            (List.replicate count (.call .none))
      | .ok result =>
          (network env).solo verifier world
            (.api (.saveVerification job result))
            (List.replicate count (.call .none)) := by
  have begins : (network env).solo verifier world .idle
      (requestCalls (.verify job.userId) (count + 4)) =
        (network env).solo verifier world
          (.api (.findForVerifyOwner job.userId))
          (List.replicate (count + 4) (.call .none)) := by
    rfl
  rw [begins]
  simp only [List.replicate_succ, solo_api, ApiPc.ended, apiStep,
    getOwnedExportJob, found, hasFile, named, stored, ne_eq, not_true_eq_false,
    Bool.false_eq_true, if_false]
  cases verifyBody env job.requestedRowLimit job.snapshotMaxId body.size
    body <;> rfl

/-- A verification of a stored file comes to an end, and then exactly one row
has been appended that describes the content, and no download is answered
unless the content passes, if and only if the content can be parsed and all
the ids read from it are 64-bit integers. -/
theorem gate_closes_iff {fileKey : String} (found : world.job = some job)
    (hasFile : job.fileKey = some fileKey) (named : fileKey ≠ "")
    (stored : world.store.get? fileKey = some body)
    (verifier reader : Nat) :
    ∃ count after pc,
      (network env).solo verifier world .idle
          (requestCalls (.verify job.userId) count) =
        some (after, .api pc) ∧ pc.ended = true ∧
      (Described env job body world after ∧
          (Downloads env reader after → Passes env job body) ↔
        Verifiable env body) := by
  have verifies := fun count => @solo_verify env world job body fileKey
    verifier found hasFile named stored count
  have nothing : ¬ Described env job body world world := by
    intro described
    obtain ⟨records, _, appended⟩ := described_iff.mp described
    simp at appended
  cases parsed : env.csvParse body with
  | error error =>
      refine ⟨4, world, .threw error, ?_, rfl, ?_⟩
      · rw [verifies 0, verifyBody, parsed]
        rfl
      · constructor
        · exact fun closes => absurd closes.1 nothing
        · rintro ⟨records, isParsed, _⟩
          rw [parsed] at isParsed
          cases isParsed
  | ok records =>
      let result := verificationResult job.requestedRowLimit job.snapshotMaxId
        body.size (env.sha256 body) (verifyRecords job.snapshotMaxId records)
      have verdict : verifyBody env job.requestedRowLimit job.snapshotMaxId
          body.size body = .ok result := by
        rw [verifyBody, parsed]
      have verifiable : Verifiable env body ↔ result.storable = true := by
        rw [storable_iff, Verifiable, parsed]
        simp
      rw [verifiable]
      cases storable : result.storable with
      | true =>
          refine ⟨5, world.insertVerification result.toRow,
            .returned (.verification job (some result.toRow) true), ?_, rfl,
            fun _ => rfl, fun _ => ⟨⟨result, verdict, rfl⟩, ?_⟩⟩
          · rw [verifies 1, verdict]
            simp [solo_api, ApiPc.ended, apiStep, storable]
          · intro downloads
            obtain ⟨latest, latestEq, passed⟩ := passed_of_downloads downloads
            obtain rfl : result.toRow = latest := by
              simpa [World.latestVerification, World.insertVerification]
                using latestEq
            exact ⟨result, verdict, passed⟩
      | false =>
          refine ⟨5, world, .threw outOfRange, ?_, rfl, ?_⟩
          · rw [verifies 1, verdict]
            simp [solo_api, ApiPc.ended, apiStep, storable]
          · constructor
            · exact fun closes => absurd closes.1 nothing
            · intro impossible
              cases impossible

def emptiedWorld : World where
  now := 0
  records := oneRecord
  job := some
    { userId := "u"
      status := .completed
      snapshotMaxId := 1
      requestedRowLimit := 1
      batchSize := 1
      fileKey := some (finalKey smallEnv.exportJobId)
      updatedAt := 0 }
  store := ObjectStore.put ⟨[]⟩ (finalKey smallEnv.exportJobId) (utf8 "")

theorem gate_closes_iff_emptiedWorld :
    ∃ count after pc,
      (network smallEnv).solo 0 emptiedWorld .idle
          (requestCalls (.verify "u") count) =
        some (after, .api pc) ∧ pc.ended = true ∧
      after.verifications.length = 1 := by
  obtain ⟨count, after, pc, calls, ended, closes⟩ :=
    @gate_closes_iff smallEnv emptiedWorld _ _ (finalKey smallEnv.exportJobId)
      rfl rfl (by decide) (ObjectStore.get?_put_self _ _ _) 0 1
  have parsed : smallEnv.csvParse (utf8 "") = .ok [] :=
    parsesRfc4180_readCsv [] "" 0 .nil
      (fun _ none => absurd none List.not_mem_nil) (by simp)
  have verifiable : Verifiable smallEnv (utf8 "") :=
    ⟨[], parsed, fun _ none => absurd none List.not_mem_nil⟩
  obtain ⟨⟨result, _, appended⟩, _⟩ := closes.mpr verifiable
  exact ⟨count, after, pc, calls, ended, by rw [appended]; rfl⟩

/-- A parser with `relaxColumnCount: false`: a record of another width than
the first one is an error. -/
def strictCsv : CsvParser := fun body =>
  match readCsv body with
  | .error error => .error error
  | .ok records =>
      if records.all fun record =>
          records.head?.all fun first => record.length = first.length then
        .ok records
      else
        .error ⟨"Invalid Record Length", 500,
          "CSV_RECORD_INCONSISTENT_FIELDS_LENGTH", none⟩

def strictEnv : Env :=
  { smallEnv with csvParse := strictCsv }

def cutOff : Bytes :=
  utf8 (csvHeader ++ "1,r\n")

def exportOnce : List (Event Action Change) :=
  createSteps 1 ++ .act 1 .deliver :: calls 1 21

theorem downloads_of_passed {fileKey : String} {latest : ExportVerification}
    (reader : Nat) (found : world.job = some job)
    (completed : job.status = .completed)
    (hasFile : job.fileKey = some fileKey) (named : fileKey ≠ "")
    (latestEq : world.latestVerification = some latest)
    (passed : latest.passed = true) : Downloads env reader world := by
  let filename := "export-" ++ env.exportJobId ++ ".csv"
  refine ⟨job.userId, 2, world, env.signedUrl fileKey filename, filename,
    env.signedUrlTtl, latest.fileBytes, latest.sha256, ?_⟩
  have begins : (network env).solo reader world .idle
      (requestCalls (.download job.userId) 2) =
        (network env).solo reader world
          (.api (.findForDownload job.userId))
          (List.replicate 2 (.call .none)) := by
    rfl
  rw [begins]
  simp only [List.replicate, solo_api, ApiPc.ended, apiStep,
    getOwnedExportJob, found, afterFindForDownload, completed, hasFile, named,
    afterLatestForDownload, latestEq, passed, ne_eq, not_true_eq_false,
    Bool.not_true, Bool.false_eq_true, if_false, Network.solo_nil]
  rfl

/-- The final object of a completed export is replaced by a file that is cut
off; the verification throws, and the download is answered all the same. -/
theorem cutOff_downloads :
    ∃ target job error,
      (machine strictEnv).Exec Anything (smallStart oneRecord) exportOnce
        target ∧
      target.shared.job = some job ∧ job.status = .completed ∧
      (network strictEnv).solo 2
          (target.shared.putObject (finalKey strictEnv.exportJobId) cutOff)
          .idle (requestCalls (.verify job.userId) 4) =
        some (target.shared.putObject (finalKey strictEnv.exportJobId) cutOff,
          .api (.threw error)) ∧
      Downloads strictEnv 3
        (target.shared.putObject (finalKey strictEnv.exportJobId) cutOff) ∧
      ¬ Passes strictEnv job cutOff := by
  have computed : ((machine strictEnv).runChecked (fun _ _ => true)
      (smallStart oneRecord) exportOnce).any (fun target =>
        target.shared.job.any (fun job : ExportJob =>
          decide (job.status = .completed) &&
            decide (job.fileKey = some (finalKey strictEnv.exportJobId))) &&
          target.shared.latestVerification.any
            ExportVerification.passed) = true := by
    decide +kernel
  obtain ⟨target, runEq, ends⟩ := Machine.exists_of_any_runChecked computed
  simp only [Bool.and_eq_true, decide_eq_true_eq, Option.any_eq_true] at ends
  obtain ⟨⟨job, found, completed, hasFile⟩, latest, latestEq, passed⟩ := ends
  have named : finalKey strictEnv.exportJobId ≠ "" := by decide
  have unread : (strictCsv cutOff).toOption = none := by decide +kernel
  cases parsed : strictCsv cutOff with
  | ok records =>
      rw [parsed] at unread
      cases unread
  | error error =>
      have verdict : verifyBody strictEnv job.requestedRowLimit
          job.snapshotMaxId cutOff.size cutOff = .error error := by
        have strict : strictEnv.csvParse = strictCsv := rfl
        rw [verifyBody, strict, parsed]
      refine ⟨target, job, error, ?_, found, completed, ?_, ?_, ?_⟩
      · exact Machine.exec_of_runChecked (fun _ => True)
          (fun _ _ => trivial) (fun _ _ _ => trivial) trivial runEq
      · have verifies := @solo_verify strictEnv
          (target.shared.putObject (finalKey strictEnv.exportJobId) cutOff)
          job cutOff _ 2 found hasFile named
          (ObjectStore.get?_put_self _ _ _) 0
        rw [verdict] at verifies
        exact verifies
      · exact downloads_of_passed 3 found completed hasFile named latestEq
          passed
      · rintro ⟨result, isVerified, _⟩
        rw [verdict] at isVerified
        cases isVerified

end ExportVault
