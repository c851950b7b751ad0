import ExportVault.Spelling
import ExportVault.Exactness

/-!
# The exports of an installation, one by one

What happens to one export while the whole installation runs is a run of the
system of that export (`exportProjection`): a statement for another export
does not touch its rows, its queue entry or its objects, and a sweep of all
exports is for each of them a sweep of its own.  So what holds of every run of
the system of one export holds of all exports at once.
-/

namespace ExportVault

open Interleaving

/-- The rows, the queue entry and the objects of one export. -/
def Installation.part (installation : Installation) (id : String) : World :=
  (installation.view id).own id

def SweepPc.awaiting (cutoff : Int) (id : String)
    (rest : List (String × String)) : SweepPc :=
  match rest.lookup id with
  | some message => .markInterrupted cutoff message
  | none => .ended

def SweeperPc.toward (id : String) : SweeperPc → SweepPc
  | .findStalled cutoff => .findStalled cutoff
  | .visit cutoff _ visited pc rest =>
      if visited = id then pc else .awaiting cutoff id rest
  | _ => .ended

/-- What a process is doing for one export, named by its id. -/
def Activity.toward (env : Env) (id : String) : Activity → Proc
  | .idle => .idle
  | .on exportJobId proc =>
      if exportJobId = id then proc
      else if canonical exportJobId = id then proc.renamed (env.forExport id)
      else .idle
  | .sweep pc => .sweep (pc.toward id)

def Activity.moves (id : String) : Activity → Move → Option Action
  | .idle, .take exportJobId action =>
      if canonical exportJobId = id then some action else none
  | .on exportJobId _, .go action =>
      if canonical exportJobId = id then some action else none
  | .idle, .beginSweep => some .beginSweep
  | .sweep _, .scan _ => some (.call .none)
  | .sweep (.visit _ _ visited pc _), .go (.call fault) =>
      if visited = id then some (.call fault)
      else (pc.throws fault).map fun _ => .crash
  | .sweep _, .go action => some action
  | _, _ => none

def exportConfig (env : Env) (id : String)
    (config : Config Installation Activity) : Config World Proc where
  shared := config.shared.part id
  procs index := (config.procs index).toward env id

def exportEvent (id : String) (config : Config Installation Activity) :
    Event Move Change → Option (Event Action Change)
  | .act index move =>
      ((config.procs index).moves id move).map (.act index)
  | .env change => some (.env change)

/-- What a statement for one export never does to the rows it works on. -/
structure Stays (before after : World) : Prop where
  now : after.now = before.now
  records : after.records = before.records
  job : before.job ≠ none → after.job ≠ none

theorem Stays.refl (world : World) : Stays world world :=
  ⟨rfl, rfl, id⟩

theorem World.job_ne_none_iff {world : World} :
    world.job ≠ none ↔ world.terms ≠ none := by
  simp [World.terms]

section Statements

variable {env : Env} {world : World} {id : String}

theorem stays_runStep (kept : List String) (pc : RunPc) :
    Stays world (runStep env kept world pc).1 where
  now := runStep_now env kept world pc
  records := runStep_records env kept world pc
  job present := by
    rw [World.job_ne_none_iff] at present ⊢
    rwa [runStep_terms]

theorem stays_apiStep (pc : ApiPc) :
    Stays world (apiStep env world pc).1 where
  now := apiStep_now env world pc
  records := apiStep_records env world pc
  job present := by
    rw [World.job_ne_none_iff, apiStep_terms env (.inr present)]
    exact World.job_ne_none_iff.mp present

theorem stays_sweepStep (pc : SweepPc) :
    Stays world (sweepStep env world pc).1 where
  now := sweepStep_now env world pc
  records := sweepStep_records env world pc
  job present := by
    rw [World.job_ne_none_iff] at present ⊢
    rwa [sweepStep_terms]

theorem stays_sweepCall (pc : SweepPc) (fault : Fault) :
    Stays world (sweepCall env world pc fault).1 :=
  sweepCall_cases (motive := fun result => Stays world result.1)
    fault (stays_sweepStep _) (.refl _) (stays_sweepStep _)

theorem store_sweepCall (pc : SweepPc) (fault : Fault) :
    (sweepCall env world pc fault).1.store = world.store :=
  sweepCall_cases (motive := fun result => result.1.store = world.store)
    fault (sweepStep_store _ _ _) rfl (sweepStep_store _ _ _)

theorem fileKey_sweepCall (pc : SweepPc) (fault : Fault) :
    (sweepCall env world pc fault).1.fileKey = world.fileKey :=
  sweepCall_cases (motive := fun result => result.1.fileKey = world.fileKey)
    fault (sweepStep_fileKey _ _ _) rfl (sweepStep_fileKey _ _ _)

theorem Stays.passive {after : World} (same : world.SameExport after) :
    Stays world after where
  now := same.now
  records := same.records
  job present := by rwa [same.job]

variable {after : World} {index : Nat} {proc next : Proc} {action : Action}

theorem stays_actStep (step : ActStep env index world proc action after next) :
    Stays world after := by
  cases step with
  | run fault live =>
      exact runCall_cases (motive := fun result => Stays world result.1) fault
        (fun _ => stays_runStep _ _) (fun _ => .refl _)
        fun _ => stays_runStep _ _
  | api fault live =>
      exact apiCall_cases (motive := fun result => Stays world result.1) fault
        (stays_apiStep _) (fun _ => .refl _) fun _ => stays_apiStep _
  | sweep fault => exact stays_sweepCall _ _
  | queueFailed fault same entry => exact .passive same
  | deliver | settleReturned | settleThrew | stall =>
      exact .passive (world.sameExport_setEntry _)
  | _ => exact .refl _

theorem within_actStep (within : proc.Within env.exportJobId)
    (step : ActStep env index world proc action after next) :
    next.Within env.exportJobId := by
  cases step with
  | run fault live =>
      exact runCall_cases (motive := fun result =>
        result.2.Within env.exportJobId) fault
        (fun _ => within_runStep _ _) (fun _ => within_onError _ _ _)
        fun _ => within_onError _ _ _
  | stall held => exact within
  | start | deliver | runCrash | settleReturned =>
      exact fun _ member => nomatch member
  | _ => trivial

theorem fileOf_runStep (kept : List String) (pc : RunPc)
    (file : world.FileOf env.exportJobId) :
    (runStep env kept world pc).1.FileOf env.exportJobId := by
  intro key isFile
  rcases runStep_fileKey env kept world pc with same | final
  · exact file key (same ▸ isFile)
  · rw [final] at isFile
    obtain ⟨job, _, rfl⟩ := Option.map_eq_some_iff.mp isFile
    rfl

/-- A command does not change the file of the job; the row it inserts has
none. -/
theorem fileOf_apiStep_world (pc : ApiPc) (file : world.FileOf id) :
    (apiStep env world pc).1.FileOf id := by
  intro key isFile
  by_cases other : pc.inserts = false ∨ world.job ≠ none
  · rw [apiStep_fileKey env other] at isFile
    exact file key isFile
  · simp only [not_or, not_not, Bool.not_eq_false] at other
    obtain ⟨inserts, absent⟩ := other
    cases pc with
    | insertJob =>
        simp [apiStep, absent, World.fileKey, newExportJob] at isFile
    | _ => cases inserts

theorem World.FileOf.passive (file : world.FileOf id)
    (same : world.SameExport after) : after.FileOf id :=
  fun key isFile => file key (by rwa [World.fileKey, same.job] at isFile)

/-- A process that names the export by its id leaves it its file. -/
theorem fileOf_actStep (file : world.FileOf env.exportJobId)
    (step : ActStep env index world proc action after next) :
    after.FileOf env.exportJobId := by
  cases step with
  | run fault live =>
      exact runCall_cases (motive := fun result =>
        result.1.FileOf env.exportJobId) fault
        (fun kept => fileOf_runStep kept _ file) (fun _ => file)
        fun _ => fileOf_runStep [] _ file
  | api fault live =>
      exact apiCall_cases (motive := fun result =>
        result.1.FileOf env.exportJobId) fault (fileOf_apiStep_world _ file)
        (fun _ => file) fun _ => fileOf_apiStep_world _ file
  | sweep fault =>
      intro key isFile
      rw [fileKey_sweepCall] at isFile
      exact file key isFile
  | queueFailed fault same entry => exact file.passive same
  | deliver | settleReturned | settleThrew | stall =>
      exact file.passive (world.sameExport_setEntry _)
  | _ => exact file

theorem opens_begin (request : Request) : request.begin.opens = none := by
  cases request with
  | create userId rowLimit =>
      simp only [Request.begin]
      repeat' split
      all_goals rfl
  | _ => rfl

/-- A command opens the file of its job only. -/
theorem opened_actStep (file : world.FileOf id) (opened : proc.FileOf id)
    (step : ActStep env index world proc action after next) :
    next.FileOf id := by
  cases step with
  | api fault live =>
      exact apiCall_cases (motive := fun result => result.2.FileOf id) fault
        (fileOf_apiStep file opened) (fun _ _ opens => nomatch opens)
        fun _ _ opens => nomatch opens
  | request request =>
      intro key opens
      rw [opens_begin] at opens
      cases opens
  | apiCrash => exact fun _ opens => nomatch opens
  | _ => trivial

/-- The objects of the other exports stay as they are. -/
theorem others_actStep {other : String}
    (within : proc.Within env.exportJobId)
    (foreign : ∀ key, ownKey env.exportJobId key = true →
      ownKey other key = false)
    (step : ActStep env index world proc action after next) :
    after.store.own other = world.store.own other := by
  cases step with
  | run fault live =>
      exact runCall_cases (motive := fun result =>
        result.1.store.own other = world.store.own other) fault
        (fun kept => runStep_others kept within foreign) (fun _ => rfl)
        fun _ => runStep_others [] within foreign
  | api fault live =>
      refine congrArg (ObjectStore.own · other) ?_
      exact apiCall_cases (motive := fun result =>
        result.1.store = world.store) fault (apiStep_store _ _ _)
        (fun _ => rfl) fun _ => apiStep_store _ _ _
  | sweep fault => rw [store_sweepCall]
  | queueFailed fault same entry => rw [same.store]
  | _ => rfl

/-- A command that does not touch the queue goes on without it. -/
theorem queueless_act (quiet : proc.queueless = true)
    (stepEq : act env index world proc action = some (after, next)) :
    next.queueless = true ∧ after.entry = world.entry ∧
      after.fileKey = world.fileKey := by
  cases proc with
  | api pc =>
      have calm : pc.queueless = true := quiet
      have unchanged : (apiStep env world pc).1.entry = world.entry :=
        entry_apiStep calm
      have sameFile : (apiStep env world pc).1.fileKey = world.fileKey :=
        apiStep_fileKey env (.inl (inserts_of_queueless calm))
      cases actStep_of_act stepEq with
      | api fault live =>
          exact apiCall_cases (motive := fun result =>
            result.2.queueless = true ∧ result.1.entry = world.entry ∧
              result.1.fileKey = world.fileKey) fault
            ⟨queueless_apiStep calm, unchanged, sameFile⟩
            (fun _ => ⟨rfl, rfl, rfl⟩) fun _ => ⟨rfl, unchanged, sameFile⟩
      | apiCrash => exact ⟨rfl, rfl, rfl⟩
  | _ => cases quiet

end Statements

/-- The keys of `export_jobs` are listed once each, in lower case. -/
structure Installation.Keyed (installation : Installation) : Prop where
  nodup : installation.ids.Nodup
  listed : ∀ id, id ∈ installation.ids ↔ (installation.rows id).job ≠ none
  named : ∀ id ∈ installation.ids, canonical id = id

/-- The export names an object of its own, and the queue knows it by its id
only. -/
structure Installation.Tidy (id : String) (installation : Installation) :
    Prop where
  keyed : installation.Keyed
  file : (installation.view id).FileOf id
  queue : ∀ exportJobId, canonical exportJobId = id → exportJobId ≠ id →
    installation.queue exportJobId = none

section Rows

variable {installation : Installation} {exportJobId id : String}
variable {after : World}

theorem view_absorb_self
    (stays : Stays (installation.view exportJobId) after) :
    (installation.absorb exportJobId after).view exportJobId = after := by
  have now : installation.now = after.now := stays.now.symm
  have records : installation.records = after.records := stays.records.symm
  simp only [Installation.view, Installation.absorb, Function.update_self,
    World.exportRows, now, records]

theorem rows_absorb_of_ne (different : id ≠ canonical exportJobId) :
    (installation.absorb exportJobId after).rows id = installation.rows id :=
  Function.update_of_ne different ..

theorem queue_absorb_of_ne (different : id ≠ exportJobId) :
    (installation.absorb exportJobId after).queue id =
      installation.queue id :=
  Function.update_of_ne different ..

theorem part_absorb_self
    (stays : Stays (installation.view exportJobId) after) :
    (installation.absorb exportJobId after).part exportJobId =
      after.own exportJobId := by
  rw [Installation.part, view_absorb_self stays]

/-- Another spelling of an id reads the same rows and another entry. -/
theorem view_setEntry (same : canonical exportJobId = canonical id) :
    (installation.view exportJobId).setEntry (installation.queue id) =
      installation.view id := by
  simp only [Installation.view, World.setEntry, same]

/-- What is written under another spelling of the id. -/
theorem part_absorb_spelled (same : canonical exportJobId = canonical id)
    (different : exportJobId ≠ id)
    (stays : Stays (installation.view exportJobId) after) :
    (installation.absorb exportJobId after).part id =
      (after.setEntry (installation.queue id)).own id := by
  have now : installation.now = after.now := stays.now.symm
  have records : installation.records = after.records := stays.records.symm
  rw [Installation.part]
  congr 1
  simp only [Installation.view, queue_absorb_of_ne different.symm, ← same]
  simp only [Installation.absorb, Function.update_self, World.exportRows,
    World.setEntry, now, records]

theorem part_absorb_of_ne (different : canonical id ≠ canonical exportJobId)
    (untouched : after.store.own id = installation.store.own id) :
    (installation.absorb exportJobId after).part id =
      installation.part id := by
  have texts : id ≠ exportJobId := by
    rintro rfl
    exact different rfl
  simp only [Installation.part, World.own, World.withStore,
    Installation.view, rows_absorb_of_ne different, queue_absorb_of_ne texts]
  simp only [Installation.absorb, untouched]

theorem Installation.Keyed.absorb (keyed : installation.Keyed)
    (stays : Stays (installation.view exportJobId) after) :
    (installation.absorb exportJobId after).Keyed where
  nodup := by
    simp only [Installation.absorb]
    split
    · next inserted =>
        simp only [Bool.and_eq_true, Option.isNone_iff_eq_none] at inserted
        refine List.nodup_append.mpr ⟨keyed.nodup, List.nodup_singleton _, ?_⟩
        rintro listed member _ last rfl
        rw [List.mem_singleton.mp last] at member
        exact (keyed.listed _).mp member inserted.1
    · exact keyed.nodup
  listed id := by
    by_cases same : id = canonical exportJobId
    · subst same
      have now : ((installation.absorb exportJobId after).rows
          (canonical exportJobId)).job = after.job := by
        simp [Installation.absorb, World.exportRows]
      rw [now]
      cases before : (installation.rows (canonical exportJobId)).job with
      | none =>
          have absent : canonical exportJobId ∉ installation.ids :=
            fun member => (keyed.listed _).mp member before
          cases job : after.job with
          | none => simp [Installation.absorb, before, job, absent]
          | some row => simp [Installation.absorb, before, job]
      | some row =>
          have present : canonical exportJobId ∈ installation.ids :=
            (keyed.listed _).mpr (by simp [before])
          have still : after.job ≠ none :=
            stays.job (by simp [Installation.view, before])
          simp [Installation.absorb, before, present, still]
    · rw [rows_absorb_of_ne same, ← keyed.listed id]
      simp only [Installation.absorb]
      split
      · simp [same]
      · rfl
  named id member := by
    simp only [Installation.absorb] at member
    split at member
    · rcases List.mem_append.mp member with before | last
      · exact keyed.named id before
      · rw [List.mem_singleton.mp last, canonical_canonical]
    · exact keyed.named id member

end Rows

section Sweeps

variable {exportJobId : String}

theorem SweeperPc.toward_loopTop (cutoff : Int) (count : Nat)
    (rest : List (String × String)) :
    (SweeperPc.loopTop cutoff count rest).toward exportJobId =
      .awaiting cutoff exportJobId rest := by
  match rest with
  | [] => rfl
  | (visited, message) :: rest =>
      by_cases here : visited = exportJobId
      · subst here
        simp [loopTop, toward, SweepPc.awaiting]
      · have notHere : (exportJobId == visited) = false := by
          simpa using Ne.symm here
        simp [loopTop, toward, SweepPc.awaiting, here, List.lookup_cons,
          notHere]

theorem SweepPc.awaiting_of_notMem {cutoff : Int}
    {rest : List (String × String)} (absent : exportJobId ∉ rest.map Prod.fst) :
    SweepPc.awaiting cutoff exportJobId rest = .ended := by
  have none : rest.lookup exportJobId = none := by
    rw [List.lookup_eq_none_iff]
    intro entry member
    simp only [bne_iff_ne, ne_eq]
    rintro rfl
    exact absent (List.mem_map_of_mem member)
  rw [awaiting, none]

/-- The export whose turn is over is not visited again. -/
theorem SweeperPc.toward_goOn_self {cutoff : Int} {count : Nat}
    {rest : List (String × String)} (absent : exportJobId ∉ rest.map Prod.fst)
    (pc : SweepPc) :
    (SweeperPc.goOn cutoff count exportJobId rest pc).toward exportJobId =
      pc := by
  cases pc with
  | ended =>
      rw [goOn, toward_loopTop, SweepPc.awaiting_of_notMem absent]
  | _ => simp [goOn, toward]

theorem SweeperPc.toward_goOn_of_ne {cutoff : Int} {count : Nat}
    {rest : List (String × String)} {visited : String}
    (different : visited ≠ exportJobId) (pc : SweepPc) :
    (SweeperPc.goOn cutoff count visited rest pc).toward exportJobId =
      .awaiting cutoff exportJobId rest := by
  cases pc with
  | ended => rw [goOn, toward_loopTop]
  | _ => simp [goOn, toward, different]

/-- What the scan finds for one export. -/
theorem lookup_scanned (installation : Installation) (order : List String) :
    (installation.scanned order).lookup exportJobId =
      if exportJobId ∈ order then
        (installation.rows exportJobId).job.map stalledMessage
      else none := by
  induction order with
  | nil => rfl
  | cons id rest inductionHypothesis =>
      have later : (installation.scanned rest).lookup exportJobId =
          if exportJobId ∈ rest then
            (installation.rows exportJobId).job.map stalledMessage
          else none := inductionHypothesis
      simp only [Installation.scanned] at later ⊢
      by_cases here : exportJobId = id
      · subst here
        cases found : (installation.rows exportJobId).job with
        | none => simp [found, later]
        | some job => simp [found]
      · have notHere : (exportJobId == id) = false := by simpa using here
        cases found : (installation.rows id).job with
        | none => simp [found, later, here]
        | some job =>
            simp [found, later, here, List.lookup_cons,
              notHere]

end Sweeps

inductive MoveStep (env : Env) (index : Nat) (installation : Installation) :
    Activity → Move → Installation → Activity → Prop where
  | take {exportJobId : String} {action : Action} {after : World} {next : Proc}
      (accepted : action.accepts exportJobId = true)
      (step : act (env.forExport exportJobId) index
        (installation.view exportJobId) .idle action = some (after, next)) :
      MoveStep env index installation .idle (.take exportJobId action)
        (installation.absorb exportJobId after) (.of exportJobId next)
  | go {exportJobId : String} {proc next : Proc} {action : Action}
      {after : World}
      (step : act (env.forExport exportJobId) index
        (installation.view exportJobId) proc action = some (after, next)) :
      MoveStep env index installation (.on exportJobId proc) (.go action)
        (installation.absorb exportJobId after) (.of exportJobId next)
  | beginSweep :
      MoveStep env index installation .idle .beginSweep installation
        (.sweep (.findStalled
          (installation.now - env.stallTimeoutSeconds * 1000)))
  | scan {cutoff : Int} {order : List String}
      (found : order.Perm (installation.stalledIds cutoff)) :
      MoveStep env index installation (.sweep (.findStalled cutoff))
        (.scan order) installation
        (.sweep (.loopTop cutoff order.length (installation.scanned order)))
  | scanFails {cutoff : Int} {fault : Fault} (fails : fault.fails = true)
      (error : AppError) :
      MoveStep env index installation (.sweep (.findStalled cutoff))
        (.go (.call fault)) installation (.sweep (.threw error))
  | visit {cutoff : Int} {count : Nat} {visited : String} {pc : SweepPc}
      {rest : List (String × String)} (fault : Fault)
      (answers : pc.throws fault = none) :
      MoveStep env index installation
        (.sweep (.visit cutoff count visited pc rest)) (.go (.call fault))
        (installation.absorb visited (sweepCall (env.forExport visited)
          (installation.view visited) pc fault).1)
        (.sweep (.goOn cutoff count visited rest
          (sweepCall (env.forExport visited) (installation.view visited) pc
            fault).2))
  | visitFails {cutoff : Int} {count : Nat} {visited : String} {pc : SweepPc}
      {rest : List (String × String)} (fault : Fault) {error : AppError}
      (fails : pc.throws fault = some error) :
      MoveStep env index installation
        (.sweep (.visit cutoff count visited pc rest)) (.go (.call fault))
        (installation.absorb visited (sweepCall (env.forExport visited)
          (installation.view visited) pc fault).1)
        (.sweep (.threw error))
  | sweepCrash {pc : SweeperPc} (error : AppError) :
      MoveStep env index installation (.sweep pc) (.go .crash) installation
        (.sweep (.threw error))

theorem moveStep_of_act {env : Env} {index : Nat}
    {installation after : Installation} {activity next : Activity}
    {move : Move}
    (stepEq : installation.act env index activity move = some (after, next)) :
    MoveStep env index installation activity move after next := by
  cases activity with
  | idle =>
      cases move with
      | take exportJobId action =>
          simp only [Installation.act, Option.ite_none_right_eq_some,
            Installation.actOn, Option.map_eq_some_iff, Prod.mk.injEq,
            Prod.exists] at stepEq
          obtain ⟨accepted, world, proc, step, rfl, rfl⟩ := stepEq
          exact .take accepted step
      | beginSweep =>
          obtain ⟨rfl, rfl⟩ := Prod.mk.inj (Option.some.inj stepEq)
          exact .beginSweep
      | _ => cases stepEq
  | on exportJobId proc =>
      cases move with
      | go action =>
          simp only [Installation.act, Installation.actOn,
            Option.map_eq_some_iff, Prod.mk.injEq, Prod.exists] at stepEq
          obtain ⟨world, proc, step, rfl, rfl⟩ := stepEq
          exact .go step
      | _ => cases stepEq
  | sweep pc =>
      cases move with
      | scan order =>
          cases pc with
          | findStalled cutoff =>
              simp only [Installation.act, sweeperScan,
                Option.map_eq_some_iff, Option.ite_none_right_eq_some,
                Prod.mk.injEq] at stepEq
              obtain ⟨_, ⟨found, eq⟩, rfl, rfl⟩ := stepEq
              obtain rfl := Option.some.inj eq
              exact .scan found
          | _ => cases stepEq
      | go action =>
          cases action with
          | call fault =>
              cases pc with
              | findStalled cutoff =>
                  cases fault <;>
                    simp only [Installation.act, sweeperCall, Option.map_none,
                      Option.map_some, Option.some.injEq, Prod.mk.injEq,
                      reduceCtorEq] at stepEq
                  all_goals
                    obtain ⟨rfl, rfl⟩ := stepEq
                    exact .scanFails rfl _
              | visit cutoff count visited pc rest =>
                  simp only [Installation.act, sweeperCall, Option.map_some,
                    Option.some.injEq, Prod.mk.injEq] at stepEq
                  obtain ⟨rfl, rfl⟩ := stepEq
                  cases answered : pc.throws fault with
                  | none => exact .visit fault answered
                  | some error => exact .visitFails fault answered
              | _ => cases stepEq
          | crash =>
              simp only [Installation.act, Option.some.injEq,
                Prod.mk.injEq] at stepEq
              obtain ⟨rfl, rfl⟩ := stepEq
              exact .sweepCrash _
          | _ => cases pc <;> cases stepEq
      | _ => cases pc <;> cases stepEq

/-! ## Tidy installations -/

/-- A sweep has each export before it once, by its id. -/
def Activity.Scanned : Activity → Prop
  | .sweep (.visit _ _ visited _ rest) =>
      (visited :: rest.map Prod.fst).Nodup ∧
        ∀ id ∈ visited :: rest.map Prod.fst, canonical id = id
  | _ => True

/-- A process deletes only objects under the text it was given.  One that
works on the given export opens its file only, and if it has another spelling
of the id it is a command that leaves the queue alone. -/
def Activity.Tidy (id : String) : Activity → Prop
  | .on exportJobId proc =>
      isUuid exportJobId = true ∧ proc.Within exportJobId ∧
        (canonical exportJobId = id →
          proc.FileOf id ∧ (exportJobId = id ∨ proc.queueless = true))
  | _ => True

/-- What holds of the rows and the sweeps throughout. -/
structure KeyedConfig (config : Config Installation Activity) : Prop where
  shared : config.shared.Keyed
  procs : ∀ index, (config.procs index).Scanned

/-- What holds throughout, for the export with the given id. -/
structure TidyConfig (id : String) (config : Config Installation Activity) :
    Prop where
  shared : config.shared.Tidy id
  scanned : ∀ index, (config.procs index).Scanned
  procs : ∀ index, (config.procs index).Tidy id

theorem TidyConfig.keyed {id : String}
    {config : Config Installation Activity} (tidy : TidyConfig id config) :
    KeyedConfig config :=
  ⟨tidy.shared.keyed, tidy.scanned⟩

section Steps

variable {env : Env} {index : Nat} {installation after : Installation}
variable {activity next : Activity} {move : Move} {id exportJobId : String}
variable {proc following : Proc} {action : Action} {world : World}

theorem Activity.scanned_of (exportJobId : String) (proc : Proc) :
    (Activity.of exportJobId proc).Scanned := by
  cases proc <;> trivial

theorem Activity.scanned_loopTop {cutoff : Int} {count : Nat}
    {rest : List (String × String)} (distinct : (rest.map Prod.fst).Nodup)
    (named : ∀ id ∈ rest.map Prod.fst, canonical id = id) :
    (Activity.sweep (.loopTop cutoff count rest)).Scanned := by
  match rest with
  | [] => trivial
  | _ :: _ => exact ⟨distinct, named⟩

theorem Activity.scanned_goOn {cutoff : Int} {count : Nat} {visited : String}
    {rest : List (String × String)}
    (distinct : (visited :: rest.map Prod.fst).Nodup)
    (named : ∀ id ∈ visited :: rest.map Prod.fst, canonical id = id)
    (pc : SweepPc) :
    (Activity.sweep (.goOn cutoff count visited rest pc)).Scanned := by
  cases pc with
  | ended =>
      exact scanned_loopTop (List.nodup_cons.mp distinct).2
        fun id member => named id (List.mem_cons_of_mem _ member)
  | _ => exact ⟨distinct, named⟩

theorem scanned_sublist (installation : Installation) (order : List String) :
    ((installation.scanned order).map Prod.fst).Sublist order := by
  induction order with
  | nil => exact List.Sublist.refl _
  | cons id rest inductionHypothesis =>
      simp only [Installation.scanned] at inductionHypothesis ⊢
      cases found : (installation.rows id).job with
      | none => simpa [found] using inductionHypothesis.cons id
      | some job => simpa [found] using inductionHypothesis

/-- The exports a scan finds, each of them once. -/
theorem nodup_scanned (keyed : installation.Keyed) {cutoff : Int}
    {order : List String}
    (found : order.Perm (installation.stalledIds cutoff)) :
    ((installation.scanned order).map Prod.fst).Nodup := by
  have distinct : order.Nodup :=
    found.nodup_iff.mpr (keyed.nodup.filter _)
  exact distinct.sublist (scanned_sublist installation order)

theorem named_scanned (keyed : installation.Keyed) {cutoff : Int}
    {order : List String}
    (found : order.Perm (installation.stalledIds cutoff)) :
    ∀ id ∈ (installation.scanned order).map Prod.fst, canonical id = id := by
  intro id member
  have listed := (scanned_sublist installation order).subset member
  rw [found.mem_iff, Installation.stalledIds, List.mem_filter] at listed
  exact keyed.named id listed.1

/-- Every statement keeps the list of the exports and of those a sweep has
before it. -/
theorem keyed_moveStep (keyed : installation.Keyed) (own : activity.Scanned)
    (step : MoveStep env index installation activity move after next) :
    after.Keyed ∧ next.Scanned := by
  cases step with
  | take accepted step | go step =>
      exact ⟨keyed.absorb (stays_actStep (actStep_of_act step)),
        Activity.scanned_of _ _⟩
  | scan found =>
      exact ⟨keyed, Activity.scanned_loopTop (nodup_scanned keyed found)
        (named_scanned keyed found)⟩
  | visit fault answers =>
      exact ⟨keyed.absorb (stays_sweepCall _ _),
        Activity.scanned_goOn own.1 own.2 _⟩
  | visitFails fault fails =>
      exact ⟨keyed.absorb (stays_sweepCall _ _), trivial⟩
  | _ => exact ⟨keyed, trivial⟩

theorem uuid_of_accepts (accepted : action.accepts exportJobId = true) :
    isUuid exportJobId = true := by
  cases action with
  | beginSweep => cases accepted
  | request request =>
      cases request with
      | create userId rowLimit =>
          simp only [Action.accepts, Bool.and_eq_true] at accepted
          exact accepted.1
      | _ => exact accepted
  | _ => exact accepted

theorem Proc.within_idle (exportJobId : String) :
    Proc.Within exportJobId .idle :=
  trivial

/-- The processes of an export delete its own objects only. -/
theorem within_act (within : proc.Within exportJobId)
    (stepEq : act (env.forExport exportJobId) index
      (installation.view exportJobId) proc action =
        some (world, following)) : following.Within exportJobId := by
  have before : proc.Within (env.forExport exportJobId).exportJobId := within
  have after := within_actStep before (actStep_of_act stepEq)
  exact after

theorem fileOf_act (file : (installation.view exportJobId).FileOf exportJobId)
    (stepEq : act (env.forExport exportJobId) index
      (installation.view exportJobId) proc action =
        some (world, following)) : world.FileOf exportJobId := by
  have before : (installation.view exportJobId).FileOf
      (env.forExport exportJobId).exportJobId := file
  have after := fileOf_actStep before (actStep_of_act stepEq)
  exact after

theorem Activity.tidy_of (uuid : isUuid exportJobId = true)
    (within : proc.Within exportJobId)
    (own : canonical exportJobId = id →
      proc.FileOf id ∧ (exportJobId = id ∨ proc.queueless = true)) :
    (Activity.of exportJobId proc).Tidy id := by
  cases proc with
  | idle => trivial
  | _ => exact ⟨uuid, within, own⟩

/-- What a process turns to under another spelling of the id: nothing is in
the queue under that name, and nothing goes there. -/
theorem queueless_take (tidy : installation.Tidy id)
    (same : canonical exportJobId = id) (different : exportJobId ≠ id)
    (accepted : action.accepts exportJobId = true)
    (calm : action.enqueues = false)
    (stepEq : act (env.forExport exportJobId) index
      (installation.view exportJobId) .idle action =
        some (world, following)) :
    following.queueless = true ∧ world = installation.view exportJobId ∧
      act (env.forExport id) index (installation.part id) .idle action =
        some (installation.part id,
          following.renamed (env.forExport id)) := by
  cases action with
  | start => cases calm
  | deliver =>
      have noEntry : (installation.view exportJobId).entry = none :=
        tidy.queue exportJobId same different
      simp [act, World.readyEntry, noEntry] at stepEq
  | request request =>
      obtain ⟨rfl, rfl⟩ := Prod.mk.inj (Option.some.inj stepEq)
      cases request with
      | create userId rowLimit =>
          simp only [Action.accepts, Bool.and_eq_true,
            decide_eq_true_eq] at accepted
          exact absurd (accepted.2.symm.trans same) different
      | resume => cases calm
      | _ => exact ⟨rfl, rfl, rfl⟩
  | beginSweep => cases accepted
  | _ => cases stepEq

theorem tidy_absorb_of_ne (tidy : installation.Tidy id)
    (different : canonical exportJobId ≠ id) (named : canonical id = id)
    (stays : Stays (installation.view exportJobId) world) :
    (installation.absorb exportJobId world).Tidy id where
  keyed := tidy.keyed.absorb stays
  file key isFile := by
    refine tidy.file key ?_
    have elsewhere : canonical id ≠ canonical exportJobId := by
      rw [named]
      exact different.symm
    simpa only [World.fileKey, Installation.view,
      rows_absorb_of_ne elsewhere] using isFile
  queue other same apart := by
    have texts : other ≠ exportJobId := by
      rintro rfl
      exact different same
    rw [queue_absorb_of_ne texts]
    exact tidy.queue other same apart

theorem tidy_absorb_self (tidy : installation.Tidy id)
    (file : world.FileOf id) (stays : Stays (installation.view id) world) :
    (installation.absorb id world).Tidy id where
  keyed := tidy.keyed.absorb stays
  file := by rwa [view_absorb_self stays]
  queue other same apart := by
    rw [queue_absorb_of_ne apart]
    exact tidy.queue other same apart

theorem tidy_absorb_spelled (tidy : installation.Tidy id)
    (same : canonical exportJobId = id) (different : exportJobId ≠ id)
    (named : canonical id = id)
    (entry : world.entry = (installation.view exportJobId).entry)
    (fileKey : world.fileKey = (installation.view exportJobId).fileKey)
    (stays : Stays (installation.view exportJobId) world) :
    (installation.absorb exportJobId world).Tidy id where
  keyed := tidy.keyed.absorb stays
  file key isFile := by
    refine tidy.file key ?_
    have texts : canonical exportJobId = canonical id := by rw [same, named]
    have rows : ((installation.absorb exportJobId world).view id).fileKey =
        world.fileKey := by
      simp only [World.fileKey, Installation.view, ← texts]
      simp only [Installation.absorb, Function.update_self, World.exportRows]
    have before : (installation.view exportJobId).fileKey =
        (installation.view id).fileKey := by
      simp only [World.fileKey, Installation.view, texts]
    rw [← before, ← fileKey, ← rows]
    exact isFile
  queue other spelled apart := by
    by_cases here : other = exportJobId
    · subst here
      simp only [Installation.absorb, Function.update_self, entry]
      exact tidy.queue other spelled apart
    · rw [queue_absorb_of_ne here]
      exact tidy.queue other spelled apart

/-- Another spelling of the id reads the same row. -/
theorem fileOf_view (tidy : installation.Tidy id)
    (texts : canonical exportJobId = canonical id) :
    (installation.view exportJobId).FileOf id := by
  rw [World.FileOf, World.fileKey, Installation.view, texts]
  exact tidy.file

/-- A statement of a process that names its export keeps the installation
tidy. -/
theorem tidy_act (tidy : installation.Tidy id) (named : canonical id = id)
    (uuid : isUuid exportJobId = true) (within : proc.Within exportJobId)
    (own : canonical exportJobId = id →
      proc.FileOf id ∧ (exportJobId = id ∨ proc.queueless = true))
    (stepEq : act (env.forExport exportJobId) index
      (installation.view exportJobId) proc action =
        some (world, following)) :
    (installation.absorb exportJobId world).Tidy id ∧
      (Activity.of exportJobId following).Tidy id := by
  have acts := actStep_of_act stepEq
  have stays := stays_actStep acts
  have inside := within_act within stepEq
  by_cases same : canonical exportJobId = id
  · obtain ⟨opened, spelled⟩ := own same
    by_cases here : exportJobId = id
    · subst here
      exact ⟨tidy_absorb_self tidy (fileOf_act tidy.file stepEq) stays,
        Activity.tidy_of uuid inside fun _ =>
          ⟨opened_actStep tidy.file opened acts, .inl rfl⟩⟩
    · obtain ⟨quiet, entry, fileKey⟩ :=
        queueless_act (spelled.resolve_left here) stepEq
      have file := fileOf_view tidy (same.trans named.symm)
      exact ⟨tidy_absorb_spelled tidy same here named entry fileKey stays,
        Activity.tidy_of uuid inside fun _ =>
          ⟨opened_actStep file opened acts, .inr quiet⟩⟩
  · exact ⟨tidy_absorb_of_ne tidy same named stays,
      Activity.tidy_of uuid inside fun impossible => absurd impossible same⟩

theorem tidy_sweepCall (tidy : installation.Tidy id)
    (named : canonical id = id) {visited : String}
    (visitedNamed : canonical visited = visited) (pc : SweepPc)
    (fault : Fault) :
    (installation.absorb visited (sweepCall (env.forExport visited)
      (installation.view visited) pc fault).1).Tidy id := by
  by_cases here : visited = id
  · subst here
    refine tidy_absorb_self tidy (fun key isFile => ?_) (stays_sweepCall _ _)
    rw [fileKey_sweepCall] at isFile
    exact tidy.file key isFile
  · refine tidy_absorb_of_ne tidy ?_ named (stays_sweepCall _ _)
    rwa [visitedNamed]

/-- A statement keeps the installation tidy, and leaves its process tidy. -/
theorem tidy_moveStep (tidy : installation.Tidy id)
    (named : canonical id = id) (own : activity.Tidy id)
    (scanned : activity.Scanned)
    (spelled : ∀ exportJobId action, move = .take exportJobId action →
      canonical exportJobId = id → action.enqueues = true →
        exportJobId = id)
    (step : MoveStep env index installation activity move after next) :
    after.Tidy id ∧ next.Tidy id := by
  cases step with
  | @take exportJobId action world following accepted step =>
      have uuid := uuid_of_accepts accepted
      by_cases other : canonical exportJobId = id ∧ exportJobId ≠ id
      · obtain ⟨same, different⟩ := other
        have calm : action.enqueues = false := by
          rw [Bool.eq_false_iff]
          exact fun enqueues =>
            different (spelled _ _ rfl same enqueues)
        obtain ⟨quiet, rfl, _⟩ :=
          queueless_take tidy same different accepted calm step
        refine ⟨tidy_absorb_spelled tidy same different named rfl rfl
          (.refl _), Activity.tidy_of uuid ?_ fun _ => ⟨?_, .inr quiet⟩⟩
        · exact within_act (Proc.within_idle _) step
        · have file := fileOf_view tidy (same.trans named.symm)
          have opened : Proc.FileOf id .idle := trivial
          exact opened_actStep file opened (actStep_of_act step)
      · refine tidy_act tidy named uuid (Proc.within_idle _) (fun same => ?_)
          step
        exact ⟨trivial, .inl (not_not.mp fun different =>
          other ⟨same, different⟩)⟩
  | go step => exact tidy_act tidy named own.1 own.2.1 own.2.2 step
  | visit fault answers | visitFails fault fails =>
      exact ⟨tidy_sweepCall tidy named (scanned.2 _ List.mem_cons_self) _ _,
        trivial⟩
  | _ => exact ⟨tidy, trivial⟩

end Steps

/-! ## The projection -/

section Follow

variable {env : Env} {index : Nat} {installation after : Installation}
variable {id exportJobId : String} {proc following : Proc}
variable {action : Action} {world : World}

theorem toward_on_self (id : String) (proc : Proc) :
    (Activity.on id proc).toward env id = proc := by
  simp [Activity.toward]

theorem toward_on_spelled (same : canonical exportJobId = id)
    (different : exportJobId ≠ id) (proc : Proc) :
    (Activity.on exportJobId proc).toward env id =
      proc.renamed (env.forExport id) := by
  simp [Activity.toward, same, different]

theorem toward_on_of_ne (named : canonical id = id)
    (different : canonical exportJobId ≠ id) (proc : Proc) :
    (Activity.on exportJobId proc).toward env id = .idle := by
  have texts : exportJobId ≠ id := by
    rintro rfl
    exact different named
  simp [Activity.toward, texts, different]

theorem toward_sweep (id : String) (pc : SweeperPc) :
    (Activity.sweep pc).toward env id = .sweep (pc.toward id) :=
  rfl

theorem toward_visit_self (id : String) (cutoff : Int) (count : Nat)
    (pc : SweepPc) (rest : List (String × String)) :
    (SweeperPc.visit cutoff count id pc rest).toward id = pc := by
  simp [SweeperPc.toward]

theorem toward_visit_of_ne {visited : String} (different : visited ≠ id)
    (cutoff : Int) (count : Nat) (pc : SweepPc)
    (rest : List (String × String)) :
    (SweeperPc.visit cutoff count visited pc rest).toward id =
      .awaiting cutoff id rest := by
  simp [SweeperPc.toward, different]

/-- A process that is idle again is idle for every export. -/
theorem toward_of (exportJobId id : String) (proc : Proc) :
    (Activity.of exportJobId proc).toward env id =
      (Activity.on exportJobId proc).toward env id := by
  cases proc with
  | idle => simp [Activity.of, Activity.toward, Proc.renamed]
  | _ => rfl

/-- A statement on the export is a statement of its system. -/
theorem part_act (tidy : installation.Tidy id) (opened : proc.FileOf id)
    (step : act (env.forExport id) index (installation.view id) proc action =
      some (world, following)) :
    act (env.forExport id) index (installation.part id) proc action =
      some ((installation.absorb id world).part id, following) := by
  have file : (installation.view id).FileOf (env.forExport id).exportJobId :=
    tidy.file
  have stays : Stays (installation.view id) world :=
    stays_actStep (actStep_of_act step)
  have same := act_own index action file opened
  rw [step] at same
  rw [part_absorb_self stays]
  exact same

/-- So is one under another spelling of the id. -/
theorem part_act_spelled (tidy : installation.Tidy id)
    (named : canonical id = id) (same : canonical exportJobId = id)
    (different : exportJobId ≠ id) (opened : proc.FileOf id)
    (quiet : proc.queueless = true)
    (step : act (env.forExport exportJobId) index
      (installation.view exportJobId) proc action =
        some (world, following)) :
    act (env.forExport id) index (installation.part id)
        (proc.renamed (env.forExport id)) action =
      some ((installation.absorb exportJobId world).part id,
        following.renamed (env.forExport id)) := by
  have texts : canonical exportJobId = canonical id := by rw [same, named]
  have stays : Stays (installation.view exportJobId) world :=
    stays_actStep (actStep_of_act step)
  have renames : act (env.forExport id) index (installation.view id)
      (proc.renamed (env.forExport id)) action =
        some (world.setEntry (installation.queue id),
          following.renamed (env.forExport id)) := by
    rw [← view_setEntry texts]
    exact act_renamed_forExport (installation.queue id) quiet opened step
  have file : (installation.view id).FileOf (env.forExport id).exportJobId :=
    tidy.file
  have openedThen : (proc.renamed (env.forExport id)).FileOf id :=
    Proc.FileOf.renamed opened
  have own := act_own index action file openedThen
  rw [renames] at own
  rw [part_absorb_spelled texts different stays]
  exact own

/-- A statement on another export is none of its system. -/
theorem part_others (uuid : isUuid id = true) (named : canonical id = id)
    (otherUuid : isUuid exportJobId = true)
    (different : canonical exportJobId ≠ id)
    (within : proc.Within exportJobId)
    (step : act (env.forExport exportJobId) index
      (installation.view exportJobId) proc action =
        some (world, following)) :
    (installation.absorb exportJobId world).part id =
      installation.part id := by
  have acts := actStep_of_act step
  have texts : id ≠ exportJobId := by
    rintro rfl
    exact different named
  have foreign : ∀ key,
      ownKey (env.forExport exportJobId).exportJobId key = true →
        ownKey id key = false := fun key own =>
    ownKey_of_ne otherUuid uuid texts own
  have inside : proc.Within (env.forExport exportJobId).exportJobId := within
  refine part_absorb_of_ne ?_ (others_actStep inside foreign acts)
  rw [named]
  exact different.symm

/-- A statement of a sweep on another export is none of its system. -/
theorem part_sweepCall_of_ne (named : canonical id = id) {visited : String}
    (visitedNamed : canonical visited = visited) (different : visited ≠ id)
    (pc : SweepPc) (fault : Fault) :
    (installation.absorb visited (sweepCall (env.forExport visited)
        (installation.view visited) pc fault).1).part id =
      installation.part id := by
  refine part_absorb_of_ne ?_
    (congrArg (ObjectStore.own · id) (store_sweepCall pc fault))
  rw [named, visitedNamed]
  exact different.symm

/-- A statement of a sweep on the export. -/
theorem part_sweepCall (pc : SweepPc) (fault : Fault) :
    sweepCall (env.forExport id) (installation.part id) pc fault =
      ((installation.absorb id (sweepCall (env.forExport id)
          (installation.view id) pc fault).1).part id,
        (sweepCall (env.forExport id) (installation.view id) pc fault).2) := by
  rw [part_absorb_self (stays_sweepCall _ _), Installation.part,
    sweepCall_own]

/-- A scan of all exports finds an export when a scan of it alone does. -/
theorem scan_toward (keyed : installation.Keyed) (named : canonical id = id)
    {cutoff : Int} {order : List String}
    (found : order.Perm (installation.stalledIds cutoff)) :
    sweepStep (env.forExport id) (installation.part id)
        (.findStalled cutoff) =
      (installation.part id,
        .awaiting cutoff id (installation.scanned order)) := by
  have member : id ∈ order ↔
      (installation.rows id).job.any (stalled cutoff) = true := by
    rw [found.mem_iff, Installation.stalledIds, List.mem_filter,
      keyed.listed id]
    constructor
    · exact And.right
    · intro isStalled
      refine ⟨?_, isStalled⟩
      intro absent
      rw [absent] at isStalled
      cases isStalled
  have job : (installation.part id).job = (installation.rows id).job := by
    simp only [Installation.part, World.own_job, Installation.view, named]
  simp only [sweepStep, SweepPc.awaiting, lookup_scanned, job, member]
  cases (installation.rows id).job with
  | none => simp
  | some row =>
      by_cases isStalled : stalled cutoff row = true
      · simp [isStalled]
      · simp [isStalled]

theorem sweepCall_of_throws {pc : SweepPc} {fault : Fault} {error : AppError}
    (fails : pc.throws fault = some error) :
    (sweepCall env world pc fault).2 = .ended := by
  cases fault with
  | refused => rfl
  | lost => rfl
  | _ => cases pc <;> cases fails

/-- Each step is one of the system of the export, or none. -/
theorem move_follows {activity next : Activity} {move : Move}
    (uuid : isUuid id = true) (named : canonical id = id)
    (tidy : installation.Tidy id) (own : activity.Tidy id)
    (scanned : activity.Scanned)
    (spelled : ∀ exportJobId action, move = .take exportJobId action →
      canonical exportJobId = id → action.enqueues = true →
        exportJobId = id)
    (step : MoveStep env index installation activity move after next) :
    match activity.moves id move with
    | none =>
        after.part id = installation.part id ∧
          next.toward env id = activity.toward env id
    | some action =>
        act (env.forExport id) index (installation.part id)
            (activity.toward env id) action =
          some (after.part id, next.toward env id) := by
  cases step with
  | @take exportJobId action world following accepted step =>
      by_cases same : canonical exportJobId = id
      · simp only [Activity.moves, if_pos same, toward_of]
        by_cases here : exportJobId = id
        · subst here
          rw [toward_on_self]
          exact part_act tidy trivial step
        · have calm : action.enqueues = false := by
            rw [Bool.eq_false_iff]
            exact fun enqueues => here (spelled _ _ rfl same enqueues)
          obtain ⟨_, rfl, requested⟩ :=
            queueless_take tidy same here accepted calm step
          have texts := same.trans named.symm
          rw [toward_on_spelled same here,
            part_absorb_spelled texts here (.refl _), view_setEntry texts]
          exact requested
      · simp only [Activity.moves, if_neg same, toward_of,
          toward_on_of_ne named same]
        exact ⟨part_others uuid named (uuid_of_accepts accepted) same
          (Proc.within_idle _) step, rfl⟩
  | @go exportJobId proc following action world step =>
      by_cases same : canonical exportJobId = id
      · obtain ⟨opened, spelling⟩ := own.2.2 same
        simp only [Activity.moves, if_pos same, toward_of]
        by_cases here : exportJobId = id
        · subst here
          rw [toward_on_self, toward_on_self]
          exact part_act tidy opened step
        · rw [toward_on_spelled same here, toward_on_spelled same here]
          exact part_act_spelled tidy named same here opened
            (spelling.resolve_left here) step
      · simp only [Activity.moves, if_neg same, toward_of,
          toward_on_of_ne named same]
        exact ⟨part_others uuid named own.1 same own.2.1 step, trivial⟩
  | beginSweep => rfl
  | scan found =>
      simp only [Activity.moves, toward_sweep, SweeperPc.toward_loopTop]
      simp only [SweeperPc.toward, act, sweepCall,
        scan_toward tidy.keyed named found]
  | @scanFails cutoff fault fails error =>
      cases fault with
      | refused => rfl
      | lost => rfl
      | _ => cases fails
  | @visit cutoff count visited pc rest fault answers =>
      by_cases here : visited = id
      · subst here
        have absent := (List.nodup_cons.mp scanned.1).1
        simp only [Activity.moves, if_true, toward_sweep,
          SweeperPc.toward_goOn_self absent, toward_visit_self, act,
          part_sweepCall]
      · have visitedNamed := scanned.2 visited List.mem_cons_self
        simp only [Activity.moves, if_neg here, answers, Option.map_none,
          toward_sweep, SweeperPc.toward_goOn_of_ne here,
          toward_visit_of_ne here]
        exact ⟨part_sweepCall_of_ne named visitedNamed here pc fault,
          trivial⟩
  | @visitFails cutoff count visited pc rest fault error fails =>
      by_cases here : visited = id
      · subst here
        simp only [Activity.moves, if_true, toward_sweep, toward_visit_self,
          act, part_sweepCall, sweepCall_of_throws fails]
        rfl
      · have visitedNamed := scanned.2 visited List.mem_cons_self
        simp only [Activity.moves, if_neg here, fails, Option.map_some,
          toward_sweep, act,
          part_sweepCall_of_ne named visitedNamed here pc fault]
        rfl
  | sweepCrash => rfl

end Follow

theorem exportConfig_update (env : Env) (id : String)
    (procs : Nat → Activity) (shared : Installation) (index : Nat)
    (next : Activity) :
    exportConfig env id ⟨shared, Function.update procs index next⟩ =
      ⟨shared.part id,
        Function.update (fun other => (procs other).toward env id) index
          (next.toward env id)⟩ := by
  simp only [exportConfig]
  congr 1
  funext other
  by_cases here : other = index
  · subst here
    simp
  · simp [here]

section Machine

variable {env : Env} {id : String}
variable {before after : Config Installation Activity}
variable {event : Event Move Change}

/-- A change from outside is the same change for every export. -/
theorem part_change (installation : Installation) (id : String)
    (change : Change) :
    (installation.change change).part id =
      change.apply (installation.part id) := by
  cases change <;> rfl

theorem keyed_change {installation : Installation}
    (keyed : installation.Keyed) (change : Change) :
    (installation.change change).Keyed := by
  cases change <;> exact ⟨keyed.nodup, keyed.listed, keyed.named⟩

theorem tidy_change {installation : Installation}
    (tidy : installation.Tidy id) (change : Change) :
    (installation.change change).Tidy id := by
  have keyed := keyed_change tidy.keyed change
  cases change <;> exact ⟨keyed, tidy.file, tidy.queue⟩

theorem spelled_of_permitted {config : Config Installation Activity}
    {index : Nat} {move : Move}
    (permitted : SameSpelling id config (.act index move)) :
    ∀ exportJobId action, move = .take exportJobId action →
      canonical exportJobId = id → action.enqueues = true →
        exportJobId = id := by
  rintro exportJobId action rfl
  exact permitted

theorem keyed_step
    (stepEq : (installationMachine env).step before event = some after)
    (keyed : KeyedConfig before) : KeyedConfig after := by
  cases event with
  | act index move =>
      obtain ⟨shared, proc, actEq, rfl⟩ := Network.step_act_iff.mp stepEq
      obtain ⟨sharedKeyed, procScanned⟩ := keyed_moveStep keyed.shared
        (keyed.procs index) (moveStep_of_act actEq)
      refine ⟨sharedKeyed, fun other => ?_⟩
      by_cases here : other = index
      · subst here
        simpa using procScanned
      · simpa [Function.update_of_ne here] using keyed.procs other
  | env change =>
      obtain ⟨shared, changed, rfl⟩ := Network.step_env_iff.mp stepEq
      obtain rfl := Option.some.inj changed
      exact ⟨keyed_change keyed.shared change, keyed.procs⟩

theorem tidy_step (named : canonical id = id)
    (permitted : SameSpelling id before event)
    (stepEq : (installationMachine env).step before event = some after)
    (tidy : TidyConfig id before) : TidyConfig id after := by
  have keyed := keyed_step stepEq tidy.keyed
  cases event with
  | act index move =>
      obtain ⟨shared, proc, actEq, rfl⟩ := Network.step_act_iff.mp stepEq
      obtain ⟨sharedTidy, procTidy⟩ := tidy_moveStep tidy.shared named
        (tidy.procs index) (tidy.scanned index)
        (spelled_of_permitted permitted) (moveStep_of_act actEq)
      refine ⟨sharedTidy, keyed.procs, fun other => ?_⟩
      by_cases here : other = index
      · subst here
        simpa using procTidy
      · simpa [Function.update_of_ne here] using tidy.procs other
  | env change =>
      obtain ⟨shared, changed, rfl⟩ := Network.step_env_iff.mp stepEq
      obtain rfl := Option.some.inj changed
      exact ⟨tidy_change tidy.shared change, tidy.scanned, tidy.procs⟩

/-- A step of the installation, seen from one export. -/
theorem export_step (uuid : isUuid id = true) (named : canonical id = id)
    (permitted : SameSpelling id before event)
    (stepEq : (installationMachine env).step before event = some after)
    (tidy : TidyConfig id before) :
    match exportEvent id before event with
    | none => exportConfig env id after = exportConfig env id before
    | some noticed =>
        (machine (env.forExport id)).step (exportConfig env id before)
            noticed =
          some (exportConfig env id after) := by
  cases event with
  | act index move =>
      obtain ⟨shared, proc, actEq, rfl⟩ := Network.step_act_iff.mp stepEq
      have follows := move_follows uuid named tidy.shared (tidy.procs index)
        (tidy.scanned index) (spelled_of_permitted permitted)
        (moveStep_of_act actEq)
      rw [exportConfig_update, exportEvent]
      cases moves : (before.procs index).moves id move with
      | none =>
          rw [moves] at follows
          obtain ⟨samePart, sameProc⟩ := follows
          simp only [Option.map_none, samePart, sameProc,
            Function.update_eq_self, exportConfig]
      | some action =>
          rw [moves] at follows
          exact Network.step_act_iff.mpr ⟨_, _, follows, rfl⟩
  | env change =>
      obtain ⟨shared, changed, rfl⟩ := Network.step_env_iff.mp stepEq
      obtain rfl := Option.some.inj changed
      refine Network.step_env_iff.mpr ⟨_, rfl, ?_⟩
      simp only [exportConfig, part_change]

def exportProjection (env : Env) {id : String} (uuid : isUuid id = true)
    (named : canonical id = id) :
    Projection (installationMachine env) (machine (env.forExport id))
      (SameSpelling id) where
  state := exportConfig env id
  event := exportEvent id
  invariant := TidyConfig id
  kept := tidy_step named
  unnoticed permitted stepEq tidy noticed := by
    have follows := export_step uuid named permitted stepEq tidy
    rwa [noticed] at follows
  follows permitted stepEq tidy noticed := by
    have follows := export_step uuid named permitted stepEq tidy
    rwa [noticed] at follows

end Machine

/-- Every step that concerns the export meets a condition on its system. -/
def OnExport (env : Env) (id : String) (condition : Condition) :
    InstallationCondition := fun config event =>
  ∀ noticed, exportEvent id config event = some noticed →
    condition (exportConfig env id config) noticed

section Histories

variable {env : Env} {id : String}
variable {source target : Config Installation Activity}
variable {events : List (Event Move Change)}

theorem keyed_unexported (initial : Unexported source) :
    KeyedConfig source := by
  have noJob : ∀ id, (source.shared.rows id).job = none := fun id => by
    rw [initial.noRows id]
  refine ⟨⟨?_, fun id => ?_, fun id member => ?_⟩, fun index => ?_⟩
  · rw [initial.noIds]
    exact List.nodup_nil
  · rw [initial.noIds]
    simp [noJob id]
  · rw [initial.noIds] at member
    cases member
  · rw [initial.idle index]
    trivial

theorem tidy_unexported (initial : Unexported source) (id : String) :
    TidyConfig id source where
  shared :=
    { keyed := (keyed_unexported initial).shared
      file := fun key isFile => by
        simp [World.fileKey, Installation.view, initial.noRows] at isFile
      queue := fun exportJobId _ _ => initial.noEntries exportJobId }
  scanned := (keyed_unexported initial).procs
  procs index := by
    rw [initial.idle index]
    trivial

/-- No object of any export is there yet. -/
theorem no_object (initial : Unexported source) {key : String}
    (own : ownKey id key = true) :
    (source.shared.part id).store.get? key = none := by
  refine (ObjectStore.get?_own own).trans (initial.noObjects key ?_)
  simp only [ownKey, hasPrefix, String.toList_append,
    List.isPrefixOf_iff_prefix, List.append_assoc] at own ⊢
  exact (List.prefix_append _ _).trans own

theorem initial_unexported (env : Env) (id : String)
    (initial : Unexported source) :
    Initial (env.forExport id) (exportConfig env id source) where
  noJob := by
    simp [exportConfig, Installation.part, Installation.view,
      initial.noRows (canonical id)]
  noCheckpoints := by
    simp [exportConfig, Installation.part, Installation.view,
      initial.noRows (canonical id)]
  noChunks _ isChunk := no_object initial (ownKey_of_hasPrefix isChunk)
  noFile := no_object initial (ownKey_finalKey id)
  noEntry := by
    simp [exportConfig, Installation.part, Installation.view,
      initial.noEntries id]
  idle index := by
    simp [exportConfig, initial.idle index, Activity.toward]

theorem keyed_history {permitted : InstallationCondition}
    (initial : Unexported source)
    (history : (installationMachine env).Exec permitted source events
      target) : KeyedConfig target :=
  history.invariant (fun _ => keyed_step) (keyed_unexported initial)

theorem tidy_history (initial : Unexported source)
    (named : canonical id = id)
    (history : (installationMachine env).Exec (SameSpelling id) source events
      target) : TidyConfig id target :=
  history.invariant (tidy_step named) (tidy_unexported initial id)

/-- What one export sees of a history of the installation is a history of its
own system, and meets the conditions its steps met. -/
theorem export_history {condition : Condition} (initial : Unexported source)
    (history : (installationMachine env).Exec
      (fun config event => SameSpelling id config event ∧
        OnExport env id condition config event) source events target)
    (uuid : isUuid id = true) (named : canonical id = id) :
    (machine (env.forExport id)).Exec condition (exportConfig env id source)
      ((exportProjection env uuid named).events source events)
      (exportConfig env id target) :=
  (exportProjection env uuid named).exec history (fun allowed => allowed.1)
    (fun allowed _ noticed => allowed.2 _ noticed)
    (tidy_unexported initial id)

/-- Whatever happens to all exports of the installation together, interleaved
in any way, with sweeps of all of them: what an export sees of it, when those
who resume it name it by its id, is a history of its own system from its
beginning. -/
theorem installation_refines (initial : Unexported source)
    (history : (installationMachine env).Exec (SameSpelling id) source events
      target) (uuid : isUuid id = true) (named : canonical id = id) :
    Initial (env.forExport id) (exportConfig env id source) ∧
      (machine (env.forExport id)).Exec Anything
        (exportConfig env id source)
        ((exportProjection env uuid named).events source events)
        (exportConfig env id target) :=
  ⟨initial_unexported env id initial,
    export_history initial
      (history.mono fun allowed => ⟨allowed, fun _ _ => trivial⟩) uuid named⟩

end Histories

/-- The records up to the boundary of any export do not change once it
exists. -/
def StableInstallation (config : Config Installation Activity) :
    Event Move Change → Prop
  | .env (.setRecords table) =>
      ∀ id job, (config.shared.rows id).job = some job →
        table.upTo job.snapshotMaxId =
          config.shared.records.upTo job.snapshotMaxId
  | _ => True

def smallInstallation (records : RecordTable) :
    Config Installation Activity where
  shared := { now := 0, records := records }
  procs _ := .idle

theorem unexported_smallInstallation (records : RecordTable) :
    Unexported (smallInstallation records) :=
  ⟨rfl, fun _ => rfl, fun _ => rfl, fun _ _ => rfl, fun _ => rfl⟩

def firstExport : String := "3f0d1c52-8a47-4be1-9c6e-0a5b7d2e9f10"

def secondExport : String := "b81e4a07-5c2d-4f93-8a6b-1d0e7c9f2a54"

/-- The next statements of a process, none of which fails. -/
def goes (index count : Nat) : List (Event Move Change) :=
  List.replicate count (.act index (.go (.call .none)))

/-- Two users create exports at the same time and two workers take them; the
first export completes, the worker of the second dies after its first batch. -/
def twoExports : List (Event Move Change) :=
  .act 0 (.take firstExport (.request (.create "ada" 1))) ::
    .act 1 (.take secondExport (.request (.create "eve" 2))) ::
    goes 0 3 ++ goes 1 6 ++ goes 0 3 ++
    [.act 2 (.take firstExport .deliver),
      .act 3 (.take secondExport .deliver)] ++
    goes 2 8 ++ goes 3 11 ++ goes 2 13 ++
    [.act 3 (.go .crash), .env (.tick 60000)]

def namesExports (_config : Config Installation Activity) :
    Event Move Change → Bool
  | .act _ (.take exportJobId _) =>
      isUuid exportJobId && canonical exportJobId = exportJobId
  | .act _ _ => true
  | .env (.tick _) => true
  | .env (.setRecords _) => false

theorem namesExports_sound {config : Config Installation Activity}
    {event : Event Move Change} (passes : namesExports config event = true) :
    NamesExports config event ∧ StableInstallation config event := by
  cases event with
  | act index move =>
      refine ⟨?_, trivial⟩
      cases move with
      | take exportJobId action =>
          simpa [namesExports, NamesExports] using passes
      | _ => trivial
  | env change =>
      cases change with
      | tick => exact ⟨trivial, trivial⟩
      | setRecords => cases passes

/-- A computation of the small installation that ends as a test says is a
history of it. -/
theorem exists_named_history (records : RecordTable)
    (events : List (Event Move Change))
    (test : Config Installation Activity → Bool)
    (accepted : ((installationMachine smallEnv).runChecked namesExports
      (smallInstallation records) events).any test = true) :
    ∃ target, (installationMachine smallEnv).Exec
        (fun config event => NamesExports config event ∧
          StableInstallation config event)
        (smallInstallation records) events target ∧ test target = true := by
  obtain ⟨target, runEq, ends⟩ := Machine.exists_of_any_runChecked accepted
  exact ⟨target, Machine.exec_of_runChecked (fun _ => True)
    (fun _ passes => namesExports_sound passes) (fun _ _ _ => trivial)
    trivial runEq, ends⟩

def statusIs (id : String) (status : ExportStatus)
    (config : Config Installation Activity) : Bool :=
  (config.shared.rows id).job.any fun job : ExportJob =>
    job.status = status

theorem twoExports_ends :
    ∃ target, (installationMachine smallEnv).Exec
        (fun config event => NamesExports config event ∧
          StableInstallation config event)
        (smallInstallation twoRecords) twoExports target ∧
      statusIs firstExport .completed target = true ∧
      statusIs secondExport .running target = true ∧
      target.shared.stalledIds (target.shared.now - 45000) =
        [secondExport] := by
  obtain ⟨target, history, ends⟩ :=
    exists_named_history twoRecords twoExports
      (fun target => statusIs firstExport .completed target &&
        statusIs secondExport .running target &&
        decide (target.shared.stalledIds (target.shared.now - 45000) =
          [secondExport])) (by decide +kernel)
  simp only [Bool.and_eq_true, decide_eq_true_eq] at ends
  exact ⟨target, history, ends.1.1, ends.1.2, ends.2⟩

theorem installation_refines_twoExports :
    ∃ target noticed, (installationMachine smallEnv).Exec
        (SameSpelling secondExport) (smallInstallation twoRecords) twoExports
        target ∧
      (machine (smallEnv.forExport secondExport)).Exec Anything
        (exportConfig smallEnv secondExport (smallInstallation twoRecords))
        noticed (exportConfig smallEnv secondExport target) ∧
      statusIs firstExport .completed target = true ∧
      statusIs secondExport .running target = true := by
  obtain ⟨target, history, first, second, _⟩ := twoExports_ends
  have spelled : (installationMachine smallEnv).Exec
      (SameSpelling secondExport) (smallInstallation twoRecords) twoExports
      target :=
    history.mono fun allowed => sameSpelling_of_namesExports allowed.1
  exact ⟨target, _, spelled,
    (installation_refines (unexported_smallInstallation _) spelled
      (by decide) (by decide)).2, first, second⟩

section Histories

variable {env : Env} {id : String}
variable {source target : Config Installation Activity}
variable {events : List (Event Move Change)}

theorem job_part (named : canonical id = id) :
    (target.shared.part id).job = (target.shared.rows id).job := by
  simp only [Installation.part, World.own_job, Installation.view, named]

/-- Stable records of the installation are stable records of each export. -/
theorem onExport_stable (named : canonical id = id)
    {config : Config Installation Activity} {event : Event Move Change}
    (stable : StableInstallation config event) :
    OnExport env id StableRecords config event := by
  intro noticed isNoticed
  cases event with
  | act index move =>
      obtain ⟨action, _, rfl⟩ := Option.map_eq_some_iff.mp isNoticed
      trivial
  | env change =>
      obtain rfl := Option.some.inj isNoticed
      cases change with
      | tick => trivial
      | setRecords table =>
          intro job found
          exact stable id job ((job_part named).symm.trans found)

/-- What a completed export has at its final key, when its own history has
stable records. -/
theorem completedFile_part (initial : Unexported source)
    {noticed : List (Event Action Change)}
    (alone : (machine (env.forExport id)).Exec StableRecords
      (exportConfig env id source) noticed (exportConfig env id target))
    (named : canonical id = id) {job : ExportJob}
    (found : (target.shared.rows id).job = some job)
    (completed : job.status = .completed) :
    target.shared.store.get? (finalKey id) =
        some (exportBytes (selection target.shared.records job.terms)) ∧
      ((selection target.shared.records job.terms).length : Int) =
        job.requestedRowLimit := by
  obtain ⟨stored, whole⟩ := completedFile_exact
    (initial_unexported env id initial) alone ((job_part named).trans found)
    completed
  exact ⟨(ObjectStore.get?_own (ownKey_finalKey id)).symm.trans stored,
    whole⟩

/-- With records stable up to every boundary, the objects of all completed
exports are exact at once, whatever the others were doing: the header, and as
many records with the smallest ids in the range of the export as it asked
for. -/
theorem completedFiles_exact (initial : Unexported source)
    (history : (installationMachine env).Exec
      (fun config event => (∀ id, SameSpelling id config event) ∧
        StableInstallation config event) source events target)
    (uuid : isUuid id = true) (named : canonical id = id) {job : ExportJob}
    (found : (target.shared.rows id).job = some job)
    (completed : job.status = .completed) :
    target.shared.store.get? (finalKey id) =
        some (exportBytes (selection target.shared.records job.terms)) ∧
      ((selection target.shared.records job.terms).length : Int) =
        job.requestedRowLimit :=
  completedFile_part initial
    (export_history initial (history.mono fun allowed =>
      ⟨allowed.1 id, onExport_stable named allowed.2⟩) uuid named)
    named found completed

theorem completedFiles_exact_twoExports :
    ∃ target job, (target.shared.rows firstExport).job = some job ∧
      statusIs secondExport .running target = true ∧
      target.shared.store.get? (finalKey firstExport) =
        some (exportBytes (selection target.shared.records job.terms)) := by
  obtain ⟨target, history, first, second, _⟩ := twoExports_ends
  have spelled : (installationMachine smallEnv).Exec
      (fun config event => (∀ id, SameSpelling id config event) ∧
        StableInstallation config event)
      (smallInstallation twoRecords) twoExports target :=
    history.mono fun allowed =>
      ⟨fun _ => sameSpelling_of_namesExports allowed.1, allowed.2⟩
  obtain ⟨job, found, completed⟩ := (Option.any_eq_true _ _).mp first
  exact ⟨target, job, found, second,
    (completedFiles_exact (unexported_smallInstallation _) spelled
      (by decide) (by decide) found (of_decide_eq_true completed)).1⟩

end Histories

end ExportVault
