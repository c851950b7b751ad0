import ExportVault.Exports

/-!
# A sweep of all exports

What `sweepStalledExports` does when nothing comes between: the exports its
query finds are interrupted, each with a failure row, and nothing else changes
(`sweep_interrupts_stalled`).
-/

namespace ExportVault

open Interleaving

def ExportRows.interrupted (rows : ExportRows) (exportJobId : String)
    (now : Int) (message : String) : ExportRows :=
  { rows with
    job := rows.job.map fun job =>
      { job with
        status := .interrupted
        errorMessage := some message
        updatedAt := now }
    failures := rows.failures ++
      [{ exportJobId := some exportJobId
         errorType := "WORKER_STALLED"
         errorMessage := slice message 8000 }] }

def Installation.sweptRows (installation : Installation) (cutoff : Int)
    (exportJobId : String) : ExportRows :=
  let rows := installation.rows exportJobId
  match rows.job with
  | none => rows
  | some job =>
      if stalled cutoff job then
        rows.interrupted exportJobId installation.now (stalledMessage job)
      else rows

section Loop

variable {env : Env} {index : Nat} {cutoff : Int} {count : Nat}

def AllStalled (installation : Installation) (cutoff : Int)
    (rest : List (String × String)) : Prop :=
  ∀ entry ∈ rest,
    (installation.rows entry.1).job.any (stalled cutoff) = true

def loopRows (installation : Installation) (rest : List (String × String))
    (exportJobId : String) : ExportRows :=
  match rest.lookup exportJobId with
  | none => installation.rows exportJobId
  | some message =>
      (installation.rows exportJobId).interrupted exportJobId installation.now
        message

/-- The rows after one turn of the loop. -/
def Installation.interrupt (installation : Installation)
    (exportJobId message : String) : Installation :=
  { installation with
    rows := Function.update installation.rows exportJobId
      ((installation.rows exportJobId).interrupted exportJobId
        installation.now message) }

/-- A statement that writes rows of an export that exists. -/
theorem absorb_of_present {installation : Installation} {exportJobId : String}
    {after : World} (named : canonical exportJobId = exportJobId)
    (present : (installation.rows exportJobId).job ≠ none)
    (store : after.store = installation.store)
    (entry : after.entry = installation.queue exportJobId) :
    installation.absorb exportJobId after =
      { installation with
        rows :=
          Function.update installation.rows exportJobId after.exportRows } := by
  cases found : (installation.rows exportJobId).job with
  | none => exact absurd found present
  | some job => simp [Installation.absorb, named, found, store, entry]

/-- One turn of the loop: the guarded update, then the failure row. -/
theorem solo_visit {installation : Installation} {exportJobId message : String}
    {rest : List (String × String)} {moves : List Move}
    (named : canonical exportJobId = exportJobId)
    (isStalled :
      (installation.rows exportJobId).job.any (stalled cutoff) = true) :
    (Installation.network env).solo index installation
        (.sweep (.loopTop cutoff count ((exportJobId, message) :: rest)))
        (.go (.call .none) :: .go (.call .none) :: moves) =
      (Installation.network env).solo index
        (installation.interrupt exportJobId message)
        (.sweep (.loopTop cutoff count rest)) moves := by
  let world := installation.view exportJobId
  let marked := (sweepStep (env.forExport exportJobId) world
    (.markInterrupted cutoff message)).1
  let recorded := (sweepStep (env.forExport exportJobId) marked
    (.recordStalled message)).1
  have still : world.job.any (stalled cutoff) = true := by
    simpa only [world, Installation.view, named] using isStalled
  have marks : sweepStep (env.forExport exportJobId) world
      (.markInterrupted cutoff message) = (marked, .recordStalled message) := by
    simp only [marked, sweepStep, if_pos still]
  have stays : Stays world marked := stays_sweepStep _
  have present : (installation.rows exportJobId).job ≠ none := by
    intro absent
    rw [absent] at isStalled
    cases isStalled
  have store : marked.store = installation.store := sweepStep_store _ _ _
  have entry : marked.entry = installation.queue exportJobId :=
    sweepStep_entry _ _ _
  have first : installation.act env index
      (.sweep (.loopTop cutoff count ((exportJobId, message) :: rest)))
      (.go (.call .none)) =
        some (installation.absorb exportJobId marked,
          .sweep (.visit cutoff count exportJobId (.recordStalled message)
            rest)) := by
    simp only [Installation.act, SweeperPc.loopTop, sweeperCall, sweepCall,
      marks, world, SweepPc.throws, SweeperPc.goOn, Option.map_some]
  have second : (installation.absorb exportJobId marked).act env index
      (.sweep (.visit cutoff count exportJobId (.recordStalled message) rest))
      (.go (.call .none)) =
        some ((installation.absorb exportJobId marked).absorb exportJobId
          recorded, .sweep (.loopTop cutoff count rest)) := by
    simp only [Installation.act, sweeperCall, sweepCall, SweepPc.throws,
      Option.map_some, view_absorb_self stays, recorded, sweepStep,
      SweeperPc.goOn]
  have rows : recorded.exportRows =
      (installation.rows exportJobId).interrupted exportJobId installation.now
        message := by
    simp only [recorded, marked, sweepStep, if_pos still]
    simp only [world, Installation.view, named]
    rfl
  have after : (installation.absorb exportJobId marked).absorb exportJobId
      recorded = installation.interrupt exportJobId message := by
    have seen : world.job ≠ none := by
      simpa only [world, Installation.view, named] using present
    rw [absorb_of_present named present store entry,
      absorb_of_present named]
    · rw [Function.update_idem, rows, Installation.interrupt]
    · simpa [World.exportRows] using stays.job seen
    · exact (sweepStep_store _ _ _).trans store
    · exact (sweepStep_entry _ _ _).trans entry
  simp only [Network.solo, Installation.network, first, second, after,
    Option.bind_some]

/-- The loop interrupts one export after the other. -/
theorem solo_loop {installation : Installation}
    {rest : List (String × String)}
    (distinct : (rest.map Prod.fst).Nodup)
    (named : ∀ id ∈ rest.map Prod.fst, canonical id = id)
    (allStalled : AllStalled installation cutoff rest) :
    (Installation.network env).solo index installation
        (.sweep (.loopTop cutoff count rest))
        (List.replicate (2 * rest.length) (.go (.call .none))) =
      some ({ installation with rows := loopRows installation rest },
        .sweep (.returned count)) := by
  induction rest generalizing installation with
  | nil => rfl
  | cons entry rest inductionHypothesis =>
      obtain ⟨exportJobId, message⟩ := entry
      have absent : exportJobId ∉ rest.map Prod.fst :=
        (List.nodup_cons.mp distinct).1
      have restDistinct := (List.nodup_cons.mp distinct).2
      have others : ∀ id, id ≠ exportJobId →
          (installation.interrupt exportJobId message).rows id =
            installation.rows id :=
        fun id different => Function.update_of_ne different ..
      have later :
          AllStalled (installation.interrupt exportJobId message) cutoff
            rest := by
        intro entry member
        have different : entry.1 ≠ exportJobId := by
          intro same
          rw [← same] at absent
          exact absent (List.mem_map_of_mem member)
        rw [others _ different]
        exact allStalled entry (List.mem_cons_of_mem _ member)
      rw [List.length_cons, Nat.mul_succ, List.replicate_succ,
        List.replicate_succ,
        solo_visit (named _ List.mem_cons_self)
          (allStalled _ List.mem_cons_self),
        inductionHypothesis restDistinct
          (fun id member => named id (List.mem_cons_of_mem _ member)) later]
      congr 3
      funext id
      by_cases here : id = exportJobId
      · subst here
        have notLater : rest.lookup id = none := by
          rw [List.lookup_eq_none_iff]
          intro entry member
          simp only [bne_iff_ne, ne_eq]
          intro same
          rw [same] at absent
          exact absent (List.mem_map_of_mem member)
        simp [loopRows, notLater, Installation.interrupt]
      · have notHere : (id == exportJobId) = false := by simpa using here
        simp only [loopRows, List.lookup_cons, notHere, others id here]
        rfl

/-- Every export found is still there when the answer arrives. -/
theorem scanned_names {installation : Installation} {order : List String}
    (present : ∀ id ∈ order, (installation.rows id).job ≠ none) :
    (installation.scanned order).map Prod.fst = order := by
  induction order with
  | nil => rfl
  | cons id rest inductionHypothesis =>
      obtain ⟨job, found⟩ :=
        Option.ne_none_iff_exists'.mp (present id List.mem_cons_self)
      have later := inductionHypothesis fun other member =>
        present other (List.mem_cons_of_mem _ member)
      simp only [Installation.scanned] at later ⊢
      simp [found, later]

theorem any_of_mem_stalledIds {installation : Installation} {id : String}
    (member : id ∈ installation.stalledIds cutoff) :
    (installation.rows id).job.any (stalled cutoff) = true :=
  (List.mem_filter.mp member).2

/-- After the loop over all stalled exports. -/
theorem loopRows_scanned {installation : Installation}
    (keyed : installation.Keyed) {order : List String}
    (found : order.Perm (installation.stalledIds cutoff)) :
    loopRows installation (installation.scanned order) =
      installation.sweptRows cutoff := by
  funext id
  have member : id ∈ order ↔
      (installation.rows id).job.any (stalled cutoff) = true := by
    rw [found.mem_iff]
    refine ⟨any_of_mem_stalledIds, fun isStalled => ?_⟩
    refine List.mem_filter.mpr ⟨(keyed.listed id).mpr fun absent => ?_,
      isStalled⟩
    rw [absent] at isStalled
    cases isStalled
  simp only [loopRows, lookup_scanned, member, Installation.sweptRows]
  cases (installation.rows id).job with
  | none => simp
  | some job =>
      by_cases isStalled : stalled cutoff job = true
      · simp [isStalled]
      · simp [isStalled]

/-- A sweep that nothing disturbs. -/
theorem solo_sweep {installation : Installation} (keyed : installation.Keyed)
    (isCutoff : installation.now - env.stallTimeoutSeconds * 1000 = cutoff)
    {order : List String}
    (found : order.Perm (installation.stalledIds cutoff)) :
    (Installation.network env).solo index installation .idle
        (.beginSweep :: .scan order ::
          List.replicate (2 * order.length) (.go (.call .none))) =
      some ({ installation with rows := installation.sweptRows cutoff },
        .sweep (.returned (installation.stalledIds cutoff).length)) := by
  have begins : installation.act env index .idle .beginSweep =
      some (installation, .sweep (.findStalled cutoff)) := by
    rw [← isCutoff]
    rfl
  have scans : installation.act env index (.sweep (.findStalled cutoff))
      (.scan order) =
        some (installation, .sweep (.loopTop cutoff order.length
          (installation.scanned order))) := by
    simp only [Installation.act, sweeperScan, if_pos found, Option.map_some]
  have allStalled : ∀ id ∈ order,
      (installation.rows id).job.any (stalled cutoff) = true :=
    fun id member => any_of_mem_stalledIds (found.mem_iff.mp member)
  have names : (installation.scanned order).map Prod.fst = order := by
    apply scanned_names
    intro id member absent
    have isStalled := allStalled id member
    rw [absent] at isStalled
    cases isStalled
  have length : (installation.scanned order).length = order.length := by
    rw [← List.length_map Prod.fst, names]
  have visits : AllStalled installation cutoff
      (installation.scanned order) := fun entry member =>
    allStalled entry.1 (names ▸ List.mem_map_of_mem member)
  have loop := @solo_loop env index cutoff order.length installation
    (installation.scanned order) (nodup_scanned keyed found)
    (named_scanned keyed found) visits
  rw [length, loopRows_scanned keyed found] at loop
  rw [← found.length_eq, ← loop]
  simp only [Network.solo, Installation.network, begins, scans,
    Option.bind_some]

end Loop

/-- A sweep of all exports that nothing disturbs, in whatever state the
installation is and in whatever order the database answers: exactly the
running exports whose heartbeat has expired are interrupted, each with its
failure row and the rows it had then; nothing else changes, no checkpoint and
no object; and the sweep returns their number. -/
theorem sweep_interrupts_stalled {env : Env}
    {source target : Config Installation Activity}
    {events : List (Event Move Change)} (initial : Unexported source)
    (history : (installationMachine env).Exec AnyMove source events
      target) (sweeper : Nat) {order : List String}
    (found : order.Perm (target.shared.stalledIds
      (target.shared.now - env.stallTimeoutSeconds * 1000))) :
    (Installation.network env).solo sweeper target.shared .idle
        (.beginSweep :: .scan order ::
          List.replicate (2 * order.length) (.go (.call .none))) =
      some
        ({ target.shared with
            rows := target.shared.sweptRows
              (target.shared.now - env.stallTimeoutSeconds * 1000) },
          .sweep (.returned (target.shared.stalledIds
            (target.shared.now - env.stallTimeoutSeconds * 1000)).length)) :=
  solo_sweep (keyed_history initial history).shared rfl found

theorem sweep_interrupts_stalled_twoExports :
    ∃ target : Config Installation Activity,
      statusIs secondExport .running target = true ∧
      (Installation.network smallEnv).solo 4 target.shared .idle
          (.beginSweep :: .scan [secondExport] ::
            List.replicate 2 (.go (.call .none))) =
        some
          ({ target.shared with
              rows := target.shared.sweptRows (target.shared.now - 45000) },
            .sweep (.returned 1)) := by
  obtain ⟨target, history, _, second, stalledIds⟩ := twoExports_ends
  have anyhow : (installationMachine smallEnv).Exec AnyMove
      (smallInstallation twoRecords) twoExports target :=
    history.mono fun _ => trivial
  have found : [secondExport].Perm (target.shared.stalledIds
      (target.shared.now - smallEnv.stallTimeoutSeconds * 1000)) := by
    rw [show smallEnv.stallTimeoutSeconds * 1000 = 45000 from rfl, stalledIds]
  have swept := sweep_interrupts_stalled
    (unexported_smallInstallation _) anyhow 4 found
  rw [← found.length_eq] at swept
  exact ⟨target, second, swept⟩

end ExportVault
