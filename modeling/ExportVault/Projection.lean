import ExportVault.Interleaving

/-!
# Parts of a machine

A part of a machine is a machine of its own when every step of the whole is
one step of the part or leaves the part as it is.  A run of the whole is then
a run of the part, on the events that concern it.
-/

namespace Interleaving

universe u v w x

/-- A view of the states and the events of one machine as those of another;
an event the part does not notice is `none`. -/
structure Projection {Whole : Type u} {Label : Type v} {Part : Type w}
    {PartLabel : Type x} (whole : Machine Whole Label)
    (part : Machine Part PartLabel)
    (permitted : Whole → Label → Prop) where
  state : Whole → Part
  event : Whole → Label → Option PartLabel
  invariant : Whole → Prop
  kept : ∀ {before label after}, permitted before label →
    whole.step before label = some after →
    invariant before → invariant after
  unnoticed : ∀ {before label after}, permitted before label →
    whole.step before label = some after → invariant before →
    event before label = none → state after = state before
  follows : ∀ {before label after partLabel}, permitted before label →
    whole.step before label = some after → invariant before →
    event before label = some partLabel →
    part.step (state before) partLabel = some (state after)

namespace Projection

variable {Whole : Type u} {Label : Type v} {Part : Type w}
variable {PartLabel : Type x} {whole : Machine Whole Label}
variable {part : Machine Part PartLabel} {permitted : Whole → Label → Prop}

def events (projection : Projection whole part permitted) :
    Whole → List Label → List PartLabel
  | _, [] => []
  | source, label :: rest =>
      (projection.event source label).toList ++
        match whole.step source label with
        | some next => projection.events next rest
        | none => []

/-- A run of the whole is a run of the part. -/
theorem exec (projection : Projection whole part permitted)
    {stronger : Whole → Label → Prop} {granted : Part → PartLabel → Prop}
    {source target : Whole} {labels : List Label}
    (history : whole.Exec stronger source labels target)
    (weaken : ∀ {state label}, stronger state label → permitted state label)
    (grants : ∀ {state label partLabel}, stronger state label →
      projection.invariant state →
      projection.event state label = some partLabel →
      granted (projection.state state) partLabel)
    (initial : projection.invariant source) :
    part.Exec granted (projection.state source)
      (projection.events source labels) (projection.state target) := by
  induction labels generalizing source with
  | nil =>
      obtain rfl : source = target := history
      rfl
  | cons label rest inductionHypothesis =>
      obtain ⟨allowed, middle, stepEq, remaining⟩ := history
      have later := inductionHypothesis remaining
        (projection.kept (weaken allowed) stepEq initial)
      simp only [events, stepEq]
      cases noticed : projection.event source label with
      | none =>
          rw [projection.unnoticed (weaken allowed) stepEq initial noticed]
            at later
          exact later
      | some partLabel =>
          exact ⟨grants allowed initial noticed, _,
            projection.follows (weaken allowed) stepEq initial noticed,
            later⟩

/-- The part passes through what is to be seen of the states of the whole. -/
theorem exists_of_mem_states (projection : Projection whole part permitted)
    {stronger : Whole → Label → Prop} {source target : Whole}
    {labels : List Label}
    (history : whole.Exec stronger source labels target)
    (weaken : ∀ {state label}, stronger state label → permitted state label)
    (initial : projection.invariant source) {visited : Part}
    (member : visited ∈ part.states (projection.state source)
      (projection.events source labels)) :
    ∃ state ∈ whole.states source labels,
      visited = projection.state state := by
  induction labels generalizing source with
  | nil => exact ⟨source, List.mem_singleton_self _,
      List.mem_singleton.mp member⟩
  | cons label rest inductionHypothesis =>
      obtain ⟨allowed, middle, stepEq, remaining⟩ := history
      have later : visited ∈ part.states (projection.state middle)
          (projection.events middle rest) →
          ∃ state ∈ whole.states source (label :: rest),
            visited = projection.state state := by
        intro memberLater
        obtain ⟨state, stateMember, same⟩ := inductionHypothesis remaining
          (projection.kept (weaken allowed) stepEq initial) memberLater
        refine ⟨state, ?_, same⟩
        simp only [Machine.states, stepEq]
        exact List.mem_cons_of_mem _ stateMember
      simp only [events, stepEq] at member
      cases noticed : projection.event source label with
      | none =>
          rw [noticed, Option.toList_none, List.nil_append,
            ← projection.unnoticed (weaken allowed) stepEq initial noticed]
            at member
          exact later member
      | some partLabel =>
          have follows := projection.follows (weaken allowed) stepEq initial
            noticed
          rw [noticed, Option.toList_some, List.singleton_append,
            Machine.states, follows] at member
          rcases List.mem_cons.mp member with rfl | memberLater
          · exact ⟨source, Machine.source_mem_states _ _, rfl⟩
          · exact later memberLater

end Projection

end Interleaving
