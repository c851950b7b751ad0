import Mathlib.Algebra.Order.Ring.Nat
import Mathlib.Logic.Function.Basic
import Mathlib.Data.List.Basic

/-!
# Labelled machines and interleaved processes

A `Machine` is a deterministic transition function on labelled events.  A
`Network` is a family of processes, each with a private state, that act one
statement at a time on a shared state.  Both are independent of any program:
the modules above instantiate them.

The proof rules are the usual ones.  `Machine.Exec.invariant` carries an
inductive invariant along a run.  `ProofOutline.preserved` is the
rely-guarantee rule: a global invariant and one assertion for each process,
where every step keeps its own assertion and the assertions of the others are
stable under what a step may change.  One process at a time may be the owner;
its assertion need only be stable under the steps of the others.
-/

namespace Interleaving

universe u v w x

/-- A deterministic labelled machine; `none` means the event is not enabled. -/
structure Machine (State : Type u) (Label : Type v) where
  step : State → Label → Option State

namespace Machine

variable {State : Type u} {Label : Type v}

/-- Execute a list of events. -/
def run (machine : Machine State Label) : State → List Label → Option State
  | state, [] => some state
  | state, event :: rest =>
      (machine.step state event).bind fun next => machine.run next rest

/-- The states a list of events passes through, the first one included. -/
def states (machine : Machine State Label) :
    State → List Label → List State
  | state, [] => [state]
  | state, event :: rest =>
      state :: match machine.step state event with
        | some next => machine.states next rest
        | none => []

/-- The events lead from `source` to `target`, each of them permitted in the
state in which it happens. -/
def Exec (machine : Machine State Label) (permitted : State → Label → Prop) :
    State → List Label → State → Prop
  | source, [], target => source = target
  | source, event :: rest, target =>
      permitted source event ∧
        ∃ middle, machine.step source event = some middle ∧
          machine.Exec permitted middle rest target

/-- Some permitted run leads from `source` to `target`. -/
def Reaches (machine : Machine State Label) (permitted : State → Label → Prop)
    (source target : State) : Prop :=
  ∃ events, machine.Exec permitted source events target

variable {machine : Machine State Label}
variable {permitted stronger : State → Label → Prop}

@[simp]
theorem exec_nil {source target : State} :
    machine.Exec permitted source [] target ↔ source = target :=
  Iff.rfl

@[simp]
theorem exec_cons {source target : State} {event : Label}
    {rest : List Label} :
    machine.Exec permitted source (event :: rest) target ↔
      permitted source event ∧
        ∃ middle, machine.step source event = some middle ∧
          machine.Exec permitted middle rest target :=
  Iff.rfl

theorem exec_append {source target : State} {first second : List Label} :
    machine.Exec permitted source (first ++ second) target ↔
      ∃ middle, machine.Exec permitted source first middle ∧
        machine.Exec permitted middle second target := by
  induction first generalizing source with
  | nil => simp
  | cons event rest inductionHypothesis =>
      simp only [List.cons_append, exec_cons, inductionHypothesis]
      constructor
      · rintro ⟨allowed, next, stepEq, middle, before, after⟩
        exact ⟨middle, ⟨allowed, next, stepEq, before⟩, after⟩
      · rintro ⟨middle, ⟨allowed, next, stepEq, before⟩, after⟩
        exact ⟨allowed, next, stepEq, middle, before, after⟩

/-- A list of events ends in one state. -/
theorem Exec.unique {other : State → Label → Prop}
    {source first second : State} {events : List Label}
    (firstRun : machine.Exec permitted source events first)
    (secondRun : machine.Exec other source events second) :
    first = second := by
  induction events generalizing source with
  | nil => exact firstRun.symm.trans secondRun
  | cons event rest inductionHypothesis =>
      obtain ⟨_, middle, stepEq, firstRest⟩ := firstRun
      obtain ⟨_, next, nextEq, secondRest⟩ := secondRun
      obtain rfl := Option.some.inj (stepEq.symm.trans nextEq)
      exact inductionHypothesis firstRest secondRest

/-- Repeating one event until it is not enabled any more ends in one
state. -/
theorem Exec.unique_end {source first second : State} {event : Label}
    {firstCount secondCount : Nat}
    (firstRun : machine.Exec permitted source
      (List.replicate firstCount event) first)
    (secondRun : machine.Exec permitted source
      (List.replicate secondCount event) second)
    (firstEnds : machine.step first event = none)
    (secondEnds : machine.step second event = none) : first = second := by
  induction firstCount generalizing source secondCount with
  | zero =>
      obtain rfl : source = first := firstRun
      cases secondCount with
      | zero => exact secondRun
      | succ count =>
          obtain ⟨_, middle, stepEq, _⟩ := secondRun
          rw [firstEnds] at stepEq
          cases stepEq
  | succ count inductionHypothesis =>
      obtain ⟨_, middle, stepEq, firstRest⟩ := firstRun
      cases secondCount with
      | zero =>
          obtain rfl : source = second := secondRun
          rw [secondEnds] at stepEq
          cases stepEq
      | succ otherCount =>
          obtain ⟨_, other, otherEq, secondRest⟩ := secondRun
          obtain rfl := Option.some.inj (stepEq.symm.trans otherEq)
          exact inductionHypothesis firstRest secondRest

/-- A property kept by every permitted step is kept by every permitted run. -/
theorem Exec.invariant {property : State → Prop}
    {source target : State} {events : List Label}
    (execution : machine.Exec permitted source events target)
    (kept : ∀ {before event after}, permitted before event →
      machine.step before event = some after →
      property before → property after)
    (initial : property source) : property target := by
  induction events generalizing source with
  | nil =>
      cases execution
      exact initial
  | cons event rest inductionHypothesis =>
      obtain ⟨allowed, middle, stepEq, remaining⟩ := execution
      exact inductionHypothesis remaining (kept allowed stepEq initial)

theorem Exec.mono {source target : State} {events : List Label}
    (execution : machine.Exec permitted source events target)
    (weaken : ∀ {state event}, permitted state event →
      stronger state event) :
    machine.Exec stronger source events target := by
  induction events generalizing source with
  | nil => exact execution
  | cons event rest inductionHypothesis =>
      obtain ⟨allowed, middle, stepEq, remaining⟩ := execution
      exact ⟨weaken allowed, middle, stepEq, inductionHypothesis remaining⟩

/-- An invariant of a run may be assumed at each of its steps. -/
theorem Exec.strengthen {property : State → Prop}
    {source target : State} {events : List Label}
    (execution : machine.Exec permitted source events target)
    (kept : ∀ {before event after}, permitted before event →
      machine.step before event = some after →
      property before → property after)
    (initial : property source) :
    machine.Exec (fun state event => permitted state event ∧ property state)
      source events target := by
  induction events generalizing source with
  | nil => exact execution
  | cons event rest inductionHypothesis =>
      obtain ⟨allowed, middle, stepEq, remaining⟩ := execution
      exact ⟨⟨allowed, initial⟩, middle, stepEq,
        inductionHypothesis remaining (kept allowed stepEq initial)⟩

/-- Each step of a run is one of its events. -/
theorem Exec.events {source target : State} {events : List Label}
    (execution : machine.Exec permitted source events target) :
    machine.Exec (fun state event => permitted state event ∧ event ∈ events)
      source events target := by
  induction events generalizing source with
  | nil => exact execution
  | cons event rest inductionHypothesis =>
      obtain ⟨allowed, middle, stepEq, remaining⟩ := execution
      refine ⟨⟨allowed, List.mem_cons_self⟩, middle, stepEq, ?_⟩
      apply (inductionHypothesis remaining).mono
      rintro state label ⟨permission, member⟩
      exact ⟨permission, List.mem_cons_of_mem _ member⟩

/-- A property of the events so far and the state they lead to, kept by every
further step, holds of every permitted run. -/
theorem Exec.history {property : List Label → State → Prop}
    {source target : State} {events : List Label}
    (execution : machine.Exec permitted source events target)
    (kept : ∀ {early before event after},
      machine.Exec permitted source early before → permitted before event →
      machine.step before event = some after →
      property early before → property (early ++ [event]) after)
    (initial : property [] source) : property events target := by
  have onward : ∀ (late : List Label) {early : List Label} {middle : State},
      machine.Exec permitted source early middle →
      machine.Exec permitted middle late target →
      property early middle → property (early ++ late) target := by
    intro late
    induction late with
    | nil =>
        rintro early middle _ rfl holds
        rwa [List.append_nil]
    | cons event rest inductionHypothesis =>
        rintro early middle before ⟨allowed, next, stepEq, remaining⟩ holds
        have reached : machine.Exec permitted source (early ++ [event]) next :=
          exec_append.mpr ⟨middle, before, allowed, next, stepEq, rfl⟩
        rw [List.append_cons]
        exact inductionHypothesis reached remaining
          (kept before allowed stepEq holds)
  have nothing : machine.Exec permitted source [] source := rfl
  exact onward events nothing execution initial

theorem source_mem_states (source : State) (events : List Label) :
    source ∈ machine.states source events := by
  cases events with
  | nil => exact List.mem_singleton.mpr rfl
  | cons event rest => exact List.mem_cons_self

theorem target_mem_states {source target : State} {events : List Label}
    (execution : machine.Exec permitted source events target) :
    target ∈ machine.states source events := by
  induction events generalizing source with
  | nil =>
      cases execution
      exact List.mem_singleton.mpr rfl
  | cons event rest inductionHypothesis =>
      obtain ⟨_, middle, stepEq, remaining⟩ := execution
      simp only [states, stepEq]
      exact List.mem_cons_of_mem _ (inductionHypothesis remaining)

/-- Every step of a run happens in a state the run passes through and leads
to one. -/
theorem Exec.through {source target : State} {events : List Label}
    (execution : machine.Exec permitted source events target) :
    machine.Exec
      (fun state event => permitted state event ∧
        state ∈ machine.states source events ∧
        ∀ next, machine.step state event = some next →
          next ∈ machine.states source events)
      source events target := by
  induction events generalizing source with
  | nil => exact execution
  | cons event rest inductionHypothesis =>
      obtain ⟨allowed, middle, stepEq, remaining⟩ := execution
      have visited :
          machine.states source (event :: rest) =
            source :: machine.states middle rest := by
        simp only [states, stepEq]
      refine ⟨⟨allowed, source_mem_states source _, ?_⟩, middle, stepEq, ?_⟩
      · intro next nextEq
        obtain rfl : middle = next := by
          rw [stepEq] at nextEq
          exact Option.some.inj nextEq
        rw [visited]
        exact List.mem_cons_of_mem _ (source_mem_states middle rest)
      · apply (inductionHypothesis remaining).mono
        rintro state label ⟨permission, stateMember, nextMember⟩
        refine ⟨permission, ?_, fun next nextEq => ?_⟩
        · rw [visited]
          exact List.mem_cons_of_mem _ stateMember
        · rw [visited]
          exact List.mem_cons_of_mem _ (nextMember next nextEq)

/-- A property kept by every permitted step holds in every state a permitted
run passes through. -/
theorem Exec.invariant_of_mem_states {property : State → Prop}
    {source target state : State} {events : List Label}
    (execution : machine.Exec permitted source events target)
    (member : state ∈ machine.states source events)
    (kept : ∀ {before event after}, permitted before event →
      machine.step before event = some after →
      property before → property after)
    (initial : property source) : property state := by
  induction events generalizing source with
  | nil =>
      obtain rfl := List.mem_singleton.mp member
      exact initial
  | cons event rest inductionHypothesis =>
      obtain ⟨allowed, middle, stepEq, remaining⟩ := execution
      simp only [states, stepEq, List.mem_cons] at member
      rcases member with rfl | later
      · exact initial
      · exact inductionHypothesis remaining later
          (kept allowed stepEq initial)

/-- What holds between the ends of each step, and is transitive, holds between
any two states of a run. -/
theorem Exec.pairwise_states {related : State → State → Prop}
    {source target : State} {events : List Label}
    (execution : machine.Exec permitted source events target)
    (trans : ∀ {first second third}, related first second →
      related second third → related first third)
    (steps : ∀ {before event after}, permitted before event →
      machine.step before event = some after → related before after) :
    (machine.states source events).Pairwise related := by
  induction events generalizing source with
  | nil => exact List.pairwise_singleton _ _
  | cons event rest inductionHypothesis =>
      obtain ⟨allowed, middle, stepEq, remaining⟩ := execution
      simp only [states, stepEq]
      refine List.pairwise_cons.mpr ⟨fun later member => ?_,
        inductionHypothesis remaining⟩
      exact remaining.invariant_of_mem_states member
        (fun permission nextEq before =>
          trans before (steps permission nextEq)) (steps allowed stepEq)

theorem Reaches.refl (state : State) :
    machine.Reaches permitted state state :=
  ⟨[], rfl⟩

theorem Reaches.trans {first second third : State}
    (before : machine.Reaches permitted first second)
    (after : machine.Reaches permitted second third) :
    machine.Reaches permitted first third := by
  obtain ⟨early, earlyRun⟩ := before
  obtain ⟨late, lateRun⟩ := after
  exact ⟨early ++ late, exec_append.mpr ⟨second, earlyRun, lateRun⟩⟩

/-- Nothing can happen any more. -/
def Resting (machine : Machine State Label) (state : State) : Prop :=
  ∀ event, machine.step state event = none

/-- A run is no longer than the measure its steps decrease. -/
theorem Exec.length_le {measure : State → Nat}
    {source target : State} {events : List Label}
    (execution : machine.Exec permitted source events target)
    (decreases : ∀ {before event after},
      machine.step before event = some after →
      measure after < measure before) :
    events.length + measure target ≤ measure source := by
  induction events generalizing source with
  | nil =>
      obtain rfl : source = target := execution
      simp
  | cons event rest inductionHypothesis =>
      obtain ⟨_, middle, stepEq, remaining⟩ := execution
      have later := inductionHypothesis remaining
      have less := decreases stepEq
      rw [List.length_cons]
      omega

/-- When the counted events lower a measure that no event raises, a run holds
no more of them than the measure. -/
theorem Exec.countP_le {measure : State → Nat} {counted : Label → Bool}
    {source target : State} {events : List Label}
    (execution : machine.Exec permitted source events target)
    (lowers : ∀ {before event after}, permitted before event →
      machine.step before event = some after → counted event = true →
      measure after < measure before)
    (keeps : ∀ {before event after}, permitted before event →
      machine.step before event = some after → counted event = false →
      measure after ≤ measure before) :
    events.countP counted + measure target ≤ measure source := by
  induction events generalizing source with
  | nil =>
      obtain rfl : source = target := execution
      simp
  | cons event rest inductionHypothesis =>
      obtain ⟨allowed, middle, stepEq, remaining⟩ := execution
      have later := inductionHypothesis remaining
      cases isCounted : counted event with
      | true =>
          have less := lowers allowed stepEq isCounted
          rw [List.countP_cons_of_pos isCounted]
          omega
      | false =>
          have more := keeps allowed stepEq isCounted
          rw [List.countP_cons_of_neg (by simp [isCounted])]
          omega

/-- When each step is paid for, the counted ones with one more, by a measure
and the credit the events bring along, the counted events of a run are no more
than the measure and the credit. -/
theorem Exec.countP_le_credit {measure : State → Nat}
    {counted : Label → Bool} {credit : Label → Nat}
    {source target : State} {events : List Label}
    (execution : machine.Exec permitted source events target)
    (paid : ∀ {before event after}, permitted before event →
      machine.step before event = some after →
      measure after + (if counted event then 1 else 0) ≤
        measure before + credit event) :
    events.countP counted + measure target ≤
      measure source + (events.map credit).sum := by
  induction events generalizing source with
  | nil =>
      obtain rfl : source = target := execution
      simp
  | cons event rest inductionHypothesis =>
      obtain ⟨allowed, middle, stepEq, remaining⟩ := execution
      have later := inductionHypothesis remaining
      have now := paid allowed stepEq
      rw [List.countP_cons, List.map_cons, List.sum_cons]
      omega

/-- What holds between the ends of each step, is reflexive and transitive,
holds between the ends of a run. -/
theorem Exec.related {related : State → State → Prop}
    {source target : State} {events : List Label}
    (execution : machine.Exec permitted source events target)
    (refl : ∀ state, related state state)
    (trans : ∀ {first second third}, related first second →
      related second third → related first third)
    (steps : ∀ {before event after}, permitted before event →
      machine.step before event = some after → related before after) :
    related source target :=
  execution.invariant
    (fun permission stepEq before => trans before (steps permission stepEq))
    (refl source)

/-- Such a relation holds between each state of a run and its end. -/
theorem Exec.heading {related : State → State → Prop}
    {source target : State} {events : List Label}
    (execution : machine.Exec permitted source events target)
    (refl : ∀ state, related state state)
    (trans : ∀ {first second third}, related first second →
      related second third → related first third)
    (steps : ∀ {before event after}, permitted before event →
      machine.step before event = some after → related before after) :
    machine.Exec (fun state event => permitted state event ∧
      related state target) source events target := by
  induction events generalizing source with
  | nil => exact execution
  | cons event rest inductionHypothesis =>
      have whole := execution.related refl trans steps
      obtain ⟨allowed, middle, stepEq, remaining⟩ := execution
      exact ⟨⟨allowed, whole⟩, middle, stepEq, inductionHypothesis remaining⟩

/-- When the steps decrease a measure, every state goes on to rest. -/
theorem exists_resting {measure : State → Nat}
    (decreases : ∀ {before event after},
      machine.step before event = some after →
      measure after < measure before)
    (source : State) :
    ∃ events target, machine.Exec (fun _ _ => True) source events target ∧
      machine.Resting target := by
  induction size : measure source using Nat.strongRecOn
      generalizing source with
  | ind size inductionHypothesis =>
      by_cases rests : machine.Resting source
      · exact ⟨[], source, rfl, rests⟩
      · obtain ⟨event, moves⟩ := not_forall.mp rests
        obtain ⟨next, stepEq⟩ := Option.ne_none_iff_exists'.mp moves
        obtain ⟨events, target, execution, targetRests⟩ :=
          inductionHypothesis (measure next) (size ▸ decreases stepEq) next rfl
        exact ⟨event :: events, target, ⟨trivial, next, stepEq, execution⟩,
          targetRests⟩

/-- A run keeps a rule throughout, or there is a first step that breaks it. -/
theorem Exec.keeps_or_breaks {source target : State} {events : List Label}
    (rule : State → Label → Prop)
    (execution : machine.Exec permitted source events target) :
    machine.Exec rule source events target ∨
      ∃ early event late before after, events = early ++ event :: late ∧
        machine.Exec rule source early before ∧ ¬ rule before event ∧
        machine.step before event = some after ∧
        machine.Exec permitted after late target := by
  induction events generalizing source with
  | nil => exact .inl execution
  | cons event rest inductionHypothesis =>
      obtain ⟨_, middle, stepEq, remaining⟩ := execution
      by_cases kept : rule source event
      · rcases inductionHypothesis remaining with
          always | ⟨early, broken, late, before, after, rfl, run, breaks⟩
        · exact .inl ⟨kept, middle, stepEq, always⟩
        · exact .inr ⟨event :: early, broken, late, before, after, rfl,
            ⟨kept, middle, stepEq, run⟩, breaks⟩
      · exact .inr ⟨[], event, rest, source, middle, rfl, rfl, kept, stepEq,
          remaining⟩

def runChecked (machine : Machine State Label) (check : State → Label → Bool) :
    State → List Label → Option State
  | state, [] => some state
  | state, event :: rest =>
      if check state event then
        (machine.step state event).bind fun next =>
          machine.runChecked check next rest
      else none

/-- A checked computation is a permitted run when the check is sound in the
states it meets. -/
theorem exec_of_runChecked {check : State → Label → Bool}
    (property : State → Prop) {source target : State} {events : List Label}
    (sound : ∀ {state event}, property state → check state event = true →
      permitted state event)
    (kept : ∀ {before event after}, check before event = true →
      machine.step before event = some after →
      property before → property after)
    (initial : property source)
    (runEq : machine.runChecked check source events = some target) :
    machine.Exec permitted source events target := by
  induction events generalizing source with
  | nil => simpa [runChecked] using runEq
  | cons event rest inductionHypothesis =>
      simp only [runChecked, Option.ite_none_right_eq_some,
        Option.bind_eq_some_iff] at runEq
      obtain ⟨passes, middle, stepEq, restEq⟩ := runEq
      exact ⟨sound initial passes, middle, stepEq,
        inductionHypothesis (kept passes stepEq initial) restEq⟩

/-- A checked computation that a test accepts has an end state the test
accepts. -/
theorem exists_of_any_runChecked {check : State → Label → Bool}
    {source : State} {events : List Label} {test : State → Bool}
    (accepted : (machine.runChecked check source events).any test = true) :
    ∃ target, machine.runChecked check source events = some target ∧
      test target = true :=
  (Option.any_eq_true _ _).mp accepted

end Machine

/-! ## Processes over a shared state -/

/-- Processes with private states act on a shared state: `act` is the next
statement of the process with the given number, `env` a change made by
something that is not one of the processes. -/
structure Network (Shared : Type u) (Local : Type v) (Action : Type w)
    (Change : Type x) where
  act : Nat → Shared → Local → Action → Option (Shared × Local)
  env : Shared → Change → Option Shared

/-- The shared state together with the private state of every process. -/
structure Config (Shared : Type u) (Local : Type v) where
  shared : Shared
  procs : Nat → Local

/-- What can happen next: a statement of one process, or a change from
outside. -/
inductive Event (Action : Type w) (Change : Type x) where
  | act (index : Nat) (action : Action)
  | env (change : Change)
  deriving DecidableEq

namespace Network

variable {Shared : Type u} {Local : Type v} {Action : Type w}
variable {Change : Type x}

/-- The interleaving semantics: one event at a time. -/
def machine (network : Network Shared Local Action Change) :
    Machine (Config Shared Local) (Event Action Change) where
  step config
    | .act index action =>
        (network.act index config.shared (config.procs index) action).map
          fun result =>
            { shared := result.1
              procs := Function.update config.procs index result.2 }
    | .env change =>
        (network.env config.shared change).map fun shared =>
          { config with shared := shared }

variable {network : Network Shared Local Action Change}

theorem step_act_iff {config next : Config Shared Local} {index : Nat}
    {action : Action} :
    network.machine.step config (.act index action) = some next ↔
      ∃ shared proc,
        network.act index config.shared (config.procs index) action =
          some (shared, proc) ∧
        next = ⟨shared, Function.update config.procs index proc⟩ := by
  simp only [machine, Option.map_eq_some_iff, Prod.exists]
  constructor
  · rintro ⟨shared, proc, actEq, rfl⟩
    exact ⟨shared, proc, actEq, rfl⟩
  · rintro ⟨shared, proc, actEq, rfl⟩
    exact ⟨shared, proc, actEq, rfl⟩

theorem step_env_iff {config next : Config Shared Local} {change : Change} :
    network.machine.step config (.env change) = some next ↔
      ∃ shared, network.env config.shared change = some shared ∧
        next = ⟨shared, config.procs⟩ := by
  simp only [machine, Option.map_eq_some_iff]
  constructor
  · rintro ⟨shared, envEq, rfl⟩
    exact ⟨shared, envEq, rfl⟩
  · rintro ⟨shared, envEq, rfl⟩
    exact ⟨shared, envEq, rfl⟩

/-- One process takes its statements alone. -/
def solo (network : Network Shared Local Action Change) (index : Nat) :
    Shared → Local → List Action → Option (Shared × Local)
  | shared, proc, [] => some (shared, proc)
  | shared, proc, action :: rest =>
      (network.act index shared proc action).bind fun result =>
        network.solo index result.1 result.2 rest

@[simp]
theorem solo_nil {index : Nat} {shared : Shared} {proc : Local} :
    network.solo index shared proc [] = some (shared, proc) :=
  rfl

theorem solo_append {index : Nat} {shared : Shared} {proc : Local}
    {first second : List Action} :
    network.solo index shared proc (first ++ second) =
      (network.solo index shared proc first).bind fun result =>
        network.solo index result.1 result.2 second := by
  induction first generalizing shared proc with
  | nil => rfl
  | cons action rest inductionHypothesis =>
      simp only [List.cons_append, solo, Option.bind_assoc,
        inductionHypothesis]

/-- What one process does alone is a run of the network. -/
theorem exec_solo {permitted :
      Config Shared Local → Event Action Change → Prop}
    {config : Config Shared Local} {index : Nat} {actions : List Action}
    {shared : Shared} {proc : Local}
    (allowed : ∀ config action, action ∈ actions →
      permitted config (.act index action))
    (soloEq : network.solo index config.shared (config.procs index) actions =
      some (shared, proc)) :
    network.machine.Exec permitted config (actions.map (.act index))
      ⟨shared, Function.update config.procs index proc⟩ := by
  induction actions generalizing config with
  | nil =>
      obtain ⟨rfl, rfl⟩ := Prod.mk.inj (Option.some.inj soloEq)
      simp
  | cons action rest inductionHypothesis =>
      simp only [solo, Option.bind_eq_some_iff, Prod.exists] at soloEq
      obtain ⟨middleShared, middleProc, actEq, restEq⟩ := soloEq
      refine ⟨allowed config action List.mem_cons_self,
        ⟨middleShared, Function.update config.procs index middleProc⟩,
        step_act_iff.mpr ⟨_, _, actEq, rfl⟩, ?_⟩
      let middle : Config Shared Local :=
        ⟨middleShared, Function.update config.procs index middleProc⟩
      have soloRest : network.solo index middle.shared (middle.procs index)
          rest = some (shared, proc) := by simpa [middle] using restEq
      have remaining := inductionHypothesis
        (fun config action member =>
          allowed config action (List.mem_cons_of_mem _ member)) soloRest
      simpa [middle] using remaining

def totalWeight (weight : Local → Nat) (procs : Nat → Local) : Nat → Nat
  | 0 => 0
  | bound + 1 => totalWeight weight procs bound + weight (procs bound)

theorem totalWeight_update_of_le (weight : Local → Nat)
    (procs : Nat → Local) (proc : Local) {bound index : Nat}
    (outside : bound ≤ index) :
    totalWeight weight (Function.update procs index proc) bound =
      totalWeight weight procs bound := by
  induction bound with
  | zero => rfl
  | succ bound inductionHypothesis =>
      have different : bound ≠ index := by omega
      rw [totalWeight, totalWeight, inductionHypothesis (by omega),
        Function.update_of_ne different]

/-- One process changes the total by the change of its own weight. -/
theorem totalWeight_update (weight : Local → Nat) (procs : Nat → Local)
    (proc : Local) {bound index : Nat} (inside : index < bound) :
    totalWeight weight (Function.update procs index proc) bound +
        weight (procs index) =
      totalWeight weight procs bound + weight proc := by
  induction bound with
  | zero => omega
  | succ bound inductionHypothesis =>
      rw [totalWeight, totalWeight]
      by_cases last : bound = index
      · subst last
        rw [totalWeight_update_of_le weight procs proc (Nat.le_refl _),
          Function.update_self]
        omega
      · rw [Function.update_of_ne last]
        have before := inductionHypothesis (by omega)
        omega

/-- A property of one process, kept by its own steps and by those of the
others, holds as long as they run. -/
theorem exec_follow {permitted :
      Config Shared Local → Event Action Change → Prop}
    {property : Shared → Local → Prop} {index : Nat}
    {source target : Config Shared Local}
    {events : List (Event Action Change)}
    (execution : network.machine.Exec permitted source events target)
    (own : ∀ {config action shared proc},
      permitted config (.act index action) →
      network.act index config.shared (config.procs index) action =
        some (shared, proc) →
      property config.shared (config.procs index) → property shared proc)
    (others : ∀ {config other action shared proc},
      permitted config (.act other action) →
      network.act other config.shared (config.procs other) action =
        some (shared, proc) →
      property config.shared (config.procs index) →
      property shared (config.procs index))
    (outside : ∀ config {change shared},
      permitted config (.env change) →
      network.env config.shared change = some shared →
      property config.shared (config.procs index) →
      property shared (config.procs index))
    (initial : property source.shared (source.procs index)) :
    property target.shared (target.procs index) := by
  have kept : ∀ {before event after}, permitted before event →
      network.machine.step before event = some after →
      property before.shared (before.procs index) →
      property after.shared (after.procs index) := by
    intro before event after allowed stepEq holds
    cases event with
    | act other action =>
        obtain ⟨shared, proc, actEq, rfl⟩ := step_act_iff.mp stepEq
        by_cases same : other = index
        · subst same
          simpa using own allowed actEq holds
        · simp only [Function.update_of_ne (Ne.symm same)]
          exact others allowed actEq holds
    | env change =>
        obtain ⟨shared, envEq, rfl⟩ := step_env_iff.mp stepEq
        exact outside before allowed envEq holds
  exact execution.invariant kept initial

end Network

section Outline

variable {Shared : Type u} {Local : Type v} {Action : Type w}
variable {Change : Type x}
variable (network : Network Shared Local Action Change)
variable (permitted :
  Config Shared Local → Event Action Change → Prop)

/-- An invariant of the shared state, an assertion for each process, and the
changes of the shared state that every assertion survives.  At most one
process at a time is the owner: the changes of `ownerRely`, which only it may
make, are ones that the assertions of the other processes survive.  Where no
process is privileged, `owner` is false throughout. -/
structure ProofOutline where
  invariant : Shared → Prop
  assertion : Shared → Local → Prop
  owner : Local → Prop
  rely : Shared → Shared → Prop
  ownerRely : Shared → Shared → Prop
  exclusive : ∀ {config index action shared proc},
    permitted config (.act index action) →
    network.act index config.shared (config.procs index) action =
      some (shared, proc) →
    owner proc → ¬ owner (config.procs index) →
    ∀ other, other ≠ index → ¬ owner (config.procs other)
  act_sound : ∀ {config index action shared proc},
    permitted config (.act index action) →
    network.act index config.shared (config.procs index) action =
      some (shared, proc) →
    invariant config.shared →
    (∀ other, assertion config.shared (config.procs other)) →
    invariant shared ∧ assertion shared proc ∧
      (rely config.shared shared ∨
        owner (config.procs index) ∧ ownerRely config.shared shared)
  env_sound : ∀ {config change shared},
    permitted config (.env change) →
    network.env config.shared change = some shared →
    invariant config.shared →
    (∀ other, assertion config.shared (config.procs other)) →
    invariant shared ∧ ∀ other, assertion shared (config.procs other)
  stable : ∀ {before after proc},
    rely before after → assertion before proc → assertion after proc
  owner_stable : ∀ {before after proc},
    ownerRely before after → ¬ owner proc →
    assertion before proc → assertion after proc

variable {network permitted}

namespace ProofOutline

/-- The invariant and all the assertions hold, and there is at most one
owner. -/
def Holds (outline : ProofOutline network permitted)
    (config : Config Shared Local) : Prop :=
  outline.invariant config.shared ∧
    (∀ index, outline.assertion config.shared (config.procs index)) ∧
    ∀ first second, outline.owner (config.procs first) →
      outline.owner (config.procs second) → first = second

theorem step_preserved (outline : ProofOutline network permitted)
    {config next : Config Shared Local} {event : Event Action Change}
    (allowed : permitted config event)
    (stepEq : network.machine.step config event = some next)
    (holds : outline.Holds config) : outline.Holds next := by
  obtain ⟨invariantBefore, assertions, unique⟩ := holds
  cases event with
  | act index action =>
      obtain ⟨shared, proc, actEq, rfl⟩ := Network.step_act_iff.mp stepEq
      obtain ⟨invariantAfter, ownAssertion, changed⟩ :=
        outline.act_sound allowed actEq invariantBefore assertions
      refine ⟨invariantAfter, fun other => ?_, ?_⟩
      · by_cases same : other = index
        · subst same
          simpa using ownAssertion
        · simp only [Function.update_of_ne same]
          rcases changed with changed | ⟨ownerHere, changed⟩
          · exact outline.stable changed (assertions other)
          · refine outline.owner_stable changed ?_ (assertions other)
            exact fun ownerThere => same (unique _ _ ownerThere ownerHere)
      · -- a process that becomes the owner finds no other owner
        have othersNot : outline.owner proc →
            ∀ other, other ≠ index →
              ¬ outline.owner (config.procs other) := by
          intro ownerNow other different ownerThere
          by_cases ownerBefore : outline.owner (config.procs index)
          · exact different (unique _ _ ownerThere ownerBefore)
          · exact outline.exclusive allowed actEq ownerNow ownerBefore
              other different ownerThere
        intro first second ownerFirst ownerSecond
        by_cases firstSame : first = index
        · by_cases secondSame : second = index
          · rw [firstSame, secondSame]
          · subst firstSame
            simp only [Function.update_self,
              Function.update_of_ne secondSame] at ownerFirst ownerSecond
            exact absurd ownerSecond (othersNot ownerFirst _ secondSame)
        · by_cases secondSame : second = index
          · subst secondSame
            simp only [Function.update_self,
              Function.update_of_ne firstSame] at ownerFirst ownerSecond
            exact absurd ownerFirst (othersNot ownerSecond _ firstSame)
          · simp only [Function.update_of_ne firstSame,
              Function.update_of_ne secondSame] at ownerFirst ownerSecond
            exact unique _ _ ownerFirst ownerSecond
  | env change =>
      obtain ⟨shared, envEq, rfl⟩ := Network.step_env_iff.mp stepEq
      obtain ⟨invariantAfter, assertionsAfter⟩ :=
        outline.env_sound allowed envEq invariantBefore assertions
      exact ⟨invariantAfter, assertionsAfter, unique⟩

/-- The rely-guarantee rule. -/
theorem preserved (outline : ProofOutline network permitted)
    {source target : Config Shared Local}
    {events : List (Event Action Change)}
    (execution : network.machine.Exec permitted source events target)
    (initial : outline.Holds source) : outline.Holds target :=
  execution.invariant outline.step_preserved initial

end ProofOutline

end Outline

end Interleaving
