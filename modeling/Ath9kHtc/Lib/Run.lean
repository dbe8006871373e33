import Mathlib.Logic.Relation

/-!
# Runs of a machine

A machine is a set of initial states with labelled steps.  Reachability is
relative to a condition on the steps taken, so that one machine serves the
properties of all its runs and the properties of its disciplined runs.
-/

universe u v w x

/-- A labelled transition system with a set of initial states. -/
structure Machine (State : Type u) (Event : Type v) where
  Init : State → Prop
  Step : State → Event → State → Prop

namespace Machine

variable {State : Type u} {Event : Type v} {State' : Type w} {Event' : Type x}

/-- The machine of a partial step function; an event that yields `none` cannot happen. -/
def ofPartial (Init : State → Prop) (step : Event → State → Option State) :
    Machine State Event where
  Init := Init
  Step s e s' := step e s = some s'

@[simp] theorem ofPartial_step (Init : State → Prop) (step : Event → State → Option State)
    (s s' : State) (e : Event) :
    (ofPartial Init step).Step s e s' ↔ step e s = some s' := Iff.rfl

@[simp] theorem ofPartial_init (Init : State → Prop) (step : Event → State → Option State)
    (s : State) : (ofPartial Init step).Init s ↔ Init s := Iff.rfl

/-- One step whose event meets the condition `ok` in the state it starts from. -/
def StepWhere (M : Machine State Event) (ok : State → Event → Prop) (s s' : State) : Prop :=
  ∃ e, ok s e ∧ M.Step s e s'

/-- Zero or more steps that meet `ok`. -/
abbrev StepsWhere (M : Machine State Event) (ok : State → Event → Prop) :
    State → State → Prop :=
  Relation.ReflTransGen (M.StepWhere ok)

/-- Reachable from an initial state by steps that meet `ok`. -/
def ReachableWhere (M : Machine State Event) (ok : State → Event → Prop) (s : State) : Prop :=
  ∃ s₀, M.Init s₀ ∧ M.StepsWhere ok s₀ s

/-- Reachable by any run. -/
def Reachable (M : Machine State Event) (s : State) : Prop :=
  M.ReachableWhere (fun _ _ => True) s

variable {M : Machine State Event} {ok ok' : State → Event → Prop} {s s' : State}

theorem ReachableWhere.init (h : M.Init s) : M.ReachableWhere ok s :=
  ⟨s, h, .refl⟩

theorem ReachableWhere.step {e : Event} (h : M.ReachableWhere ok s) (he : ok s e)
    (hs : M.Step s e s') : M.ReachableWhere ok s' := by
  obtain ⟨s₀, h₀, steps⟩ := h
  exact ⟨s₀, h₀, steps.tail ⟨e, he, hs⟩⟩

theorem ReachableWhere.trans (h : M.ReachableWhere ok s) (hs : M.StepsWhere ok s s') :
    M.ReachableWhere ok s' := by
  obtain ⟨s₀, h₀, steps⟩ := h
  exact ⟨s₀, h₀, steps.trans hs⟩

/-- What holds initially and is kept by every step holds in every reachable state. -/
theorem ReachableWhere.invariant {P : State → Prop} (h : M.ReachableWhere ok s)
    (hinit : ∀ s, M.Init s → P s)
    (hstep : ∀ s e s', P s → ok s e → M.Step s e s' → P s') : P s := by
  obtain ⟨s₀, h₀, steps⟩ := h
  induction steps with
  | refl => exact hinit s₀ h₀
  | tail _ last ih =>
    obtain ⟨e, he, hs⟩ := last
    exact hstep _ e _ ih he hs

/-- A step from each stage to the next reaches every stage up to the last. -/
theorem ReachableWhere.advance {P : Nat → State → Prop} {last : Nat} (h : M.ReachableWhere ok s)
    (hfirst : P 0 s)
    (hstep : ∀ n s, n < last → P n s → ∃ e s', ok s e ∧ M.Step s e s' ∧ P (n + 1) s')
    (n : Nat) (hn : n ≤ last) : ∃ s', M.ReachableWhere ok s' ∧ P n s' := by
  induction n with
  | zero => exact ⟨s, h, hfirst⟩
  | succ n ih =>
    obtain ⟨mid, hmid, hP⟩ := ih (Nat.le_of_succ_le hn)
    obtain ⟨e, s', he, hs, hP'⟩ := hstep n mid hn hP
    exact ⟨s', hmid.step he hs, hP'⟩

theorem StepsWhere.mono (h : ∀ s e, ok s e → ok' s e) (steps : M.StepsWhere ok s s') :
    M.StepsWhere ok' s s' :=
  Relation.ReflTransGen.mono (fun _ _ ⟨e, he, hs⟩ => ⟨e, h _ e he, hs⟩) _ _ steps

theorem ReachableWhere.mono (h : ∀ s e, ok s e → ok' s e) (hs : M.ReachableWhere ok s) :
    M.ReachableWhere ok' s := by
  obtain ⟨s₀, h₀, steps⟩ := hs
  exact ⟨s₀, h₀, StepsWhere.mono h steps⟩

/-- Steps no one may take lead nowhere. -/
theorem StepsWhere.eq_of_never (steps : M.StepsWhere (fun _ _ => False) s s') : s' = s := by
  induction steps with
  | refl => rfl
  | tail _ last _ =>
    obtain ⟨e, he, -⟩ := last
    exact he.elim

/-- Every state of a run along which an invariant holds is reached with the invariant in
the condition on the steps. -/
theorem ReachableWhere.strengthen {P : State → Prop} (h : M.ReachableWhere ok s)
    (hinv : ∀ s, M.ReachableWhere ok s → P s) :
    M.ReachableWhere (fun s e => ok s e ∧ P s) s := by
  obtain ⟨s₀, h₀, steps⟩ := h
  induction steps with
  | refl => exact .init h₀
  | tail before last ih =>
    obtain ⟨e, he, hs⟩ := last
    exact ih.step ⟨he, hinv _ ⟨s₀, h₀, before⟩⟩ hs

/-- A relation to an abstract machine that every step of the concrete machine can follow by
abstract steps carries reachability over to the abstract machine. -/
theorem ReachableWhere.simulate {A : Machine State' Event'} {okA : State' → Event' → Prop}
    {R : State → State' → Prop} (h : M.ReachableWhere ok s)
    (hinit : ∀ s, M.Init s → ∃ a, A.Init a ∧ R s a)
    (hstep : ∀ s e s' a, M.ReachableWhere ok s → A.ReachableWhere okA a → R s a →
      ok s e → M.Step s e s' → ∃ a', A.StepsWhere okA a a' ∧ R s' a') :
    ∃ a, A.ReachableWhere okA a ∧ R s a := by
  obtain ⟨s₀, h₀, steps⟩ := h
  induction steps with
  | refl =>
    obtain ⟨a, ha, hR⟩ := hinit s₀ h₀
    exact ⟨a, .init ha, hR⟩
  | tail before last ih =>
    obtain ⟨e, he, hs⟩ := last
    obtain ⟨a, ha, hR⟩ := ih
    obtain ⟨a', steps', hR'⟩ := hstep _ e _ a ⟨s₀, h₀, before⟩ ha hR he hs
    exact ⟨a', ha.trans steps', hR'⟩

/-- Run a list of events, each of which has to meet `ok` in the state it starts from. -/
def runWhere (step : Event → State → Option State) (ok : State → Event → Prop)
    [∀ s e, Decidable (ok s e)] : List Event → State → Option State
  | [], s => some s
  | e :: es, s => if ok s e then (step e s).bind (runWhere step ok es) else none

theorem stepsWhere_of_runWhere {Init : State → Prop} {step : Event → State → Option State}
    {ok : State → Event → Prop} [∀ s e, Decidable (ok s e)] {es : List Event} {s s' : State}
    (h : runWhere step ok es s = some s') : (ofPartial Init step).StepsWhere ok s s' := by
  induction es generalizing s with
  | nil =>
    cases h
    exact .refl
  | cons e es ih =>
    rw [runWhere] at h
    split at h
    · obtain ⟨mid, hstep, hrest⟩ := Option.bind_eq_some_iff.mp h
      exact .head ⟨e, ‹_›, hstep⟩ (ih hrest)
    · cases h

/-- What a list of events reaches. -/
theorem exists_of_runWhere (Init : State → Prop) (step : Event → State → Option State)
    (ok : State → Event → Prop) [∀ s e, Decidable (ok s e)] {P : State → Prop} [DecidablePred P]
    (es : List Event) {s : State} (h : (runWhere step ok es s).any (fun s => decide (P s)) = true) :
    ∃ s', (ofPartial Init step).StepsWhere ok s s' ∧ P s' := by
  obtain ⟨s', hrun, hP⟩ := (Option.any_eq_true _ _).mp h
  exact ⟨s', stepsWhere_of_runWhere hrun, of_decide_eq_true hP⟩

end Machine
