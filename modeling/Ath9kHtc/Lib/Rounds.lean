import Mathlib.Data.List.Basic
import Mathlib.Order.WellFounded

/-!
# Loops that take an answer in every round

A round asks its environment, may fail, and says whether it was the last one.  What a loop does
is told by its rule, and that it returns by a measure that every round makes smaller.
-/

namespace Rounds

universe u v w

variable {α : Type u} {σ : Type v} {β : Type w}

/-- The rounds of a loop; there is no result where one of them fails or the answers run out. -/
def loop (round : α → σ → Option (σ × Bool)) : List α → σ → Option σ
  | [], _ => none
  | a :: as, s => (round a s).bind fun (s, more) => if more then loop round as s else some s

/-- The state in which a round starts, if the loop gets there. -/
def start (round : α → σ → Option (σ × Bool)) (input : ℕ → α) : ℕ → σ → Option σ
  | 0, s => some s
  | n + 1, s => (start round input n s).bind fun s =>
      (round (input n) s).bind fun (s, more) => if more then some s else none

variable {round : α → σ → Option (σ × Bool)} {input : ℕ → α} {s s' : σ}

theorem start_one {more : Bool} (h : round (input 0) s = some (s', more)) :
    start round input 1 s = if more then some s' else none := by
  rw [start, start, Option.bind_some, h]
  rfl

/-- Where a loop does not get, it does not get later either. -/
theorem start_none {n m : ℕ} (h : start round input n s = none) (hle : n ≤ m) :
    start round input m s = none := by
  induction m, hle using Nat.le_induction with
  | base => exact h
  | succ m _ ih => rw [start, ih, Option.bind_none]

/-- The rounds after the first are those of a loop of their own. -/
theorem start_succ (h : round (input 0) s = some (s', true)) (n : ℕ) :
    start round input (n + 1) s = start round (fun i => input (i + 1)) n s' := by
  induction n with
  | zero => exact start_one h
  | succ n ih =>
      rw [start, ih]
      rfl

/-- What every round keeps holds until the last one ends. -/
theorem loop_rule (Inv Post : σ → Prop) (hround : ∀ a s s' more, Inv s →
      round a s = some (s', more) → if more then Inv s' else Post s') :
    ∀ {as : List α} {s s' : σ}, Inv s → loop round as s = some s' → Post s' := by
  intro as
  induction as with
  | nil =>
      intro s s' _ h
      cases h
  | cons a as ih =>
      intro s s' hinv h
      obtain ⟨⟨s₁, more⟩, hone, h⟩ := Option.bind_eq_some_iff.mp h
      have hkeep := hround a s s₁ more hinv hone
      cases more with
      | true => exact ih hkeep h
      | false =>
          obtain rfl := Option.some_inj.mp h
          exact hkeep

/-- A loop returns if no round fails and each makes a measure smaller.  `Ok` is what a round
relies on beside what the rounds before it have kept. -/
theorem loop_returns {r : β → β → Prop} (hr : WellFounded r) (measure : σ → β) (Inv : σ → Prop)
    (Ok : α → σ → Prop)
    (hround : ∀ a s, Inv s → Ok a s → ∃ s' more, round a s = some (s', more) ∧
      (more = true → Inv s' ∧ r (measure s') (measure s))) :
    ∀ {input : ℕ → α} {s : σ}, Inv s →
      (∀ n s', start round input n s = some s' → Ok (input n) s') →
      ∃ n s', loop round ((List.range n).map input) s = some s' := by
  have hmeasure := InvImage.wf measure hr
  intro input s
  induction s using hmeasure.induction generalizing input with
  | _ s ih =>
      intro hinv hok
      obtain ⟨s₁, more, hone, hnext⟩ := hround (input 0) s hinv (hok 0 s rfl)
      have hfirst : ∀ n, loop round ((List.range (n + 1)).map input) s =
          if more then loop round ((List.range n).map fun i => input (i + 1)) s₁ else some s₁ := by
        intro n
        rw [List.range_succ_eq_map, List.map_cons, List.map_map, loop, hone]
        rfl
      cases more with
      | false => exact ⟨1, s₁, hfirst 0⟩
      | true =>
          obtain ⟨hinv', hless⟩ := hnext rfl
          obtain ⟨n, s', hrest⟩ := ih s₁ hless hinv' fun n s' hs' => by
            apply hok (n + 1) s'
            rw [start_succ hone]
            exact hs'
          exact ⟨n + 1, s', (hfirst n).trans hrest⟩

end Rounds
