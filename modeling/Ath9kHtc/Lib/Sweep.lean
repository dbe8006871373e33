import Mathlib.Data.Nat.Init
import Mathlib.Logic.Function.Basic
import Mathlib.Order.Lattice
import Mathlib.Order.Defs.LinearOrder

/-!
# Sweeps over an array

The entries of an array belong to classes, and within a class no entry is above its successor.
After one entry changed, a sweep down from it and a sweep up from it put the array in order again.
-/

namespace Sweep

variable {α γ : Type*} [LinearOrder α]

/-- Going down from `t` as long as `inClass` holds, no entry stays above its successor. -/
def lowerBelow (inClass : ℕ → Prop) [DecidablePred inClass] : ℕ → (ℕ → α) → (ℕ → α)
  | 0, f => f
  | r + 1, f =>
      if inClass r then
        lowerBelow inClass r (Function.update f r (min (f r) (f (r + 1))))
      else f

/-- Going up `count` steps from `r`, no entry stays below its predecessor. -/
def raiseAbove : ℕ → ℕ → (ℕ → α) → (ℕ → α)
  | 0, _, f => f
  | count + 1, r, f =>
      raiseAbove count (r + 1) (Function.update f (r + 1) (max (f (r + 1)) (f r)))

/-- Neighbours of one class below `n` rise. -/
def Rising (cls : ℕ → γ) (n : ℕ) (f : ℕ → α) : Prop :=
  ∀ r, r + 1 < n → cls r = cls (r + 1) → f r ≤ f (r + 1)

/-- As `Rising`, but the step to `t` may fall. -/
def RisingBut (t : ℕ) (cls : ℕ → γ) (n : ℕ) (f : ℕ → α) : Prop :=
  ∀ r, r + 1 < n → cls r = cls (r + 1) → r + 1 ≠ t → f r ≤ f (r + 1)

variable {cls : ℕ → γ} {n t : ℕ} {f : ℕ → α}

/-- A smaller entry at `t` breaks no step but the one to it. -/
theorem Rising.update_le (h : Rising cls n f) {v : α} (hv : v ≤ f t) :
    RisingBut t cls n (Function.update f t v) := by
  intro r hr hcls hne
  have hle := h r hr hcls
  rw [Function.update_of_ne hne]
  by_cases hrt : r = t
  · subst hrt
    rw [Function.update_self]
    exact hv.trans hle
  · rwa [Function.update_of_ne hrt]

/-- A larger entry at `t` breaks no step but the one from it. -/
theorem Rising.update_ge (h : Rising cls n f) {v : α} (hv : f t ≤ v) :
    RisingBut (t + 1) cls n (Function.update f t v) := by
  intro r hr hcls hne
  have hle := h r hr hcls
  have hrt : r ≠ t := fun heq => hne (congrArg (· + 1) heq)
  rw [Function.update_of_ne hrt]
  by_cases hnext : r + 1 = t
  · subst hnext
    rw [Function.update_self]
    exact hle.trans hv
  · rwa [Function.update_of_ne hnext]

/-- The sweep down mends the step to the entry it starts from. -/
theorem RisingBut.lowerBelow {inClass : ℕ → Prop} [DecidablePred inClass] {c : γ}
    (hclass : ∀ r, inClass r ↔ cls r = c) (ht : cls t = c) (h : RisingBut t cls n f) :
    Rising cls n (Sweep.lowerBelow inClass t f) := by
  induction t generalizing f with
  | zero => exact fun r hr hcls => h r hr hcls (Nat.succ_ne_zero r)
  | succ r ih =>
      rw [Sweep.lowerBelow]
      by_cases hin : inClass r
      · rw [if_pos hin]
        apply ih ((hclass r).mp hin)
        intro r' hr' hcls hne
        rw [Function.update_of_ne hne]
        by_cases heq : r' = r
        · subst heq
          rw [Function.update_self]
          exact min_le_right _ _
        · rw [Function.update_of_ne heq]
          exact h r' hr' hcls fun hnext => heq (Nat.succ.inj hnext)
      · rw [if_neg hin]
        intro r' hr' hcls
        apply h r' hr' hcls
        rintro hnext
        obtain rfl : r' = r := Nat.succ.inj hnext
        exact hin ((hclass r').mpr (hcls.trans ht))

/-- The sweep up mends the step from the entry it starts from, if it gets to the end. -/
theorem RisingBut.raiseAbove {count : ℕ} (hend : n ≤ t + count + 1)
    (h : RisingBut (t + 1) cls n f) : Rising cls n (Sweep.raiseAbove count t f) := by
  induction count generalizing t f with
  | zero =>
      intro r hr hcls
      apply h r hr hcls
      omega
  | succ count ih =>
      rw [Sweep.raiseAbove]
      apply ih (by omega)
      intro r hr hcls hne
      have hnot : r ≠ t + 1 := fun heq => hne (congrArg (· + 1) heq)
      rw [Function.update_of_ne hnot]
      by_cases heq : r = t
      · subst heq
        rw [Function.update_self]
        exact le_max_right _ _
      · have hnext : r + 1 ≠ t + 1 := fun hnext => heq (Nat.succ.inj hnext)
        rw [Function.update_of_ne hnext]
        exact h r hr hcls hnext

/-- A sweep down shows no value that was not there. -/
theorem lowerBelow_le {b : α} (inClass : ℕ → Prop) [DecidablePred inClass] (t : ℕ)
    (h : ∀ r, f r ≤ b) (r : ℕ) : lowerBelow inClass t f r ≤ b := by
  induction t generalizing f with
  | zero => exact h r
  | succ s ih =>
      rw [lowerBelow]
      split
      · apply ih
        intro r'
        by_cases heq : r' = s
        · subst heq
          rw [Function.update_self]
          exact (min_le_left _ _).trans (h r')
        · rw [Function.update_of_ne heq]
          exact h r'
      · exact h r

theorem raiseAbove_le {b : α} (count t : ℕ) (h : ∀ r, f r ≤ b) (r : ℕ) :
    raiseAbove count t f r ≤ b := by
  induction count generalizing t f with
  | zero => exact h r
  | succ count ih =>
      rw [raiseAbove]
      apply ih
      intro r'
      by_cases heq : r' = t + 1
      · subst heq
        rw [Function.update_self]
        exact max_le (h _) (h t)
      · rw [Function.update_of_ne heq]
        exact h r'

/-- A change that keeps the order keeps the array in order. -/
theorem Rising.map {g : α → α} (h : Rising cls n f) (hg : Monotone g) :
    Rising cls n (fun r => if r < n then g (f r) else f r) := by
  intro r hr hcls
  have hlt : r < n := (Nat.lt_succ_self r).trans hr
  simp only [hr, hlt, if_true]
  exact hg (h r hr hcls)

end Sweep
