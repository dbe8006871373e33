import Mathlib.Algebra.Ring.Nat
import Mathlib.Data.List.Basic
import Mathlib.Order.Basic

/-!
# Ranges cut into tiles

A tile is its start and its size.  A list of tiles covers a range exactly once, in order.
-/

/-- The tiles are not empty, follow each other, and reach from `lo` to `hi`. -/
def Tiles : ℕ → ℕ → List (ℕ × ℕ) → Prop
  | lo, hi, [] => lo = hi
  | lo, hi, t :: ts => t.1 = lo ∧ 0 < t.2 ∧ Tiles (lo + t.2) hi ts

namespace Tiles

variable {lo hi x : ℕ} {t t' : ℕ × ℕ} {ts : List (ℕ × ℕ)}

theorem le (h : Tiles lo hi ts) : lo ≤ hi := by
  induction ts generalizing lo with
  | nil => exact Nat.le_of_eq h
  | cons t ts ih =>
    obtain ⟨-, -, hrest⟩ := h
    exact Nat.le_trans (Nat.le_add_right lo t.2) (ih hrest)

theorem bounds (h : Tiles lo hi ts) (ht : t ∈ ts) : lo ≤ t.1 ∧ 0 < t.2 ∧ t.1 + t.2 ≤ hi := by
  induction ts generalizing lo with
  | nil => cases ht
  | cons first ts ih =>
    obtain ⟨hfirst, hpos, hrest⟩ := h
    rcases List.mem_cons.mp ht with rfl | ht
    · subst hfirst
      exact ⟨Nat.le_refl _, hpos, hrest.le⟩
    · obtain ⟨hlo, hsize, hhi⟩ := ih hrest ht
      exact ⟨Nat.le_trans (Nat.le_add_right lo first.2) hlo, hsize, hhi⟩

/-- No position is left out. -/
theorem exists_mem (h : Tiles lo hi ts) (hlo : lo ≤ x) (hhi : x < hi) :
    ∃ t ∈ ts, t.1 ≤ x ∧ x < t.1 + t.2 := by
  induction ts generalizing lo with
  | nil =>
    have h : lo = hi := h
    omega
  | cons first ts ih =>
    obtain ⟨rfl, -, hrest⟩ := h
    by_cases hin : x < first.1 + first.2
    · exact ⟨first, List.mem_cons_self, hlo, hin⟩
    · obtain ⟨t, ht, hx⟩ := ih hrest (not_lt.mp hin)
      exact ⟨t, List.mem_cons_of_mem _ ht, hx⟩

/-- No position is covered twice. -/
theorem eq_of_mem (h : Tiles lo hi ts) (ht : t ∈ ts) (ht' : t' ∈ ts)
    (hx : t.1 ≤ x ∧ x < t.1 + t.2) (hx' : t'.1 ≤ x ∧ x < t'.1 + t'.2) : t = t' := by
  induction ts generalizing lo with
  | nil => cases ht
  | cons first ts ih =>
    obtain ⟨rfl, -, hrest⟩ := h
    rcases List.mem_cons.mp ht with rfl | hin
    · rcases List.mem_cons.mp ht' with rfl | hin'
      · rfl
      · have hlater := (hrest.bounds hin').1
        omega
    · rcases List.mem_cons.mp ht' with rfl | hin'
      · have hlater := (hrest.bounds hin).1
        omega
      · exact ih hrest hin hin'

end Tiles
