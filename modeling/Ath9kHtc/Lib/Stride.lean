import Mathlib.Algebra.Ring.Nat
import Mathlib.Data.List.Range

/-!
# Loops with a stride

Loops over the groups of a fixed size that a length is made of.
-/

universe u

variable {σ : Type u} {size len n j : ℕ} {body : ℕ → σ → σ} {s : σ}

/-- `for (; i < len; i += size)`, for `n` rounds at most. -/
def strideLoop (size len : ℕ) (body : ℕ → σ → σ) : ℕ → ℕ → σ → σ
  | 0, _, s => s
  | n + 1, i, s => if i < len then strideLoop size len body n (i + size) (body i s) else s

/-- How often the body is run from the offset 0 on. -/
def strideRounds (size len : ℕ) : ℕ := (len + size - 1) / size

/-- The offsets of the complete groups. -/
def strideGroups (size len : ℕ) : List ℕ := (List.range (len / size)).map (size * ·)

theorem lt_strideRounds (hsize : 0 < size) : j < strideRounds size len ↔ size * j < len := by
  rw [strideRounds, ← Nat.succ_le_iff, Nat.le_div_iff_mul_le hsize, Nat.succ_mul, Nat.mul_comm j]
  omega

theorem strideRounds_le (hsize : 0 < size) : strideRounds size len ≤ len := by
  by_contra hmore
  have hlt := (lt_strideRounds hsize).mp (Nat.lt_of_not_le hmore)
  exact Nat.not_lt.mpr (Nat.le_mul_of_pos_left len hsize) hlt

theorem strideLoop_from (hsize : 0 < size) (hn : strideRounds size len ≤ j + n) :
    strideLoop size len body n (size * j) s =
      ((List.range' j (strideRounds size len - j)).map (size * ·)).foldl (fun s i => body i s) s := by
  induction n generalizing j s with
  | zero =>
    have hzero : strideRounds size len - j = 0 := Nat.sub_eq_zero_of_le hn
    rw [hzero]
    rfl
  | succ n ih =>
    rw [strideLoop]
    split
    · rename_i hlt
      have hj := (lt_strideRounds hsize).mpr hlt
      have hrest : strideRounds size len - j = strideRounds size len - (j + 1) + 1 := by omega
      rw [hrest, List.range'_succ, List.map_cons, List.foldl_cons, ← Nat.mul_succ]
      exact ih (by omega)
    · rename_i hge
      have hj : strideRounds size len ≤ j := Nat.le_of_not_lt fun h => hge ((lt_strideRounds hsize).mp h)
      rw [Nat.sub_eq_zero_of_le hj]
      rfl

/-- The loop over a whole length. -/
theorem strideLoop_eq (hsize : 0 < size) :
    strideLoop size len body len 0 s =
      ((List.range (strideRounds size len)).map (size * ·)).foldl (fun s i => body i s) s := by
  have hloop : strideLoop size len body len (size * 0) s = _ :=
    strideLoop_from hsize (by rw [Nat.zero_add]; exact strideRounds_le hsize)
  rwa [Nat.mul_zero, Nat.sub_zero, ← List.range_eq_range'] at hloop

/-- There is a round for each complete group, and no other where the length is made of them. -/
theorem strideRounds_of_dvd (hsize : 0 < size) (h : size ∣ len) :
    strideRounds size len = len / size := by
  obtain ⟨k, rfl⟩ := h
  rw [strideRounds, Nat.mul_div_cancel_left k hsize, Nat.add_sub_assoc hsize,
    Nat.mul_add_div hsize, Nat.div_eq_of_lt (Nat.sub_lt hsize Nat.one_pos), Nat.add_zero]

theorem strideRounds_of_not_dvd (hsize : 0 < size) (h : ¬ size ∣ len) :
    strideRounds size len = len / size + 1 := by
  have hpos : 0 < len % size := Nat.pos_of_ne_zero fun hzero => h (Nat.dvd_of_mod_eq_zero hzero)
  have hlt := Nat.mod_lt len hsize
  have hdiv := Nat.div_add_mod len size
  apply Nat.le_antisymm
  · apply Nat.le_of_not_lt
    intro hmore
    have hlt' := (lt_strideRounds hsize).mp hmore
    rw [Nat.mul_succ] at hlt'
    omega
  · apply Nat.succ_le_of_lt
    rw [lt_strideRounds hsize]
    omega

/-- What every round keeps where its offset allows it, and no other, holds at the end where all
offsets allow it. -/
theorem strideLoop_iff {P : σ → Prop} {Q : ℕ → Prop} (hsize : 0 < size)
    (hbody : ∀ i s, P (body i s) ↔ P s ∧ Q i) :
    P (strideLoop size len body len 0 s) ↔ P s ∧ ∀ j < strideRounds size len, Q (size * j) := by
  have hfold : ∀ l : List ℕ, ∀ s, P (l.foldl (fun s i => body i s) s) ↔ P s ∧ ∀ i ∈ l, Q i := by
    intro l
    induction l with
    | nil => simp
    | cons i l ih =>
      intro s
      rw [List.foldl_cons, ih, hbody, List.forall_mem_cons, and_assoc]
  rw [strideLoop_eq hsize, hfold]
  simp

/-- All rounds stay within the length where it is made of complete groups. -/
theorem dvd_iff_rounds_within (hsize : 0 < size) :
    size ∣ len ↔ ∀ j < strideRounds size len, size * j + size ≤ len := by
  constructor
  · intro h j hj
    rw [strideRounds_of_dvd hsize h] at hj
    rw [← Nat.mul_succ]
    exact (Nat.mul_le_mul_left size hj).trans (Nat.mul_div_le len size)
  · intro h
    by_contra hnot
    have hlast := h (len / size) (by rw [strideRounds_of_not_dvd hsize hnot]; exact Nat.lt_succ_self _)
    have hdiv := Nat.div_add_mod len size
    have hlt := Nat.mod_lt len hsize
    omega
