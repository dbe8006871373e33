import Mathlib.Data.BitVec

/-!
# Bit fields

Numbers and flags side by side in one machine word.  A field is the mask of its bits and the place
of the lowest; what is put into a field reads back as far as the field is wide, and what is put
beside it does not show.
-/

namespace BitField

/-- The bits of a field and the place of the lowest. -/
structure Field (w : ℕ) where
  mask : BitVec w
  shift : ℕ
  deriving DecidableEq

variable {w : ℕ} {a b g m : BitVec w} {e f : Field w} {c : Prop} [Decidable c]

/-- A number at the place of a field, cut to the field. -/
def put (v : BitVec w) (f : Field w) : BitVec w := v <<< f.shift &&& f.mask

/-- A number cut to the width of a field. -/
def Field.cut (f : Field w) (v : BitVec w) : BitVec w := v &&& f.mask >>> f.shift

/-- The field is `k` bits wide, and they are next to each other. -/
def Field.Wide (f : Field w) (k : ℕ) : Prop :=
  f.shift + k ≤ w ∧ f.mask = BitVec.ofNat w (2 ^ k - 1) <<< f.shift

instance (f : Field w) (k : ℕ) : Decidable (f.Wide k) :=
  inferInstanceAs (Decidable (_ ∧ _))

/-- What the field of a word holds. -/
def get (a : BitVec w) (f : Field w) : BitVec w := (a &&& f.mask) >>> f.shift

/-- One of the flags of the mask is set in the word. -/
def on (a m : BitVec w) : Bool := decide (a &&& m ≠ 0#w)

/-- The flags, if the condition holds. -/
def flag (c : Prop) [Decidable c] (m : BitVec w) : BitVec w := if c then m else 0#w

theorem or_and : (a ||| b) &&& m = (a &&& m) ||| (b &&& m) := by
  ext i hi
  simp only [BitVec.getElem_and, BitVec.getElem_or]
  cases m[i] <;> simp

theorem not_and_of_disjoint (h : g &&& m = 0#w) : ~~~g &&& m = m := by
  ext i hi
  have hbit := congrArg (fun x : BitVec w => x[i]) h
  simp only [BitVec.getElem_and, BitVec.getElem_zero] at hbit
  simp only [BitVec.getElem_and, BitVec.getElem_not]
  cases hg : g[i] <;> cases hm : m[i] <;> simp_all

/-! ## Fields -/

@[simp]
theorem get_or : get (a ||| b) f = get a f ||| get b f := by
  rw [get, get, get, ← BitVec.ushiftRight_or_distrib, or_and]

theorem get_of_disjoint (h : a &&& f.mask = 0#w) : get a f = 0#w := by
  rw [get, h, BitVec.zero_ushiftRight]

/-- What was put into a field reads back, cut to the width of the field. -/
@[simp]
theorem get_put (v : BitVec w) : get (put v f) f = f.cut v := by
  rw [get, put, Field.cut, BitVec.and_assoc, BitVec.and_self]
  ext i hi
  simp only [BitVec.getElem_ushiftRight, BitVec.getElem_and, BitVec.getLsbD_and,
    BitVec.getLsbD_shiftLeft]
  rcases Nat.lt_or_ge (f.shift + i) w with hlt | hge
  · have hback : ¬f.shift + i < f.shift := by omega
    simp [hlt, hback, BitVec.getLsbD_eq_getElem hi]
  · simp [Nat.not_lt.mpr hge, BitVec.getLsbD_of_ge _ _ hge]

theorem Field.Wide.getElem_mask {k i : ℕ} (h : f.Wide k) (hi : i < w) :
    f.mask[i] = decide (f.shift ≤ i ∧ i < f.shift + k) := by
  simp only [h.2, BitVec.getElem_shiftLeft]
  rcases Nat.lt_or_ge i f.shift with hlt | hge
  · simp [hlt, Nat.not_le.mpr hlt]
  · have hiff : i - f.shift < k ↔ i < f.shift + k := by omega
    have hin : i - f.shift < w := by omega
    rw [← BitVec.getLsbD_eq_getElem, BitVec.getLsbD_ofNat, Nat.testBit_two_pow_sub_one]
    simp [hge, Nat.not_lt.mpr hge, hiff, hin]

/-- A number that fits into a field is not cut. -/
theorem Field.Wide.put_of_lt {k : ℕ} {v : BitVec w} (h : f.Wide k) (hv : v.toNat < 2 ^ k) :
    v <<< f.shift = put v f := by
  rw [put]
  ext i hi
  simp only [BitVec.getElem_and, BitVec.getElem_shiftLeft, h.getElem_mask hi]
  rcases Nat.lt_or_ge i f.shift with hlt | hge
  · simp [hlt]
  · rcases Nat.lt_or_ge i (f.shift + k) with hin | hout
    · simp [hge, hin]
    · have hbit : v[i - f.shift] = false := by
        rw [BitVec.getElem_eq_testBit_toNat]
        exact Nat.testBit_lt_two_pow (hv.trans_le (Nat.pow_le_pow_right (by omega) (by omega)))
      simp [hbit]

theorem Field.Wide.cut_of_lt {k : ℕ} {v : BitVec w} (h : f.Wide k) (hv : v.toNat < 2 ^ k) :
    f.cut v = v := by
  rw [Field.cut]
  ext i hi
  simp only [BitVec.getElem_and, BitVec.getElem_ushiftRight]
  rcases Nat.lt_or_ge i k with hin | hout
  · have hlt : f.shift + i < w := lt_of_lt_of_le (Nat.add_lt_add_left hin _) h.1
    rw [BitVec.getLsbD_eq_getElem hlt, h.getElem_mask hlt, decide_eq_true (by omega), Bool.and_true]
  · have hbit : v[i] = false := by
      rw [BitVec.getElem_eq_testBit_toNat]
      exact Nat.testBit_lt_two_pow (hv.trans_le (Nat.pow_le_pow_right (by omega) hout))
    rw [hbit, Bool.false_and]

@[simp]
theorem get_cut_of_disjoint (h : m &&& f.mask = 0#w) : get (a &&& m) f = 0#w := by
  refine get_of_disjoint ?_
  rw [BitVec.and_assoc, h, BitVec.and_zero]

/-- A number already in place in the lowest bits. -/
@[simp]
theorem get_and_mask (v : BitVec w) (h : f.shift = 0) : get (v &&& f.mask) f = f.cut v := by
  rw [get, Field.cut, BitVec.and_assoc, BitVec.and_self, h, BitVec.ushiftRight_zero,
    BitVec.ushiftRight_zero]

@[simp]
theorem get_put_of_disjoint (v : BitVec w) (h : e.mask &&& f.mask = 0#w) :
    get (put v e) f = 0#w :=
  get_cut_of_disjoint h

@[simp]
theorem get_flag_of_disjoint (h : m &&& f.mask = 0#w) : get (flag c m) f = 0#w := by
  rw [flag]
  split
  · exact get_of_disjoint h
  · exact get_of_disjoint BitVec.zero_and

/-- What is cleared beside a field does not show. -/
@[simp]
theorem get_clear_of_disjoint (h : m &&& f.mask = 0#w) : get (a &&& ~~~m) f = get a f := by
  rw [get, get, BitVec.and_assoc, not_and_of_disjoint h]

/-! ## Flags -/

@[simp]
theorem on_or : on (a ||| b) m = (on a m || on b m) := by
  rw [on, on, on, or_and, ← Bool.decide_or]
  refine decide_eq_decide.mpr ?_
  rw [ne_eq, BitVec.or_eq_zero_iff]
  tauto

theorem on_or_mask : on a (g ||| m) = (on a g || on a m) := by
  have hsplit : a &&& (g ||| m) = (a &&& g) ||| (a &&& m) := by
    rw [BitVec.and_comm, or_and, BitVec.and_comm g, BitVec.and_comm m]
  rw [on, on, on, hsplit, ← Bool.decide_or]
  refine decide_eq_decide.mpr ?_
  rw [ne_eq, BitVec.or_eq_zero_iff]
  tauto

theorem on_of_disjoint (h : a &&& m = 0#w) : on a m = false := by
  rw [on, h]
  exact decide_eq_false fun hne => hne rfl

theorem on_of_meets (h : a &&& m ≠ 0#w) : on a m = true :=
  decide_eq_true h

@[simp]
theorem on_flag (h : g &&& m ≠ 0#w) : on (flag c g) m = decide c := by
  rw [flag]
  split <;> rename_i hc
  · rw [on_of_meets h, decide_eq_true hc]
  · rw [on_of_disjoint BitVec.zero_and, decide_eq_false hc]

@[simp]
theorem on_cut_of_disjoint (h : g &&& m = 0#w) : on (a &&& g) m = false := by
  refine on_of_disjoint ?_
  rw [BitVec.and_assoc, h, BitVec.and_zero]

@[simp]
theorem on_put_of_disjoint (v : BitVec w) (h : f.mask &&& m = 0#w) : on (put v f) m = false :=
  on_cut_of_disjoint h

@[simp]
theorem on_flag_of_disjoint (h : g &&& m = 0#w) : on (flag c g) m = false := by
  rw [flag]
  split
  · exact on_of_disjoint h
  · exact on_of_disjoint BitVec.zero_and

/-- What is cleared beside a flag does not show. -/
@[simp]
theorem on_clear_of_disjoint (h : g &&& m = 0#w) : on (a &&& ~~~g) m = on a m := by
  rw [on, on, BitVec.and_assoc, not_and_of_disjoint h]

theorem on_twoPow {k : ℕ} (hk : k < w) : on a (BitVec.twoPow w k) = a.getLsbD k := by
  rw [on, BitVec.and_twoPow]
  cases ha : a.getLsbD k with
  | false => rfl
  | true =>
    refine decide_eq_true fun hzero => ?_
    have hbit := congrArg (BitVec.getLsbD · k) hzero
    simp [hk] at hbit

/-- One flag is set in a conjunction where it is set in both words. -/
theorem on_and {k : ℕ} (hk : k < w) (hm : m = BitVec.twoPow w k) :
    on (a &&& b) m = (on a m && on b m) := by
  rw [hm, on_twoPow hk, on_twoPow hk, on_twoPow hk, BitVec.getLsbD_and]

/-- What the mask takes out is not set. -/
theorem on_clear (a m : BitVec w) : on (a &&& ~~~m) m = false := by
  refine on_of_disjoint ?_
  rw [BitVec.and_assoc]
  ext i hi
  simp

end BitField
