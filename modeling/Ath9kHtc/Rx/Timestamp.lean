import Mathlib.Data.List.Basic
import Mathlib.Tactic.Ring
import Mathlib.Order.Monotone.Basic

/-!
# Time stamps of received frames

The 64-bit counter of the MAC is read in halves, and the 32-bit stamp of a frame is extended to the
counter's width.
-/

namespace Ath9kHtc.Rx

/-! ## Reading the counter -/

section

variable (tsf : ℕ → BitVec 64)

/-- The upper half, in the register read number `n`. -/
def arTsfU32 (n : ℕ) : BitVec 32 := (tsf n).extractLsb' 32 32

/-- The lower half, in the register read number `n`. -/
def arTsfL32 (n : ℕ) : BitVec 32 := (tsf n).extractLsb' 0 32

/-- `ATH9K_HTC_MAX_TSF_READ` -/
def ath9kHtcMaxTsfRead : ℕ := 3

/-- The variables of `ar5416GetTsf64`, and the register reads made so far. -/
structure TsfRead where
  tsfLower : BitVec 32
  tsfUpper1 : BitVec 32
  tsfUpper2 : BitVec 32
  reads : ℕ

/-- The two reads of a round. -/
def TsfRead.round (r : TsfRead) : TsfRead :=
  { r with
    tsfLower := arTsfL32 tsf r.reads
    tsfUpper2 := arTsfU32 tsf (r.reads + 1)
    reads := r.reads + 2 }

/-- The loop of `ar5416GetTsf64`. -/
def tsfLoop : ℕ → TsfRead → TsfRead
  | 0, r => r
  | i + 1, r =>
    let r := r.round tsf
    if r.tsfUpper2 = r.tsfUpper1 then r else tsfLoop i { r with tsfUpper1 := r.tsfUpper2 }

/-- `ar5416GetTsf64` at its return; what the variables hold at first does not matter. -/
def tsfReadout : TsfRead := tsfLoop tsf ath9kHtcMaxTsfRead ⟨0, arTsfU32 tsf 0, 0, 1⟩

/-- `ar5416GetTsf64` -/
def ar5416GetTsf64 : BitVec 64 := (tsfReadout tsf).tsfUpper2 ++ (tsfReadout tsf).tsfLower

end

/-- `ath_extend_tsf`, with the value of the counter. -/
def extendTsf (tsf : BitVec 64) (rstamp : BitVec 32) : BitVec 64 :=
  let tsfLow := (tsf &&& 0xffffffff#64).setWidth 32
  let tsfDelta := ((rstamp - tsfLow) &&& 0xffffffff#32).signExtend 64
  tsf + tsfDelta

/-- `ath_extend_tsf` -/
def athExtendTsf (tsf : ℕ → BitVec 64) (rstamp : BitVec 32) : BitVec 64 :=
  extendTsf (ar5416GetTsf64 tsf) rstamp

/-! ## What is read -/

/-- How often the upper half changes from the read number `n` on, over `m` more reads. -/
def upperChanges (tsf : ℕ → BitVec 64) (n m : ℕ) : ℕ :=
  (List.range' n m).countP fun i => arTsfU32 tsf i != arTsfU32 tsf (i + 1)

theorem upperChanges_add (tsf : ℕ → BitVec 64) (n m l : ℕ) :
    upperChanges tsf n (m + l) = upperChanges tsf n m + upperChanges tsf (n + m) l := by
  rw [upperChanges, ← List.range'_append_1, List.countP_append]
  rfl

/-- A change over two reads is one between neighbouring reads. -/
theorem upperChanges_two {tsf : ℕ → BitVec 64} {n : ℕ}
    (h : arTsfU32 tsf (n + 2) ≠ arTsfU32 tsf n) : 1 ≤ upperChanges tsf n 2 := by
  apply List.countP_pos_iff.mpr
  by_cases hfirst : arTsfU32 tsf n = arTsfU32 tsf (n + 1)
  · refine ⟨n + 1, by simp, ?_⟩
    simpa [← hfirst] using h.symm
  · exact ⟨n, by simp, by simpa using hfirst⟩

/-- The last round of the loop has met two equal upper halves, or the upper half has changed in
every round. -/
theorem tsfLoop_spec (tsf : ℕ → BitVec 64) (i : ℕ) {n : ℕ} {r : TsfRead} (hreads : r.reads = n + 1)
    (hupper : r.tsfUpper1 = arTsfU32 tsf n) :
    ∃ k, (tsfLoop tsf i r).reads = n + 2 * k + 1 ∧
      (i ≤ upperChanges tsf n (2 * k) ∨ ∃ l, k = l + 1 ∧
        arTsfU32 tsf (n + 2 * l + 2) = arTsfU32 tsf (n + 2 * l) ∧
        (tsfLoop tsf i r).tsfLower = arTsfL32 tsf (n + 2 * l + 1) ∧
        (tsfLoop tsf i r).tsfUpper2 = arTsfU32 tsf (n + 2 * l + 2)) := by
  induction i generalizing n r with
  | zero => exact ⟨0, hreads, .inl (Nat.zero_le _)⟩
  | succ i ih =>
    rw [tsfLoop]
    have hread : (r.round tsf).tsfUpper2 = arTsfU32 tsf (n + 2) := by
      rw [TsfRead.round, hreads]
    have hbefore : (r.round tsf).tsfUpper1 = arTsfU32 tsf n := hupper
    split
    · rename_i hsame
      rw [hread, hbefore] at hsame
      refine ⟨1, ?_, .inr ⟨0, rfl, hsame, ?_, hread⟩⟩
      · rw [TsfRead.round, hreads]
      · rw [TsfRead.round, hreads]
    · rename_i hchanged
      rw [hread, hbefore] at hchanged
      obtain ⟨k, hk, hcase⟩ := ih (n := n + 2) (r := { r.round tsf with
        tsfUpper1 := (r.round tsf).tsfUpper2 }) (by rw [TsfRead.round, hreads]) hread
      refine ⟨k + 1, by rw [hk]; ring, ?_⟩
      rcases hcase with hmany | ⟨l, rfl, hsame, hlower, hupper⟩
      · left
        have hfirst := upperChanges_two hchanged
        rw [Nat.mul_succ, Nat.add_comm (2 * k), upperChanges_add]
        omega
      · right
        have hindex : n + 2 * (l + 1) = n + 2 + 2 * l := by ring
        refine ⟨l + 1, rfl, ?_⟩
        rw [hindex]
        exact ⟨hsame, hlower, hupper⟩

/-- Two halves of one value of the counter. -/
theorem upper_append_lower (x : BitVec 64) : x.extractLsb' 32 32 ++ x.extractLsb' 0 32 = x := by
  ext i hi
  rw [BitVec.getElem_append]
  split
  · rw [BitVec.getElem_extractLsb', Nat.zero_add, BitVec.getLsbD_eq_getElem]
  · rename_i hupper
    rw [BitVec.getElem_extractLsb', Nat.add_sub_cancel' (Nat.le_of_not_lt hupper),
      BitVec.getLsbD_eq_getElem]

theorem arTsfU32_mono {tsf : ℕ → BitVec 64} {i j : ℕ} (h : tsf i ≤ tsf j) :
    arTsfU32 tsf i ≤ arTsfU32 tsf j := by
  rw [BitVec.le_def] at h ⊢
  simp only [arTsfU32, BitVec.extractLsb'_toNat, Nat.shiftRight_eq_div_pow]
  have hi := (tsf i).isLt
  have hj := (tsf j).isLt
  omega

/-- The counter does not decrease while it is read, and its upper half changes at most twice. -/
structure Steady (tsf : ℕ → BitVec 64) : Prop where
  mono : ∀ j < (tsfReadout tsf).reads, ∀ i ≤ j, tsf i ≤ tsf j
  changes : upperChanges tsf 0 ((tsfReadout tsf).reads - 1) ≤ 2

/-- The value put together is the counter's at one of the reads. -/
theorem ar5416GetTsf64_eq {tsf : ℕ → BitVec 64} (h : Steady tsf) :
    ∃ i < (tsfReadout tsf).reads, ar5416GetTsf64 tsf = tsf i := by
  obtain ⟨k, hk, hcase⟩ := tsfLoop_spec tsf ath9kHtcMaxTsfRead
    (r := ⟨0, arTsfU32 tsf 0, 0, 1⟩) rfl rfl
  rw [← tsfReadout, Nat.zero_add] at hk
  have hchanges := h.changes
  rw [hk, Nat.add_sub_cancel] at hchanges
  rcases hcase with hmany | ⟨l, rfl, hsame, hlower, hupper⟩
  · exact absurd (hmany.trans hchanges) (by decide)
  · rw [← tsfReadout] at hlower hupper
    refine ⟨0 + 2 * l + 1, by omega, ?_⟩
    have hbelow : arTsfU32 tsf (0 + 2 * l) ≤ arTsfU32 tsf (0 + 2 * l + 1) :=
      arTsfU32_mono (h.mono _ (by omega) _ (by omega))
    have habove : arTsfU32 tsf (0 + 2 * l + 1) ≤ arTsfU32 tsf (0 + 2 * l + 2) :=
      arTsfU32_mono (h.mono _ (by omega) _ (by omega))
    have hmid : arTsfU32 tsf (0 + 2 * l + 2) = arTsfU32 tsf (0 + 2 * l + 1) := by
      apply BitVec.le_antisymm
      · rw [hsame]
        exact hbelow
      · exact habove
    rw [ar5416GetTsf64, hupper, hlower, hmid]
    exact upper_append_lower _

/-! ## The nearest value -/

/-- `v` is in `[t - 2^31, t + 2^31)` modulo `2^64`. -/
def Near (t v : BitVec 64) : Prop := -2 ^ 31 ≤ (v - t).toInt ∧ (v - t).toInt < 2 ^ 31

theorem extendTsf_eq (t : BitVec 64) (r : BitVec 32) :
    extendTsf t r = t + (r - t.setWidth 32).signExtend 64 := by
  have hlow : (t &&& 0xffffffff#64).setWidth 32 = t.setWidth 32 := by
    rw [BitVec.setWidth_and]
    exact BitVec.and_allOnes
  have hmask : ∀ x : BitVec 32, x &&& 0xffffffff#32 = x := fun x => BitVec.and_allOnes
  rw [extendTsf, hlow, hmask]

theorem setWidth_sub (x y : BitVec 64) : (x - y).setWidth 32 = x.setWidth 32 - y.setWidth 32 := by
  apply BitVec.eq_of_toNat_eq
  simp only [BitVec.toNat_setWidth, BitVec.toNat_sub]
  omega

theorem setWidth_extendTsf (t : BitVec 64) (r : BitVec 32) : (extendTsf t r).setWidth 32 = r := by
  have hback : ((r - t.setWidth 32).signExtend 64).setWidth 32 = r - t.setWidth 32 := by
    ext i hi
    rw [BitVec.getElem_setWidth, BitVec.getLsbD_signExtend, if_pos hi,
      BitVec.getLsbD_eq_getElem hi]
    simp [Nat.lt_trans hi]
  rw [extendTsf_eq, BitVec.setWidth_add _ _ (by decide), hback, BitVec.add_comm, BitVec.sub_add_cancel]

theorem near_extendTsf (t : BitVec 64) (r : BitVec 32) : Near t (extendTsf t r) := by
  have hdelta : (extendTsf t r - t).toInt = (r - t.setWidth 32).toInt := by
    rw [extendTsf_eq, BitVec.add_comm, BitVec.add_sub_cancel,
      BitVec.toInt_signExtend_of_le (by decide)]
  rw [Near, hdelta]
  exact ⟨BitVec.le_toInt _, BitVec.toInt_lt⟩

theorem extendTsf_of_near {t v : BitVec 64} (h : Near t v) : extendTsf t (v.setWidth 32) = v := by
  have hdelta : (v.setWidth 32 - t.setWidth 32).signExtend 64 = v - t := by
    apply BitVec.eq_of_toInt_eq
    rw [← setWidth_sub, BitVec.toInt_signExtend_of_le (by decide), BitVec.toInt_setWidth]
    obtain ⟨hlow, hhigh⟩ := h
    rw [BitVec.toInt_eq_toNat_cond] at hlow hhigh ⊢
    have := (v - t).isLt
    rw [Int.bmod_def]
    split at hlow <;> split <;> omega
  rw [extendTsf_eq, hdelta, BitVec.add_comm, BitVec.sub_add_cancel]

/-- Values of the counter less than `2^31` apart are near. -/
theorem near_of_lt {t v : BitVec 64} (hbefore : v.toNat < t.toNat + 2 ^ 31)
    (hbehind : t.toNat < v.toNat + 2 ^ 31) : Near t v := by
  rw [Near, BitVec.toInt_eq_toNat_cond, BitVec.toNat_sub]
  have ht := t.isLt
  have hv := v.isLt
  constructor <;> split <;> omega

/-- The value read is one of the counter's while it was read, and the extended stamp is the one
value near it with the stamp for its lower half; a frame stamped less than `2^31` before or after
the read gets its time. -/
theorem timestamp_extended {tsf : ℕ → BitVec 64} (h : Steady tsf) :
    tsf 0 ≤ ar5416GetTsf64 tsf ∧
      ar5416GetTsf64 tsf ≤ tsf ((tsfReadout tsf).reads - 1) ∧
      (∀ t v r, extendTsf t r = v ↔ Near t v ∧ v.setWidth 32 = r) ∧
      ∀ v : BitVec 64, v.toNat < (ar5416GetTsf64 tsf).toNat + 2 ^ 31 →
        (ar5416GetTsf64 tsf).toNat < v.toNat + 2 ^ 31 → athExtendTsf tsf (v.setWidth 32) = v := by
  obtain ⟨i, hi, hread⟩ := ar5416GetTsf64_eq h
  refine ⟨?_, ?_, fun t v r => ⟨?_, ?_⟩, fun v hbefore hbehind => ?_⟩
  · rw [hread]
    exact h.mono i hi 0 (Nat.zero_le i)
  · rw [hread]
    exact h.mono _ (by omega) i (by omega)
  · rintro rfl
    exact ⟨near_extendTsf t r, setWidth_extendTsf t r⟩
  · rintro ⟨hnear, rfl⟩
    exact extendTsf_of_near hnear
  · exact extendTsf_of_near (near_of_lt hbefore hbehind)

/-- A counter whose upper half changes twice while it is read. -/
def tornCounter (n : ℕ) : BitVec 64 :=
  if n < 2 then 0x00000012fffffffe else if n < 4 then 0x0000001300000001 else 0x0000001400000000

theorem timestamp_extended_torn : ar5416GetTsf64 tornCounter = 0x0000001400000000 ∧
    athExtendTsf tornCounter 0xfffffffe = 0x00000013fffffffe :=
  have hsteady : Steady tornCounter := ⟨by decide, by decide⟩
  ⟨by decide, (timestamp_extended hsteady).2.2.2 0x00000013fffffffe (by decide) (by decide)⟩

end Ath9kHtc.Rx
