import Mathlib.Algebra.BigOperators.Group.Finset.Basic
import Mathlib.Data.Finset.Card
import Mathlib.Data.Nat.Count
import Mathlib.Data.Nat.ModEq
import Mathlib.Logic.Function.Basic

/-!
# Sliding windows over circular numbers

A window stands for a run of consecutive numbers modulo `N`, kept as marks in a ring of `M`
slots.  Marks are set in any order; the window moves past the numbers at its start whose
marks are clear.
-/

/-- The number of steps from `a` forward to `b` on a ring of `n`. -/
def fwd (n a b : ℕ) : ℕ := (b + n - a) % n

section Ring

variable {n a b k : ℕ}

theorem add_mod_of_lt_or_sub (ha : a < n) (hk : k ≤ n) :
    a + k < n ∧ (a + k) % n = a + k ∨ n ≤ a + k ∧ (a + k) % n = a + k - n := by
  rcases lt_or_ge (a + k) n with h | h
  · exact .inl ⟨h, Nat.mod_eq_of_lt h⟩
  · refine .inr ⟨h, ?_⟩
    rw [Nat.mod_eq_sub_mod h]
    exact Nat.mod_eq_of_lt (by omega)

theorem fwd_cases (ha : a < n) (hb : b < n) :
    a ≤ b ∧ fwd n a b = b - a ∨ b < a ∧ fwd n a b = b + n - a := by
  rcases le_or_gt a b with h | h
  · refine .inl ⟨h, ?_⟩
    rw [fwd, show b + n - a = b - a + n by omega, Nat.add_mod_right]
    exact Nat.mod_eq_of_lt (by omega)
  · exact .inr ⟨h, Nat.mod_eq_of_lt (by omega)⟩

theorem fwd_lt (hn : 0 < n) : fwd n a b < n := Nat.mod_lt _ hn

theorem fwd_self (ha : a < n) : fwd n a a = 0 := by
  rcases fwd_cases ha ha with h | h <;> omega

theorem fwd_eq_zero (ha : a < n) (hb : b < n) : fwd n a b = 0 ↔ a = b := by
  rcases fwd_cases ha hb with h | h <;> omega

theorem add_fwd (ha : a < n) (hb : b < n) : (a + fwd n a b) % n = b := by
  have hlt : fwd n a b < n := fwd_lt (by omega)
  rcases fwd_cases ha hb with h | h <;>
    rcases add_mod_of_lt_or_sub ha hlt.le with h' | h' <;> omega

theorem fwd_add (ha : a < n) (hk : k < n) : fwd n a ((a + k) % n) = k := by
  have hlt : (a + k) % n < n := Nat.mod_lt _ (by omega)
  rcases add_mod_of_lt_or_sub ha hk.le with h' | h' <;>
    rcases fwd_cases ha hlt with h | h <;> omega

/-- Moving the origin forward by no more than the distance shortens the distance. -/
theorem fwd_advance (ha : a < n) (hb : b < n) (hk : k ≤ fwd n a b) :
    fwd n ((a + k) % n) b = fwd n a b - k := by
  have hlt : fwd n a b < n := fwd_lt (by omega)
  have hmod : (a + k) % n < n := Nat.mod_lt _ (by omega)
  rcases fwd_cases ha hb with h | h <;>
    rcases add_mod_of_lt_or_sub ha (by omega : k ≤ n) with h' | h' <;>
    rcases fwd_cases hmod hb with h'' | h'' <;> omega

theorem fwd_inj {c : ℕ} (ha : a < n) (hb : b < n) (hc : c < n) (h : fwd n a b = fwd n a c) :
    b = c := by
  rw [← add_fwd ha hb, h, add_fwd ha hc]

theorem add_mod_inj {j : ℕ} (ha : a < n) (hj : j < n) (hk : k < n)
    (h : (a + j) % n = (a + k) % n) : j = k := by
  rw [← fwd_add ha hj, h, fwd_add ha hk]

end Ring

/-- The start number, the ring positions of the start and of the end, and the marks. -/
structure SlidingWindow where
  start : ℕ
  head : ℕ
  tail : ℕ
  mark : ℕ → Bool

namespace SlidingWindow

variable (N M : ℕ)

def size (w : SlidingWindow) : ℕ := fwd M w.head w.tail

/-- How far a number lies behind the start. -/
def offset (w : SlidingWindow) (s : ℕ) : ℕ := fwd N w.start s

/-- The mark of the number at an offset. -/
def slot (w : SlidingWindow) (j : ℕ) : Bool := w.mark ((w.head + j) % M)

structure Valid (w : SlidingWindow) : Prop where
  start_lt : w.start < N
  head_lt : w.head < M
  tail_lt : w.tail < M

/-- Mark a number, extending the window up to it. -/
def add (w : SlidingWindow) (s : ℕ) : SlidingWindow where
  start := w.start
  head := w.head
  tail := if w.size M ≤ w.offset N s then (w.head + w.offset N s + 1) % M else w.tail
  mark := Function.update w.mark ((w.head + w.offset N s) % M) true

def unmark (w : SlidingWindow) (s : ℕ) : SlidingWindow :=
  { w with mark := Function.update w.mark ((w.head + w.offset N s) % M) false }

def step (w : SlidingWindow) : SlidingWindow :=
  { w with start := (w.start + 1) % N, head := (w.head + 1) % M }

/-- Move past the numbers at the start whose marks are clear. -/
def slide : ℕ → SlidingWindow → SlidingWindow
  | 0, w => w
  | n + 1, w => if w.head ≠ w.tail ∧ w.mark w.head = false then slide n (w.step N M) else w

/-- Unmark a number and slide. -/
def retire (w : SlidingWindow) (s : ℕ) : SlidingWindow :=
  slide N M M (w.unmark N M s)

def clearHead (w : SlidingWindow) : SlidingWindow :=
  { w with mark := Function.update w.mark w.head false }

/-- Move to the end of the window, clearing its marks and counting those that were set. -/
def flush : ℕ → SlidingWindow → ℕ × SlidingWindow
  | 0, w => (0, w)
  | n + 1, w =>
    if w.head = w.tail then (0, w)
    else
      let rest := flush n ((w.clearHead).step N M)
      ((w.mark w.head).toNat + rest.1, rest.2)

variable {N M} {w : SlidingWindow}

theorem Valid.size_lt (h : w.Valid N M) : w.size M < M :=
  fwd_lt (Nat.zero_lt_of_lt h.head_lt)

theorem Valid.offset_lt (h : w.Valid N M) (s : ℕ) : w.offset N s < N :=
  fwd_lt (Nat.zero_lt_of_lt h.start_lt)

theorem Valid.size_eq_zero (h : w.Valid N M) : w.size M = 0 ↔ w.head = w.tail :=
  fwd_eq_zero h.head_lt h.tail_lt

theorem Valid.slot_zero (h : w.Valid N M) : w.slot M 0 = w.mark w.head := by
  rw [slot, Nat.add_zero, Nat.mod_eq_of_lt h.head_lt]

theorem Valid.offset_inj (h : w.Valid N M) {s s' : ℕ} (hs : s < N) (hs' : s' < N)
    (he : w.offset N s = w.offset N s') : s = s' :=
  fwd_inj h.start_lt hs hs' he

theorem Valid.offset_add (h : w.Valid N M) {j : ℕ} (hj : j < N) :
    w.offset N ((w.start + j) % N) = j :=
  fwd_add h.start_lt hj

theorem Valid.start_add_offset (h : w.Valid N M) {s : ℕ} (hs : s < N) :
    (w.start + w.offset N s) % N = s :=
  add_fwd h.start_lt hs

/-! ## Adding -/

theorem Valid.add (h : w.Valid N M) (s : ℕ) : (w.add N M s).Valid N M where
  start_lt := h.start_lt
  head_lt := h.head_lt
  tail_lt := by
    simp only [SlidingWindow.add]
    split
    · exact Nat.mod_lt _ (Nat.zero_lt_of_lt h.head_lt)
    · exact h.tail_lt

@[simp] theorem add_start (s : ℕ) : (w.add N M s).start = w.start := rfl

@[simp] theorem offset_of_add (s s' : ℕ) : (w.add N M s).offset N s' = w.offset N s' := rfl

theorem Valid.size_add (h : w.Valid N M) {s : ℕ} (hs : w.offset N s + 1 < M) :
    (w.add N M s).size M = max (w.size M) (w.offset N s + 1) := by
  rcases le_or_gt (w.size M) (w.offset N s) with hle | hgt
  · rw [size, SlidingWindow.add, if_pos hle, Nat.add_assoc, fwd_add h.head_lt hs]
    omega
  · rw [size, SlidingWindow.add, if_neg (by omega)]
    change w.size M = _
    omega

theorem Valid.slot_add (h : w.Valid N M) {s j : ℕ} (hs : w.offset N s < M) (hj : j < M) :
    (w.add N M s).slot M j = (decide (j = w.offset N s) || w.slot M j) := by
  simp only [slot, SlidingWindow.add, Function.update_apply]
  rcases eq_or_ne j (w.offset N s) with rfl | hne
  · simp
  · rw [if_neg fun he => hne (add_mod_inj h.head_lt hj hs he)]
    simp [hne]

/-! ## Retiring -/

theorem Valid.unmark (h : w.Valid N M) (s : ℕ) : (w.unmark N M s).Valid N M :=
  ⟨h.start_lt, h.head_lt, h.tail_lt⟩

@[simp] theorem size_unmark (s : ℕ) : (w.unmark N M s).size M = w.size M := rfl

@[simp] theorem unmark_start (s : ℕ) : (w.unmark N M s).start = w.start := rfl

theorem Valid.slot_unmark (h : w.Valid N M) {s j : ℕ} (hs : w.offset N s < M) (hj : j < M) :
    (w.unmark N M s).slot M j = (decide (j ≠ w.offset N s) && w.slot M j) := by
  simp only [slot, SlidingWindow.unmark, Function.update_apply]
  rcases eq_or_ne j (w.offset N s) with rfl | hne
  · simp
  · rw [if_neg fun he => hne (add_mod_inj h.head_lt hj hs he)]
    simp [hne]

/-- The window `a` numbers further on. -/
def moved (N M : ℕ) (w : SlidingWindow) (a : ℕ) : SlidingWindow :=
  { w with start := (w.start + a) % N, head := (w.head + a) % M }

theorem Valid.moved (h : w.Valid N M) (a : ℕ) : (w.moved N M a).Valid N M where
  start_lt := Nat.mod_lt _ (Nat.zero_lt_of_lt h.start_lt)
  head_lt := Nat.mod_lt _ (Nat.zero_lt_of_lt h.head_lt)
  tail_lt := h.tail_lt

theorem Valid.moved_zero (h : w.Valid N M) : w.moved N M 0 = w := by
  simp only [SlidingWindow.moved, Nat.add_zero, Nat.mod_eq_of_lt h.start_lt,
    Nat.mod_eq_of_lt h.head_lt]

theorem moved_step (a : ℕ) : (w.step N M).moved N M a = w.moved N M (a + 1) := by
  simp only [SlidingWindow.moved, step, Nat.mod_add_mod, Nat.add_assoc, Nat.add_comm a 1]

theorem Valid.size_moved (h : w.Valid N M) {a : ℕ} (ha : a ≤ w.size M) :
    (w.moved N M a).size M = w.size M - a :=
  fwd_advance h.head_lt h.tail_lt ha

theorem Valid.offset_moved (h : w.Valid N M) {a s : ℕ} (hs : s < N) (ha : a ≤ w.offset N s) :
    (w.moved N M a).offset N s = w.offset N s - a :=
  fwd_advance h.start_lt hs ha

theorem slot_moved (a j : ℕ) : (w.moved N M a).slot M j = w.slot M (a + j) := by
  simp only [slot, SlidingWindow.moved, Nat.mod_add_mod, Nat.add_assoc]

theorem Valid.step (h : w.Valid N M) : (w.step N M).Valid N M := h.moved 1

/-- Sliding moves the window to its first set mark, or to its end. -/
theorem Valid.slide (h : w.Valid N M) {n : ℕ} (hn : w.size M ≤ n) :
    ∃ a ≤ w.size M, SlidingWindow.slide N M n w = w.moved N M a ∧
      (∀ j < a, w.slot M j = false) ∧ (a < w.size M → w.slot M a = true) := by
  induction n generalizing w with
  | zero =>
    refine ⟨0, Nat.zero_le _, ?_, fun j hj => absurd hj (Nat.not_lt_zero j), fun hlt => by omega⟩
    rw [h.moved_zero, SlidingWindow.slide]
  | succ n ih =>
    rw [SlidingWindow.slide]
    split
    · rename_i hc
      have hpos : 1 ≤ w.size M := by
        rw [Nat.one_le_iff_ne_zero]
        exact fun h0 => hc.1 (h.size_eq_zero.mp h0)
      have hsize : (w.step N M).size M = w.size M - 1 := h.size_moved hpos
      obtain ⟨a, hle, heq, hclear, hset⟩ := ih h.step (by omega)
      refine ⟨a + 1, by omega, by rw [heq, moved_step], fun j hj => ?_, fun hlt => ?_⟩
      · cases j with
        | zero => rw [h.slot_zero, hc.2]
        | succ j =>
          have := hclear j (by omega)
          rwa [show w.step N M = w.moved N M 1 from rfl, slot_moved, Nat.add_comm] at this
      · have := hset (by omega)
        rwa [show w.step N M = w.moved N M 1 from rfl, slot_moved, Nat.add_comm] at this
    · rename_i hc
      refine ⟨0, Nat.zero_le _, by rw [h.moved_zero], fun j hj => absurd hj (Nat.not_lt_zero j),
        fun hlt => ?_⟩
      rw [h.slot_zero]
      by_contra hfalse
      refine hc ⟨fun he => ?_, by simpa using hfalse⟩
      rw [h.size_eq_zero.mpr he] at hlt
      omega

theorem Valid.retire (h : w.Valid N M) (s : ℕ) :
    ∃ a ≤ w.size M, w.retire N M s = (w.unmark N M s).moved N M a ∧
      (∀ j < a, (w.unmark N M s).slot M j = false) ∧
      (a < w.size M → (w.unmark N M s).slot M a = true) :=
  (h.unmark s).slide h.size_lt.le

/-! ## Flushing -/

theorem Valid.clearHead (h : w.Valid N M) : w.clearHead.Valid N M :=
  ⟨h.start_lt, h.head_lt, h.tail_lt⟩

theorem Valid.slot_clearHead (h : w.Valid N M) {j : ℕ} (hj : j < M) :
    w.clearHead.slot M j = (decide (j ≠ 0) && w.slot M j) := by
  simp only [slot, SlidingWindow.clearHead, Function.update_apply]
  rcases Nat.eq_zero_or_pos j with rfl | hpos
  · simp [Nat.mod_eq_of_lt h.head_lt]
  · have hne : (w.head + j) % M ≠ w.head := by
      intro he
      have := add_mod_inj (k := 0) h.head_lt hj (by omega)
        (by rw [he, Nat.add_zero, Nat.mod_eq_of_lt h.head_lt])
      omega
    rw [if_neg hne]
    simp [Nat.pos_iff_ne_zero.mp hpos]

/-- Flushing counts the marks of the window, clears them and no other, and ends with the
empty window behind it. -/
theorem Valid.flush (h : w.Valid N M) {n : ℕ} (hn : w.size M ≤ n) :
    ∃ w', SlidingWindow.flush N M n w =
        (Nat.count (fun j => w.slot M j = true) (w.size M), w') ∧
      w'.Valid N M ∧ w'.start = (w.start + w.size M) % N ∧ w'.head = w.tail ∧
      w'.tail = w.tail ∧
      ∀ j < M, w'.mark ((w.head + j) % M) = (decide (w.size M ≤ j) && w.slot M j) := by
  induction n generalizing w with
  | zero =>
    have h0 : w.size M = 0 := by omega
    refine ⟨w, ?_, h, ?_, h.size_eq_zero.mp h0, rfl, fun j _ => ?_⟩
    · rw [SlidingWindow.flush, h0, Nat.count_zero]
    · rw [h0, Nat.add_zero, Nat.mod_eq_of_lt h.start_lt]
    · simp [h0, slot]
  | succ n ih =>
    rw [SlidingWindow.flush]
    split
    · rename_i he
      have h0 : w.size M = 0 := h.size_eq_zero.mpr he
      refine ⟨w, by rw [h0, Nat.count_zero], h, ?_, he, rfl, fun j _ => ?_⟩
      · rw [h0, Nat.add_zero, Nat.mod_eq_of_lt h.start_lt]
      · simp [h0, slot]
    · rename_i he
      have hpos : w.size M ≠ 0 := fun h0 => he (h.size_eq_zero.mp h0)
      have hM : 0 < M := Nat.zero_lt_of_lt h.head_lt
      have hsize : (w.clearHead.step N M).size M = w.size M - 1 :=
        h.clearHead.size_moved (a := 1) (Nat.one_le_iff_ne_zero.mpr hpos)
      have hslot : ∀ j, j + 1 < M →
          (w.clearHead.step N M).slot M j = w.slot M (j + 1) := by
        intro j hj
        rw [show w.clearHead.step N M = w.clearHead.moved N M 1 from rfl, slot_moved,
          Nat.add_comm, h.slot_clearHead hj]
        simp
      have hlt : w.size M < M := h.size_lt
      obtain ⟨w', heq, hv, hstart, hhead, htail, hmark⟩ := ih h.clearHead.step (by omega)
      refine ⟨w', ?_, hv, ?_, hhead, htail, fun j hj => ?_⟩
      · have hcount : Nat.count (fun j => (w.clearHead.step N M).slot M j = true)
            (w.size M - 1) = Nat.count (fun j => w.slot M (j + 1) = true) (w.size M - 1) := by
          simp only [Nat.count_eq_card_filter_range]
          congr 1
          refine Finset.filter_congr fun j hj => ?_
          rw [Finset.mem_range] at hj
          rw [hslot j (by omega)]
        rw [heq, hsize, hcount]
        obtain ⟨m, hm⟩ := Nat.exists_eq_succ_of_ne_zero hpos
        rw [hm, Nat.count_succ']
        simp only [Nat.succ_eq_add_one, Nat.add_sub_cancel, h.slot_zero]
        cases w.mark w.head <;> simp [Nat.add_comm]
      · rw [hstart, hsize]
        show ((w.start + 1) % N + (w.size M - 1)) % N = _
        rw [Nat.mod_add_mod]
        congr 1
        omega
      · -- slot `j` of the window is slot `j - 1` of the moved one, its own head slot the last
        cases j with
        | zero =>
          have := hmark (M - 1) (by omega)
          have hpos0 : (w.clearHead.step N M).head = (w.head + 1) % M := rfl
          have hM1 : 1 + (M - 1) = M := by omega
          rw [hpos0, Nat.mod_add_mod, Nat.add_assoc, hM1, Nat.add_mod_right] at this
          rw [Nat.add_zero, this, show w.clearHead.step N M = w.clearHead.moved N M 1 from rfl,
            slot_moved, hM1]
          have hzero : w.clearHead.slot M M = w.clearHead.slot M 0 := by
            simp [slot]
          rw [hzero, h.slot_clearHead hM]
          simp [hpos]
        | succ j =>
          have := hmark j (by omega)
          have hpos0 : (w.clearHead.step N M).head = (w.head + 1) % M := rfl
          rw [hpos0, Nat.mod_add_mod, Nat.add_assoc, Nat.add_comm 1 j, hslot j hj, hsize] at this
          rw [this]
          congr 1
          exact decide_eq_decide.mpr (by omega)

/-! ## The numbers in a window -/

/-- The numbers of `W` lie in the window and are marked. -/
structure Holds (N M : ℕ) (w : SlidingWindow) (W : Multiset ℕ) : Prop where
  lt : ∀ s ∈ W, s < N
  within : ∀ s ∈ W, w.offset N s < w.size M
  marked : ∀ s ∈ W, w.slot M (w.offset N s) = true
  nodup : W.Nodup

/-- Every mark of the window is one of `W`. -/
def Owned (N M : ℕ) (w : SlidingWindow) (W : Multiset ℕ) : Prop :=
  ∀ j < w.size M, w.slot M j = true → ∃ s ∈ W, w.offset N s = j

/-- No mark is set outside the window. -/
def Clear (M : ℕ) (w : SlidingWindow) : Prop :=
  ∀ j < M, w.slot M j = true → j < w.size M

/-- The number at the start is marked, unless the window is empty. -/
def HeadMarked (M : ℕ) (w : SlidingWindow) : Prop :=
  w.size M ≠ 0 → w.slot M 0 = true

variable {W : Multiset ℕ} {s : ℕ}

theorem Holds.add (hW : w.Holds N M W) (h : w.Valid N M) (hs : s < N)
    (hlt : w.offset N s + 1 < M) (hbehind : w.size M ≤ w.offset N s) :
    (w.add N M s).Holds N M (s ::ₘ W) where
  lt s' hs' := by
    rcases Multiset.mem_cons.mp hs' with rfl | hmem
    · exact hs
    · exact hW.lt s' hmem
  within s' hs' := by
    rw [offset_of_add, h.size_add hlt]
    rcases Multiset.mem_cons.mp hs' with rfl | hmem
    · omega
    · have := hW.within s' hmem
      omega
  marked s' hs' := by
    rw [offset_of_add]
    rcases Multiset.mem_cons.mp hs' with rfl | hmem
    · rw [h.slot_add (by omega) (by omega)]
      simp
    · have := hW.within s' hmem
      rw [h.slot_add (by omega) (by omega), hW.marked s' hmem]
      simp
  nodup := by
    refine Multiset.nodup_cons.mpr ⟨fun hmem => ?_, hW.nodup⟩
    have := hW.within s hmem
    omega

theorem Owned.add (hW : w.Owned N M W) (h : w.Valid N M) (hlt : w.offset N s + 1 < M)
    (hbehind : w.size M ≤ w.offset N s) (hgap : w.Clear M ∨ w.offset N s = w.size M) :
    (w.add N M s).Owned N M (s ::ₘ W) := by
  intro j hj hset
  rw [h.size_add hlt] at hj
  rw [h.slot_add (by omega) (by omega)] at hset
  rcases eq_or_ne j (w.offset N s) with rfl | hne
  · exact ⟨s, Multiset.mem_cons_self s W, rfl⟩
  · have hold : w.slot M j = true := by simpa [hne] using hset
    have hin : j < w.size M := by
      rcases hgap with hclear | hgap
      · exact hclear j (by omega) hold
      · omega
    obtain ⟨s', hs', heq⟩ := hW j hin hold
    exact ⟨s', Multiset.mem_cons_of_mem hs', heq⟩

theorem Clear.add (hc : w.Clear M) (h : w.Valid N M) (hlt : w.offset N s + 1 < M) :
    (w.add N M s).Clear M := by
  intro j hj hset
  rw [h.slot_add (by omega) hj] at hset
  rw [h.size_add hlt]
  rcases eq_or_ne j (w.offset N s) with rfl | hne
  · omega
  · have := hc j hj (by simpa [hne] using hset)
    omega

theorem HeadMarked.add (hm : w.HeadMarked M) (h : w.Valid N M) (hlt : w.offset N s + 1 < M)
    (hgap : w.offset N s = w.size M) : (w.add N M s).HeadMarked M := by
  intro _
  rw [h.slot_add (by omega) (by omega)]
  rcases Nat.eq_zero_or_pos (w.size M) with h0 | hpos
  · simp [hgap, h0]
  · rw [hm (by omega)]
    simp

/-- The end of the window stays where it is. -/
theorem Valid.end_retire (h : w.Valid N M) (s : ℕ) :
    ((w.retire N M s).start + (w.retire N M s).size M) % N = (w.start + w.size M) % N := by
  obtain ⟨a, hle, heq, -, -⟩ := h.retire s
  rw [heq, (h.unmark s).size_moved hle]
  show ((w.start + a) % N + (w.size M - a)) % N = _
  rw [Nat.mod_add_mod]
  congr 1
  omega

theorem Valid.size_retire_le (h : w.Valid N M) (s : ℕ) :
    (w.retire N M s).size M ≤ w.size M := by
  obtain ⟨a, hle, heq, -, -⟩ := h.retire s
  rw [heq, (h.unmark s).size_moved hle, size_unmark]
  exact Nat.sub_le _ _

theorem Valid.valid_retire (h : w.Valid N M) (s : ℕ) : (w.retire N M s).Valid N M := by
  obtain ⟨a, -, heq, -, -⟩ := h.retire s
  rw [heq]
  exact (h.unmark s).moved a

theorem Holds.retire (hW : w.Holds N M (s ::ₘ W)) (h : w.Valid N M) :
    (w.retire N M s).Holds N M W := by
  obtain ⟨a, hle, heq, hclear, -⟩ := h.retire s
  have hsize : w.size M < M := h.size_lt
  have hs : w.offset N s < w.size M := hW.within s (Multiset.mem_cons_self s W)
  have hne : ∀ s' ∈ W, w.offset N s' ≠ w.offset N s := by
    intro s' hs' he
    have hmem : s' ∈ s ::ₘ W := Multiset.mem_cons_of_mem hs'
    have := h.offset_inj (hW.lt s' hmem) (hW.lt s (Multiset.mem_cons_self s W)) he
    subst this
    exact (Multiset.nodup_cons.mp hW.nodup).1 hs'
  have hmark : ∀ s' ∈ W, (w.unmark N M s).slot M (w.offset N s') = true := by
    intro s' hs'
    have hmem : s' ∈ s ::ₘ W := Multiset.mem_cons_of_mem hs'
    have := hW.within s' hmem
    rw [h.slot_unmark (by omega) (by omega), hW.marked s' hmem]
    simp [hne s' hs']
  have hbehind : ∀ s' ∈ W, a ≤ w.offset N s' := by
    intro s' hs'
    by_contra hlt
    have := hclear _ (Nat.lt_of_not_le hlt)
    rw [hmark s' hs'] at this
    cases this
  have hoff : ∀ s' ∈ W, ((w.unmark N M s).moved N M a).offset N s' = w.offset N s' - a :=
    fun s' hs' => (h.unmark s).offset_moved (hW.lt s' (Multiset.mem_cons_of_mem hs'))
      (hbehind s' hs')
  rw [heq]
  refine ⟨fun s' hs' => hW.lt s' (Multiset.mem_cons_of_mem hs'), fun s' hs' => ?_,
    fun s' hs' => ?_, (Multiset.nodup_cons.mp hW.nodup).2⟩
  · have := hW.within s' (Multiset.mem_cons_of_mem hs')
    rw [hoff s' hs', (h.unmark s).size_moved hle, size_unmark]
    have := hbehind s' hs'
    omega
  · rw [hoff s' hs', slot_moved, Nat.add_sub_cancel' (hbehind s' hs')]
    exact hmark s' hs'

theorem Owned.retire (hO : w.Owned N M (s ::ₘ W)) (hW : w.Holds N M (s ::ₘ W))
    (h : w.Valid N M) : (w.retire N M s).Owned N M W := by
  obtain ⟨a, hle, heq, hclear, -⟩ := h.retire s
  have hs : w.offset N s < w.size M := hW.within s (Multiset.mem_cons_self s W)
  have hlt : w.size M < M := h.size_lt
  rw [heq]
  intro j hj hset
  rw [(h.unmark s).size_moved hle, size_unmark] at hj
  rw [slot_moved, h.slot_unmark (by omega) (by omega)] at hset
  simp only [Bool.and_eq_true, decide_eq_true_eq] at hset
  obtain ⟨s', hs', hoff⟩ := hO (a + j) (by omega) hset.2
  rcases Multiset.mem_cons.mp hs' with rfl | hmem
  · exact absurd hoff.symm hset.1
  · refine ⟨s', hmem, ?_⟩
    rw [(h.unmark s).offset_moved (hW.lt s' hs') (show a ≤ w.offset N s' by omega)]
    show w.offset N s' - a = j
    omega

theorem slot_mod (w : SlidingWindow) (j : ℕ) : w.slot M (j % M) = w.slot M j := by
  simp [slot]

theorem Clear.retire (hc : w.Clear M) (h : w.Valid N M) (hs : w.offset N s < M) :
    (w.retire N M s).Clear M := by
  obtain ⟨a, hle, heq, hclear, -⟩ := h.retire s
  have hlt : w.size M < M := h.size_lt
  rw [heq]
  intro j hj hset
  rw [(h.unmark s).size_moved hle, size_unmark]
  rw [slot_moved] at hset
  rcases lt_or_ge (a + j) M with hin | hout
  · rw [h.slot_unmark hs hin] at hset
    simp only [Bool.and_eq_true, decide_eq_true_eq] at hset
    have := hc _ hin hset.2
    omega
  · -- past the ring, among the slots the window has just left
    rw [← slot_mod, Nat.mod_eq_sub_mod hout, Nat.mod_eq_of_lt (by omega)] at hset
    rw [hclear (a + j - M) (by omega)] at hset
    cases hset

theorem HeadMarked.retire (h : w.Valid N M) (s : ℕ) : (w.retire N M s).HeadMarked M := by
  obtain ⟨a, hle, heq, -, hset⟩ := h.retire s
  rw [heq]
  intro hne
  rw [(h.unmark s).size_moved hle, size_unmark] at hne
  rw [slot_moved, Nat.add_zero]
  exact hset (by omega)

/-- The offsets of the numbers of a window are among its marks. -/
theorem Holds.card_le_count (hW : w.Holds N M W) (h : w.Valid N M) :
    W.card ≤ Nat.count (fun j => w.slot M j = true) (w.size M) := by
  rw [Nat.count_eq_card_filter_range, ← Multiset.card_map (w.offset N)]
  have hnodup : (W.map (w.offset N)).Nodup :=
    Multiset.Nodup.map_on
      (fun s hs s' hs' he => h.offset_inj (hW.lt s hs) (hW.lt s' hs') he) hW.nodup
  rw [← Multiset.toFinset_card_of_nodup hnodup]
  apply Finset.card_le_card
  intro j hj
  obtain ⟨s, hs, rfl⟩ := Multiset.mem_map.mp (Multiset.mem_toFinset.mp hj)
  rw [Finset.mem_filter, Finset.mem_range]
  exact ⟨hW.within s hs, hW.marked s hs⟩

theorem Owned.count_le_card (hO : w.Owned N M W) :
    Nat.count (fun j => w.slot M j = true) (w.size M) ≤ W.card := by
  rw [Nat.count_eq_card_filter_range, ← Multiset.card_map (w.offset N)]
  refine (Finset.card_le_card fun j hj => ?_).trans (Multiset.toFinset_card_le _)
  rw [Finset.mem_filter, Finset.mem_range] at hj
  obtain ⟨s, hs, heq⟩ := hO j hj.1 hj.2
  exact Multiset.mem_toFinset.mpr (Multiset.mem_map.mpr ⟨s, hs, heq⟩)

/-- Flushing a window without marks outside it leaves no mark at all. -/
theorem Clear.flush (hc : w.Clear M) (h : w.Valid N M) {n : ℕ} (hn : w.size M ≤ n) :
    ∀ j < M, (SlidingWindow.flush N M n w).2.slot M j = false := by
  obtain ⟨w', heq, hv, -, hhead, htail, hmark⟩ := h.flush hn
  rw [heq]
  intro j hj
  have hM : 0 < M := Nat.zero_lt_of_lt hj
  have hmod : (w.size M + j) % M < M := Nat.mod_lt _ hM
  have htl : w.tail = (w.head + w.size M) % M := (add_fwd h.head_lt h.tail_lt).symm
  have := hmark _ hmod
  rw [Nat.add_mod_mod, ← Nat.add_assoc, ← Nat.mod_add_mod, ← htl] at this
  rw [slot, hhead, this]
  by_contra hne
  simp only [Bool.not_eq_false, Bool.and_eq_true, decide_eq_true_eq] at hne
  have := hc _ hmod hne.2
  omega

theorem Holds.zero (N M : ℕ) (w : SlidingWindow) : w.Holds N M 0 where
  lt := fun _ hs => absurd hs (Multiset.notMem_zero _)
  within := fun _ hs => absurd hs (Multiset.notMem_zero _)
  marked := fun _ hs => absurd hs (Multiset.notMem_zero _)
  nodup := Multiset.nodup_zero

/-- Where every mark is accounted for, the marks are the numbers the window holds. -/
theorem Holds.slot_iff (hW : w.Holds N M W) (hO : w.Owned N M W) (hC : w.Clear M)
    (h : w.Valid N M) (hMN : M ≤ N) {j : ℕ} (hj : j < M) :
    w.slot M j = true ↔ (w.start + j) % N ∈ W := by
  constructor
  · intro hset
    obtain ⟨s, hs, hoff⟩ := hO j (hC j hj hset) hset
    rw [← hoff, SlidingWindow.offset, add_fwd h.start_lt (hW.lt s hs)]
    exact hs
  · intro hs
    have hoff : w.offset N ((w.start + j) % N) = j := fwd_add h.start_lt (by omega)
    have hset := hW.marked _ hs
    rwa [hoff] at hset

/-- An empty window holds no number. -/
theorem Holds.eq_zero (hW : w.Holds N M W) (h0 : w.size M = 0) : W = 0 := by
  apply Multiset.eq_zero_of_forall_notMem
  intro s hs
  have := hW.within s hs
  omega

/-! ## All numbers in a window -/

/-- The marked numbers of a window. -/
def numbers (N M : ℕ) (w : SlidingWindow) : Multiset ℕ :=
  (((List.range (w.size M)).filter fun j => w.slot M j).map fun j => (w.start + j) % N : List ℕ)

theorem mem_numbers {s : ℕ} : s ∈ w.numbers N M ↔
    ∃ j < w.size M, w.slot M j = true ∧ (w.start + j) % N = s := by
  simp [numbers, and_assoc]

theorem Valid.holds_numbers (h : w.Valid N M) (hMN : M ≤ N) : w.Holds N M (w.numbers N M) := by
  have hlt := h.size_lt
  constructor
  · intro s hs
    obtain ⟨j, -, -, rfl⟩ := mem_numbers.mp hs
    exact Nat.mod_lt _ (Nat.zero_lt_of_lt h.start_lt)
  · intro s hs
    obtain ⟨j, hj, -, rfl⟩ := mem_numbers.mp hs
    rwa [h.offset_add (by omega)]
  · intro s hs
    obtain ⟨j, hj, hset, rfl⟩ := mem_numbers.mp hs
    rwa [h.offset_add (by omega)]
  · apply List.Nodup.map_on
    · intro j hj j' hj' he
      have hjlt := List.mem_range.mp (List.mem_filter.mp hj).1
      have hjlt' := List.mem_range.mp (List.mem_filter.mp hj').1
      exact add_mod_inj h.start_lt (by omega) (by omega) he
    · exact List.nodup_range.filter _

theorem Valid.owned_numbers (h : w.Valid N M) (hMN : M ≤ N) : w.Owned N M (w.numbers N M) := by
  intro j hj hset
  have hlt := h.size_lt
  exact ⟨_, mem_numbers.mpr ⟨j, hj, hset, rfl⟩, h.offset_add (by omega)⟩

theorem Holds.le_numbers (hW : w.Holds N M W) (h : w.Valid N M) : W ≤ w.numbers N M := by
  apply (Multiset.le_iff_subset hW.nodup).mpr
  intro s hs
  exact mem_numbers.mpr ⟨_, hW.within s hs, hW.marked s hs, h.start_add_offset (hW.lt s hs)⟩

/-- The marks of a window whose numbers are known. -/
theorem Holds.count_eq_card (hW : w.Holds N M W) (hO : w.Owned N M W) (h : w.Valid N M) :
    Nat.count (fun j => w.slot M j = true) (w.size M) = W.card :=
  Nat.le_antisymm hO.count_le_card (hW.card_le_count h)

end SlidingWindow
