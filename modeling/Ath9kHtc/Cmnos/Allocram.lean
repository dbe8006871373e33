import Mathlib.Data.BitVec
import Ath9kHtc.Lib.Region

/-!
# Startup time RAM allocation

`cmnos_allocram.c`: allocation without free, from one arena.
-/

namespace Ath9kHtc.Cmnos

open Region

/-- `allocram_current_addr` and `allocram_remaining_bytes` -/
structure Allocram where
  currentAddr : BitVec 32
  remainingBytes : BitVec 32
  deriving DecidableEq

/-- `A_ROUND_UP` -/
def aRoundUp (x y : BitVec 32) : BitVec 32 := (x + (y - 1)) / y * y

def cmnosAllocramInit (arenaStart arenaSz : BitVec 32) : Allocram := ⟨arenaStart, arenaSz⟩

/-- `cmnos_allocram`; where it comes to `adf_os_assert(0)` it does not return. -/
def cmnosAllocram (nbytes : BitVec 32) (s : Allocram) : Option (BitVec 32) × Allocram :=
  let ptr := s.currentAddr
  let nbytes := aRoundUp nbytes 4
  if nbytes ≤ s.remainingBytes then
    (some ptr, ⟨s.currentAddr + nbytes, s.remainingBytes - nbytes⟩)
  else (none, s)

/-! ## Sequences of requests -/

/-- A request with what the allocator returned and what became of the allocator. -/
structure Request where
  nbytes : BitVec 32
  before : Allocram
  ptr : Option (BitVec 32)
  after : Allocram

/-- The requests that are made until the first that does not return, and the allocator then. -/
def serve : List (BitVec 32) → Allocram → List Request × Allocram
  | [], s => ([], s)
  | nbytes :: rest, s =>
    match cmnosAllocram nbytes s with
    | (none, s') => ([⟨nbytes, s, none, s'⟩], s')
    | (some ptr, s') => (⟨nbytes, s, some ptr, s'⟩ :: (serve rest s').1, (serve rest s').2)

/-- A sequence of requests to a new arena. -/
def allocate (arenaStart arenaSz : BitVec 32) (sizes : List (BitVec 32)) :
    List Request × Allocram := serve sizes (cmnosAllocramInit arenaStart arenaSz)

/-- How many bytes a request took from the arena. -/
def Request.size (r : Request) : ℕ :=
  (r.before.remainingBytes - r.after.remainingBytes).toNat

/-- The bytes of the block a request was given. -/
def Request.block (r : Request) : Set (BitVec 32) := {x | ∃ ptr ∈ r.ptr, x ∈ region ptr r.size}

/-- The arena is shared out as it should be. -/
structure SharedOut (arenaStart arenaSz : BitVec 32) (requests : List Request) (last : Allocram) :
    Prop where
  disjoint : requests.Pairwise fun r r' => Disjoint r.block r'.block
  sized : ∀ r ∈ requests, r.ptr.isSome → 4 ∣ r.size
  holds : ∀ r ∈ requests, r.ptr.isSome → r.nbytes.toNat ≤ r.size
  inside : ∀ r ∈ requests, r.block ⊆ region arenaStart arenaSz.toNat
  ends : ∀ r ∈ requests, r.before.currentAddr + r.before.remainingBytes = arenaStart + arenaSz
  last_ends : last.currentAddr + last.remainingBytes = arenaStart + arenaSz
  unchanged : ∀ r ∈ requests, r.ptr = none → r.after = r.before
  refused : ∀ r ∈ requests, r.before.remainingBytes < r.nbytes → r.ptr = none

variable {arenaStart arenaSz nbytes : BitVec 32} {s : Allocram} {r : Request} {used : ℕ}
  {sizes : List (BitVec 32)}

/-! ## One request -/

theorem toNat_aRoundUp (nbytes : BitVec 32) :
    (aRoundUp nbytes 4).toNat = (nbytes.toNat + 3) % 2 ^ 32 / 4 * 4 := by
  rw [aRoundUp, BitVec.toNat_mul, BitVec.toNat_udiv, BitVec.toNat_add]
  show (nbytes.toNat + 3) % 2 ^ 32 / 4 * 4 % 2 ^ 32 = _
  rw [Nat.mod_eq_of_lt (by omega)]

/-- A request of the last three sizes is rounded up to none at all. -/
theorem aRoundUp_wraps (h : 2 ^ 32 - 4 < nbytes.toNat) : aRoundUp nbytes 4 = 0 := by
  apply BitVec.eq_of_toNat_eq
  have hlt := nbytes.isLt
  rw [toNat_aRoundUp]
  show _ = 0
  omega

theorem le_toNat_aRoundUp (h : nbytes.toNat ≤ 2 ^ 32 - 4) :
    nbytes.toNat ≤ (aRoundUp nbytes 4).toNat := by
  rw [toNat_aRoundUp]
  omega

theorem cmnosAllocram_refuses (h : s.remainingBytes < aRoundUp nbytes 4) :
    cmnosAllocram nbytes s = (none, s) := by
  rw [cmnosAllocram]
  exact if_neg (BitVec.not_le.mpr h)

theorem cmnosAllocram_returns (h : aRoundUp nbytes 4 ≤ s.remainingBytes) :
    cmnosAllocram nbytes s = (some s.currentAddr,
      ⟨s.currentAddr + aRoundUp nbytes 4, s.remainingBytes - aRoundUp nbytes 4⟩) := by
  rw [cmnosAllocram]
  exact if_pos h

/-! ## The arena over a sequence of requests -/

/-- What is left is at the end of the arena. -/
structure Bounded (arenaStart arenaSz : BitVec 32) (s : Allocram) : Prop where
  ends : s.currentAddr + s.remainingBytes = arenaStart + arenaSz
  le : s.remainingBytes ≤ arenaSz

theorem bounded_init (arenaStart arenaSz : BitVec 32) :
    Bounded arenaStart arenaSz (cmnosAllocramInit arenaStart arenaSz) := ⟨rfl, BitVec.le_refl _⟩

/-- A request that returns takes what it asked for, rounded up, off the front. -/
theorem Bounded.take (h : Bounded arenaStart arenaSz s)
    (hle : aRoundUp nbytes 4 ≤ s.remainingBytes) : Bounded arenaStart arenaSz
      ⟨s.currentAddr + aRoundUp nbytes 4, s.remainingBytes - aRoundUp nbytes 4⟩ where
  ends := by
    show s.currentAddr + aRoundUp nbytes 4 + (s.remainingBytes - aRoundUp nbytes 4) = _
    rw [← h.ends, BitVec.add_assoc, BitVec.add_comm (aRoundUp nbytes 4), BitVec.sub_add_cancel]
  le := by
    have hle' := BitVec.le_def.mp hle
    have hsz := BitVec.le_def.mp h.le
    rw [BitVec.le_def, BitVec.toNat_sub_of_le hle]
    omega

/-- The current address is as far from the start as the arena is used. -/
theorem Bounded.currentAddr (h : Bounded arenaStart arenaSz s) : s.currentAddr =
    arenaStart + BitVec.ofNat 32 (arenaSz.toNat - s.remainingBytes.toNat) := by
  have hused : arenaSz - s.remainingBytes =
      BitVec.ofNat 32 (arenaSz.toNat - s.remainingBytes.toNat) := by
    apply BitVec.eq_of_toNat_eq
    rw [BitVec.toNat_sub_of_le h.le, BitVec.toNat_ofNat, Nat.mod_eq_of_lt (by omega)]
  rw [← hused, ← add_sub_assoc, ← h.ends, BitVec.add_sub_cancel]

/-- A request made of an allocator whose arena is bounded. -/
structure Made (arenaStart arenaSz : BitVec 32) (r : Request) : Prop where
  call : cmnosAllocram r.nbytes r.before = (r.ptr, r.after)
  before : Bounded arenaStart arenaSz r.before

/-- What a request can have come to. -/
theorem Made.cases (h : Made arenaStart arenaSz r) :
    (r.before.remainingBytes < aRoundUp r.nbytes 4 ∧ r.ptr = none ∧ r.after = r.before) ∨
      (aRoundUp r.nbytes 4 ≤ r.before.remainingBytes ∧ r.ptr = some r.before.currentAddr ∧
        r.size = (aRoundUp r.nbytes 4).toNat ∧
        r.after.remainingBytes.toNat + r.size = r.before.remainingBytes.toNat) := by
  rcases Nat.lt_or_ge r.before.remainingBytes.toNat (aRoundUp r.nbytes 4).toNat with hlt | hle
  · have hlt := BitVec.lt_def.mpr hlt
    obtain ⟨hptr, hafter⟩ := Prod.mk.inj ((cmnosAllocram_refuses hlt).symm.trans h.call)
    exact .inl ⟨hlt, hptr.symm, hafter.symm⟩
  · have hle := BitVec.le_def.mpr hle
    obtain ⟨hptr, hafter⟩ := Prod.mk.inj ((cmnosAllocram_returns hle).symm.trans h.call)
    have hsize : r.size = (aRoundUp r.nbytes 4).toNat := by
      rw [Request.size, ← hafter, sub_sub_self]
    refine .inr ⟨hle, hptr.symm, hsize, ?_⟩
    have hle' := BitVec.le_def.mp hle
    rw [hsize, ← hafter, BitVec.toNat_sub_of_le hle]
    omega

/-- A sequence of requests goes from one end of the arena to the other. -/
theorem serve_made (sizes : List (BitVec 32)) (h : Bounded arenaStart arenaSz s) :
    (∀ r ∈ (serve sizes s).1, Made arenaStart arenaSz r ∧
      r.before.remainingBytes ≤ s.remainingBytes) ∧
    (serve sizes s).1.Pairwise (fun r r' => r'.before.remainingBytes ≤ r.after.remainingBytes) ∧
    Bounded arenaStart arenaSz (serve sizes s).2 := by
  induction sizes generalizing s with
  | nil => exact ⟨fun r hr => (by cases hr), .nil, h⟩
  | cons nbytes sizes ih =>
      rw [serve]
      rcases Nat.lt_or_ge s.remainingBytes.toNat (aRoundUp nbytes 4).toNat with hlt | hle
      · have hcall := cmnosAllocram_refuses (BitVec.lt_def.mpr hlt)
        rw [hcall]
        refine ⟨fun r hr => ?_, List.pairwise_singleton .., h⟩
        obtain rfl := List.mem_singleton.mp hr
        exact ⟨⟨hcall, h⟩, BitVec.le_refl _⟩
      · have hle' := BitVec.le_def.mpr hle
        have hcall := cmnosAllocram_returns hle'
        rw [hcall]
        obtain ⟨hmade, hpairs, hlast⟩ := ih (h.take hle')
        refine ⟨fun r hr => ?_, List.pairwise_cons.mpr ⟨fun r hr => (hmade r hr).2, hpairs⟩, hlast⟩
        rcases List.mem_cons.mp hr with rfl | hr
        · exact ⟨⟨hcall, h⟩, BitVec.le_refl _⟩
        · obtain ⟨hr, hrest⟩ := hmade r hr
          have hrest := BitVec.le_def.mp hrest
          rw [BitVec.toNat_sub_of_le hle'] at hrest
          exact ⟨hr, BitVec.le_def.mpr (by omega)⟩

/-- The block of a request is where the arena was used up to. -/
theorem Made.block_subset (h : Made arenaStart arenaSz r) : r.block ⊆ region
    (arenaStart + BitVec.ofNat 32 (arenaSz.toNat - r.before.remainingBytes.toNat)) r.size := by
  rintro x ⟨ptr, hptr, hx⟩
  rcases h.cases with ⟨-, hnone, -⟩ | ⟨-, hsome, -⟩
  · cases hnone.symm.trans hptr
  · obtain rfl := Option.some_inj.mp (hsome.symm.trans hptr)
    rwa [h.before.currentAddr] at hx

theorem Made.size_le (h : Made arenaStart arenaSz r) :
    r.after.remainingBytes.toNat + r.size = r.before.remainingBytes.toNat := by
  rcases h.cases with ⟨-, -, hafter⟩ | ⟨-, -, -, hsize⟩
  · rw [Request.size, hafter, BitVec.sub_self]
    rfl
  · exact hsize

theorem Made.disjoint {r' : Request} (h : Made arenaStart arenaSz r)
    (h' : Made arenaStart arenaSz r')
    (hle : r'.before.remainingBytes ≤ r.after.remainingBytes) : Disjoint r.block r'.block := by
  have hsz := BitVec.le_def.mp h.before.le
  have hle := BitVec.le_def.mp hle
  have hsize := h.size_le
  have hsize' := h'.size_le
  have hlt := arenaSz.isLt
  exact (region_disjoint (by omega) (by omega)).mono h.block_subset h'.block_subset

theorem Made.inside (h : Made arenaStart arenaSz r) :
    r.block ⊆ region arenaStart arenaSz.toNat := by
  have hsz := BitVec.le_def.mp h.before.le
  have hsize := h.size_le
  have hlt := arenaSz.isLt
  exact h.block_subset.trans (region_subset (by omega) (by omega))

/-- A request of a size that can be rounded up gets a block that holds it, or nothing. -/
theorem Made.of_le (h : Made arenaStart arenaSz r) (hle : r.nbytes.toNat ≤ 2 ^ 32 - 4) :
    (r.ptr.isSome → r.nbytes.toNat ≤ r.size) ∧
      (r.before.remainingBytes < r.nbytes → r.ptr = none) := by
  have hround := le_toNat_aRoundUp hle
  rcases h.cases with ⟨-, hnone, -⟩ | ⟨hfits, hsome, hsize, -⟩
  · rw [hnone]
    exact ⟨fun hptr => (by cases hptr), fun _ => rfl⟩
  · refine ⟨fun _ => by omega, fun hlt => ?_⟩
    have hfits := BitVec.le_def.mp hfits
    have hlt := BitVec.lt_def.mp hlt
    omega

/-- A request of a size that cannot be rounded up gets a block of no bytes. -/
theorem Made.of_gt (h : Made arenaStart arenaSz r) (hgt : 2 ^ 32 - 4 < r.nbytes.toNat) :
    r.ptr.isSome ∧ r.size = 0 := by
  have hround := aRoundUp_wraps hgt
  rcases h.cases with ⟨hlt, -⟩ | ⟨-, hsome, hsize, -⟩
  · rw [hround] at hlt
    exact absurd (BitVec.lt_def.mp hlt) (Nat.not_lt_zero _)
  · rw [hsome, hsize, hround]
    exact ⟨rfl, rfl⟩

/-- The arena is shared out as it should be exactly where no request comes within three bytes of
the whole address space. -/
theorem requests_share_out (arenaStart arenaSz : BitVec 32) (sizes : List (BitVec 32)) :
    SharedOut arenaStart arenaSz (allocate arenaStart arenaSz sizes).1
        (allocate arenaStart arenaSz sizes).2 ↔
      ∀ r ∈ (allocate arenaStart arenaSz sizes).1, r.nbytes.toNat ≤ 2 ^ 32 - 4 := by
  obtain ⟨hmade, hpairs, hlast⟩ := serve_made sizes (bounded_init arenaStart arenaSz)
  constructor
  · intro hshared r hr
    by_contra hgt
    obtain ⟨hptr, hsize⟩ := (hmade r hr).1.of_gt (Nat.lt_of_not_le hgt)
    have hholds := hshared.holds r hr hptr
    omega
  · intro hle
    refine ⟨hpairs.imp_of_mem fun hr hr' hafter => ?_, fun r hr hptr => ?_, fun r hr =>
      ((hmade r hr).1.of_le (hle r hr)).1, fun r hr => (hmade r hr).1.inside, fun r hr =>
      (hmade r hr).1.before.ends, hlast.ends, fun r hr hnone => ?_, fun r hr =>
      ((hmade r hr).1.of_le (hle r hr)).2⟩
    · exact (hmade _ hr).1.disjoint (hmade _ hr').1 hafter
    · rcases (hmade r hr).1.cases with ⟨-, hnone, -⟩ | ⟨-, -, hsize, -⟩
      · rw [hnone] at hptr
        cases hptr
      · rw [hsize, toNat_aRoundUp]
        exact Nat.dvd_mul_left ..
    · rcases (hmade r hr).1.cases with ⟨-, -, hafter⟩ | ⟨-, hsome, -⟩
      · exact hafter
      · cases hsome.symm.trans hnone

/-- The largest request of all is rounded up to no bytes, and succeeds. -/
theorem whole_address_space_granted : ¬ ∀ (arenaStart arenaSz : BitVec 32)
    (sizes : List (BitVec 32)), SharedOut arenaStart arenaSz (allocate arenaStart arenaSz sizes).1
      (allocate arenaStart arenaSz sizes).2 := by
  intro h
  have hholds := (h 0x510000 1000 [0xffffffff]).holds
  revert hholds
  decide

end Ath9kHtc.Cmnos
