import Mathlib.Algebra.Ring.Nat
import Mathlib.Data.Set.BooleanAlgebra
import Mathlib.Data.Set.Disjoint
import Mathlib.Order.CompletePartialOrder

/-!
# Regions of an address space

Runs of consecutive machine addresses, which go on at zero after the last one.  An address is in a
region when its distance from the start is below the length.
-/

namespace Region

variable {w : ℕ} {a x : BitVec w} {k m n k' m' : ℕ}

/-- The `n` addresses from `a` on. -/
def region (a : BitVec w) (n : ℕ) : Set (BitVec w) := {x | (x - a).toNat < n}

theorem mem_region : x ∈ region a n ↔ (x - a).toNat < n := Iff.rfl

/-- A later start is nearer. -/
theorem distance_add (hk : k + m ≤ 2 ^ w) (hx : x ∈ region (a + BitVec.ofNat w k) m) :
    (x - a).toNat = k + (x - (a + BitVec.ofNat w k)).toNat := by
  have hlt := mem_region.mp hx
  have hsplit : x - a = BitVec.ofNat w k + (x - (a + BitVec.ofNat w k)) := by
    rw [BitVec.sub_eq_iff_eq_add, BitVec.add_comm, ← BitVec.add_assoc,
      BitVec.add_comm (a + BitVec.ofNat w k), BitVec.sub_add_cancel]
  rw [hsplit, BitVec.toNat_add, BitVec.toNat_ofNat, Nat.mod_eq_of_lt (show k < 2 ^ w by omega),
    Nat.mod_eq_of_lt (by omega)]

theorem region_subset (hn : k + m ≤ n) (hw : n ≤ 2 ^ w) :
    region (a + BitVec.ofNat w k) m ⊆ region a n := by
  intro x hx
  have hlt := mem_region.mp hx
  rw [mem_region, distance_add (by omega) hx]
  omega

theorem region_disjoint (hk : k + m ≤ k') (hw : k' + m' ≤ 2 ^ w) :
    Disjoint (region (a + BitVec.ofNat w k) m) (region (a + BitVec.ofNat w k') m') := by
  rw [Set.disjoint_left]
  intro x hx hx'
  have hdist := distance_add (by omega) hx
  have hdist' := distance_add hw hx'
  have hlt := mem_region.mp hx
  omega

end Region
