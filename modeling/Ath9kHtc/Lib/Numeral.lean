import Mathlib.Data.Nat.Digits.Lemmas

/-!
# Numerals

A number in a radix, written with the symbols of a table, the most significant first.
-/

namespace Numeral

universe u

variable {Symbol : Type u} {radix n m : ℕ} {symbol : ℕ → Symbol} {index : Symbol → ℕ}

/-- The numeral of a number; the one of zero has a symbol too. -/
def numeral (radix : ℕ) (symbol : ℕ → Symbol) (n : ℕ) : List Symbol :=
  if n = 0 then [symbol 0] else ((Nat.digits radix n).map symbol).reverse

/-- The number that a numeral stands for. -/
def value (radix : ℕ) (index : Symbol → ℕ) (symbols : List Symbol) : ℕ :=
  symbols.foldl (fun n c => n * radix + index c) 0

theorem value_reverse (hindex : ∀ k < radix, index (symbol k) = k) {ds : List ℕ}
    (hds : ∀ d ∈ ds, d < radix) :
    value radix index (ds.map symbol).reverse = Nat.ofDigits radix ds := by
  induction ds with
  | nil => rfl
  | cons d ds ih =>
      have hrest := ih fun d' hd' => hds d' (List.mem_cons_of_mem _ hd')
      rw [value] at hrest
      rw [value, List.map_cons, List.reverse_cons, List.foldl_append, hrest, Nat.ofDigits_cons,
        List.foldl_cons, List.foldl_nil, hindex d (hds d List.mem_cons_self)]
      ring

/-- A numeral reads back to its number. -/
theorem value_numeral (hradix : 1 < radix) (hindex : ∀ k < radix, index (symbol k) = k) (n : ℕ) :
    value radix index (numeral radix symbol n) = n := by
  rw [numeral]
  split
  · rename_i hzero
    rw [value, List.foldl_cons, List.foldl_nil, hindex 0 (by omega), hzero]
    omega
  · rw [value_reverse hindex fun d hd => Nat.digits_lt_base hradix hd, Nat.ofDigits_digits]

theorem length_numeral_pos (n : ℕ) : 0 < (numeral radix symbol n).length := by
  rw [numeral]
  split
  · exact Nat.one_pos
  · rename_i hne
    rw [List.length_reverse, List.length_map]
    exact List.length_pos_iff.mpr (Nat.digits_ne_nil_iff_ne_zero.mpr hne)

/-- How long a numeral can be. -/
theorem length_numeral_le (hradix : 1 < radix) (hm : 0 < m) (hn : n < radix ^ m) :
    (numeral radix symbol n).length ≤ m := by
  rw [numeral]
  split
  · exact hm
  · rw [List.length_reverse, List.length_map]
    exact (Nat.digits_length_le_iff hradix n).mpr hn

end Numeral
