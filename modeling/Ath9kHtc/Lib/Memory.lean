import Mathlib.Data.List.Range
import Mathlib.Logic.Function.Basic

/-!
# Flat memory

A memory of cells under consecutive addresses, and blocks of cells in it.
-/

namespace Memory

universe u

variable {Cell : Type u} {mem : ℕ → Cell} {a b n : ℕ} {cells : List Cell}

/-- Write consecutive cells from `a` on. -/
def store (mem : ℕ → Cell) : ℕ → List Cell → ℕ → Cell
  | _, [] => mem
  | a, c :: cells => store (Function.update mem a c) (a + 1) cells

/-- The `n` cells from `a` on. -/
def fetch (mem : ℕ → Cell) (a n : ℕ) : List Cell := (List.range n).map fun i => mem (a + i)

@[simp] theorem length_fetch : (fetch mem a n).length = n := by
  simp [fetch]

theorem fetch_append (m : ℕ) : fetch mem a (n + m) = fetch mem a n ++ fetch mem (a + n) m := by
  rw [fetch, List.range_add, List.map_append, List.map_map]
  congr 1
  apply List.map_congr_left
  intro i _
  exact congrArg mem (Nat.add_assoc a n i).symm

theorem fetch_succ : fetch mem a (n + 1) = mem a :: fetch mem (a + 1) n := by
  rw [Nat.add_comm, fetch_append]
  rfl

theorem fetch_congr {mem' : ℕ → Cell} (h : ∀ i < n, mem' (a + i) = mem (a + i)) :
    fetch mem' a n = fetch mem a n :=
  List.map_congr_left fun i hi => h i (List.mem_range.mp hi)

theorem store_outside (h : b < a ∨ a + cells.length ≤ b) : store mem a cells b = mem b := by
  induction cells generalizing mem a with
  | nil => rfl
  | cons c cells ih =>
      rw [List.length_cons] at h
      rw [store, ih (by omega), Function.update_of_ne (by omega)]

/-- Only a block can change where a block is written. -/
theorem mem_block_of_store_ne (h : store mem a cells b ≠ mem b) :
    a ≤ b ∧ b < a + cells.length := by
  by_contra hout
  exact h (store_outside (by omega))

theorem store_append (cells' : List Cell) :
    store mem a (cells ++ cells') = store (store mem a cells) (a + cells.length) cells' := by
  induction cells generalizing mem a with
  | nil => rfl
  | cons c cells ih =>
      rw [List.cons_append, store, ih, store, List.length_cons, Nat.add_assoc, Nat.add_comm 1]

theorem fetch_store_outside (h : a + n ≤ b ∨ b + cells.length ≤ a) :
    fetch (store mem b cells) a n = fetch mem a n :=
  fetch_congr fun i hi => store_outside (by omega)

theorem fetch_store_self : fetch (store mem a cells) a cells.length = cells := by
  induction cells generalizing mem a with
  | nil => rfl
  | cons c cells ih =>
      have hhead : store (Function.update mem a c) (a + 1) cells a = c := by
        rw [store_outside (by omega), Function.update_self]
      rw [List.length_cons, Nat.add_comm, fetch_append, store, ih]
      change store (Function.update mem a c) (a + 1) cells a :: cells = c :: cells
      rw [hhead]

theorem store_inside {i : ℕ} (hi : i < cells.length) : store mem a cells (a + i) = cells[i] := by
  have hself : fetch (store mem a cells) a cells.length = cells := fetch_store_self
  have hget := List.getElem_of_eq hself (by rw [length_fetch]; exact hi)
  simp only [fetch, List.getElem_map, List.getElem_range] at hget
  exact hget

theorem take_fetch {m : ℕ} (h : m ≤ n) : (fetch mem a n).take m = fetch mem a m := by
  rw [fetch, ← List.map_take, List.take_range, Nat.min_eq_left h]
  rfl

theorem fetch_store_take (h : n ≤ cells.length) : fetch (store mem a cells) a n = cells.take n := by
  rw [← take_fetch h, fetch_store_self]

/-! ## Writes anywhere -/

/-- Write one cell after the other. -/
def writeAll (mem : ℕ → Cell) (ws : List (ℕ × Cell)) : ℕ → Cell :=
  ws.foldl (fun mem w => Function.update mem w.1 w.2) mem

theorem writeAll_append (ws ws' : List (ℕ × Cell)) :
    writeAll mem (ws ++ ws') = writeAll (writeAll mem ws) ws' := List.foldl_append

/-- A cell that is not written stays as it is. -/
theorem writeAll_outside {ws : List (ℕ × Cell)} (h : ∀ w ∈ ws, w.1 ≠ b) :
    writeAll mem ws b = mem b := by
  induction ws generalizing mem with
  | nil => rfl
  | cons w ws ih =>
      have hne : b ≠ w.1 := (h w List.mem_cons_self).symm
      refine (ih fun w' hw' => h w' (List.mem_cons_of_mem _ hw')).trans ?_
      exact Function.update_of_ne hne ..

end Memory
