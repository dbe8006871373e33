import Ath9kHtc.Lib.Chain
import Mathlib.Data.List.TakeWhile

/-!
# Searching and relinking a chain

A loop over a chain that keeps the node before the current one, and what becomes of the
chain when the link it stopped at is written.
-/

universe u

variable {α : Type u} {next next' : α → Option α} {p prev x : Option α} {l l₁ l₂ l₃ : List α}
  {n : ℕ} {stop : α → Bool}

/-- The loop goes on to the first node that meets `stop`, or to the end of the chain, and
returns this place with the node before it; it is `none` where it runs over more than `n` nodes. -/
def seek (next : α → Option α) (stop : α → Bool) :
    ℕ → Option α → Option α → Option (Option α × Option α)
  | _, prev, none => some (prev, none)
  | 0, _, some _ => none
  | n + 1, prev, some a =>
    if stop a then some (prev, some a) else seek next stop n (some a) (next a)

namespace Chain

/-- The place of the first node that meets `stop`. -/
theorem seek_eq (h : Chain next p l) (hn : l.length ≤ n) :
    seek next stop n prev p =
      some ((prev.toList ++ l.takeWhile fun a => !stop a).getLast?,
        (l.dropWhile fun a => !stop a).head?) := by
  induction l generalizing p prev n with
  | nil =>
    rw [nil_iff.mp h]
    cases prev <;> cases n <;> rfl
  | cons a l ih =>
    obtain ⟨rfl, hl⟩ := h
    cases n with
    | zero => simp at hn
    | succ n =>
      rw [seek]
      by_cases ha : stop a = true
      · cases prev <;> simp [ha]
      · rw [if_neg ha, ih hl (Nat.le_of_succ_le_succ hn)]
        cases prev <;> simp [ha]

/-- The loop splits the list in front of the first node that meets `stop`. -/
theorem seek_split (h : Chain next p l) (hn : l.length ≤ n) (stop : α → Bool) :
    ∃ l₁ l₂, l = l₁ ++ l₂ ∧ seek next stop n none p = some (l₁.getLast?, l₂.head?) ∧
      (∀ a ∈ l₁, stop a = false) ∧ ∀ a ∈ l₂.head?, stop a = true := by
  refine ⟨l.takeWhile fun a => !stop a, l.dropWhile fun a => !stop a,
    List.takeWhile_append_dropWhile.symm, ?_, fun a ha => ?_, fun a ha => ?_⟩
  · have hseek : seek next stop n none p = _ := h.seek_eq hn
    simpa using hseek
  · simpa using List.mem_takeWhile_imp ha
  · have := List.head?_dropWhile_not (fun a => !stop a) l
    rw [ha] at this
    simpa using this

theorem head?_eq (h : Chain next p l) : l.head? = p := by
  cases l with
  | nil => exact (nil_iff.mp h).symm
  | cons a l => exact h.1.symm

theorem append (h : Chain next p (l₁ ++ l₂)) : Chain next l₂.head? l₂ := by
  induction l₁ generalizing p with
  | nil =>
    rw [List.nil_append] at h
    rwa [h.head?_eq]
  | cons a l₁ ih => exact ih h.2

/-- Another chain takes the place of what follows the node `b`. -/
theorem splice {b : α} (h : Chain next p (l₁ ++ b :: l₂)) (hlink : next' b = x)
    (hsame : ∀ a ∈ l₁, next' a = next a) (hx : Chain next' x l₃) :
    Chain next' p (l₁ ++ b :: l₃) := by
  induction l₁ generalizing p with
  | nil => exact ⟨h.1, hlink ▸ hx⟩
  | cons a l₁ ih =>
    refine ⟨h.1, ?_⟩
    rw [hsame a List.mem_cons_self]
    exact ih h.2 fun c hc => hsame c (List.mem_cons_of_mem _ hc)

end Chain

/-- The link a list is entered through: the field of the node before, or the head of the list. -/
def relinkHead (prev x p : Option α) : Option α := if prev.isSome then p else x

/-- After the loop, the link it stopped at is written. -/
theorem Chain.relink (h : Chain next p (l₁ ++ l₂)) (hx : Chain next' x l₃)
    (hlast : ∀ b, l₁.getLast? = some b → next' b = x)
    (hsame : ∀ a ∈ l₁.dropLast, next' a = next a) :
    Chain next' (relinkHead l₁.getLast? x p) (l₁ ++ l₃) := by
  rcases List.eq_nil_or_concat l₁ with rfl | ⟨l, b, rfl⟩
  · exact hx
  · rw [List.concat_eq_append] at *
    have hb : (l ++ [b]).getLast? = some b := by simp
    rw [hb, List.append_assoc]
    rw [List.append_assoc] at h
    apply h.splice (hlast b hb) _ hx
    intro a ha
    apply hsame a
    rwa [List.dropLast_concat]
