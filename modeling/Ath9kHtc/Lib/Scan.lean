import Mathlib.Data.Nat.Init
import Mathlib.Data.List.Basic

/-!
# Scans for the best

A scan goes through a list and keeps the last element of the highest value. A scan with an early
exit stops at the first element whose bound is no more than the best value so far.
-/

namespace Scan

universe u

variable {α : Type u} (value bound : α → ℕ)

/-- What is kept of the best so far, a value and its element, and the next element. -/
def keep (best : ℕ × α) (a : α) : ℕ × α := if best.1 ≤ value a then (value a, a) else best

/-- The scan with the early exit. -/
def untilBound : List α → ℕ × α → ℕ × α
  | [], best => best
  | a :: l, best => if bound a ≤ best.1 then best else untilBound l (keep value best a)

/-- If the scan stops between the two parts of a list, it misses nothing as good as what it has
seen. -/
def StopsSoundly (seen rest : List α) : Prop :=
  ∀ a ∈ rest.head?, (∃ b ∈ seen, bound a ≤ value b) → ∀ c ∈ rest, ∃ b ∈ seen, value c < value b

/-- The early exit misses nothing, wherever it is taken. -/
def ExitSound (l : List α) : Prop :=
  ∀ i < l.length, StopsSoundly value bound (l.take i) (l.drop i)

instance (seen rest : List α) : Decidable (StopsSoundly value bound seen rest) :=
  inferInstanceAs (Decidable (∀ a ∈ rest.head?, (∃ b ∈ seen, _) → ∀ c ∈ rest, ∃ b ∈ seen, _))

instance (l : List α) : Decidable (ExitSound value bound l) :=
  inferInstanceAs (Decidable (∀ i < l.length, _))

variable {value bound} {l seen rest : List α} {best : ℕ × α} {a : α}

/-- `best` is what the scan keeps of the elements seen. -/
structure Leads (value : α → ℕ) (seen : List α) (best : ℕ × α) : Prop where
  kept : seen = [] ∧ best.1 = 0 ∨ best.2 ∈ seen ∧ best.1 = value best.2
  highest : ∀ b ∈ seen, value b ≤ best.1

theorem Leads.nil (a : α) : Leads value [] (0, a) := ⟨.inl ⟨rfl, rfl⟩, by simp⟩

theorem Leads.keep (h : Leads value seen best) (a : α) :
    Leads value (seen ++ [a]) (Scan.keep value best a) := by
  rw [Scan.keep]
  split
  case isTrue hle =>
    refine ⟨.inr ⟨by simp, rfl⟩, ?_⟩
    intro b hb
    rcases List.mem_append.mp hb with hb | hb
    · exact Nat.le_trans (h.highest b hb) hle
    · obtain rfl := List.mem_singleton.mp hb
      exact Nat.le_refl _
  case isFalse hlt =>
    rcases h.kept with ⟨-, hzero⟩ | ⟨hmem, hvalue⟩
    · omega
    refine ⟨.inr ⟨List.mem_append_left _ hmem, hvalue⟩, ?_⟩
    intro b hb
    rcases List.mem_append.mp hb with hb | hb
    · exact h.highest b hb
    · obtain rfl := List.mem_singleton.mp hb
      exact Nat.le_of_not_le hlt

theorem Leads.foldl (h : Leads value seen best) (l : List α) :
    Leads value (seen ++ l) (l.foldl (Scan.keep value) best) := by
  induction l generalizing seen best with
  | nil => rwa [List.append_nil]
  | cons a l ih =>
    rw [List.append_cons]
    exact ih (h.keep a)

/-- The scan of the whole list finds an element of the highest value. -/
theorem leads_foldl (l : List α) (a : α) : Leads value l (l.foldl (keep value) (0, a)) :=
  (Leads.nil a).foldl l

theorem foldl_mem (l : List α) (best : ℕ × α) :
    (l.foldl (keep value) best).2 = best.2 ∨ (l.foldl (keep value) best).2 ∈ l := by
  induction l generalizing best with
  | nil => exact .inl rfl
  | cons a l ih =>
    rw [List.foldl_cons]
    rcases ih (keep value best a) with heq | hmem
    · rw [heq, keep]
      split
      · exact .inr List.mem_cons_self
      · exact .inl rfl
    · exact .inr (List.mem_cons_of_mem a hmem)

/-- An element as good as the best replaces it, itself or by a later one. -/
theorem foldl_replaces (ha : a ∈ l) (hle : best.1 ≤ value a) :
    (l.foldl (keep value) best).2 ∈ l := by
  induction l generalizing best with
  | nil => cases ha
  | cons b l ih =>
    rw [List.foldl_cons]
    by_cases hb : best.1 ≤ value b
    · rw [keep, if_pos hb]
      rcases foldl_mem l (value b, b) with heq | hmem
      · rw [heq]
        exact List.mem_cons_self
      · exact List.mem_cons_of_mem b hmem
    · rw [keep, if_neg hb]
      rcases List.mem_cons.mp ha with rfl | ha
      · exact absurd hle hb
      · exact List.mem_cons_of_mem b (ih ha hle)

theorem foldl_of_lt (h : ∀ a ∈ l, value a < best.1) : l.foldl (keep value) best = best := by
  induction l with
  | nil => rfl
  | cons a l ih =>
    rw [List.foldl_cons, keep, if_neg (Nat.not_le_of_lt (h a List.mem_cons_self))]
    exact ih fun b hb => h b (List.mem_cons_of_mem a hb)

theorem untilBound_mem (l : List α) (best : ℕ × α) :
    (untilBound value bound l best).2 = best.2 ∨ (untilBound value bound l best).2 ∈ l := by
  induction l generalizing best with
  | nil => exact .inl rfl
  | cons a l ih =>
    rw [untilBound]
    split
    · exact .inl rfl
    · rcases ih (keep value best a) with heq | hmem
      · rw [heq, keep]
        split
        · exact .inr List.mem_cons_self
        · exact .inl rfl
      · exact .inr (List.mem_cons_of_mem a hmem)

/-- The scan of a list that is not empty ends with one of its elements. -/
theorem untilBound_mem_of_ne_nil (h : l ≠ []) (hpos : ∀ a ∈ l, 0 < bound a) (a : α) :
    (untilBound value bound l (0, a)).2 ∈ l := by
  cases l with
  | nil => exact absurd rfl h
  | cons b l =>
    have hb := hpos b List.mem_cons_self
    rw [untilBound, if_neg (Nat.not_le_of_lt hb), keep, if_pos (Nat.zero_le _)]
    rcases untilBound_mem l (value b, b) with heq | hmem
    · rw [heq]
      exact List.mem_cons_self
    · exact List.mem_cons_of_mem b hmem

/-- What comes after the elements seen, wherever the scan stops in it. -/
def SoundFrom (value bound : α → ℕ) (seen rest : List α) : Prop :=
  ∀ i < rest.length, StopsSoundly value bound (seen ++ rest.take i) (rest.drop i)

theorem soundFrom_cons : SoundFrom value bound seen (a :: rest) ↔
    StopsSoundly value bound seen (a :: rest) ∧ SoundFrom value bound (seen ++ [a]) rest := by
  have happend : ∀ i, seen ++ (a :: rest).take (i + 1) = seen ++ [a] ++ rest.take i := by
    intro i
    rw [List.take_succ_cons, List.append_cons]
  constructor
  · intro h
    refine ⟨?_, fun i hi => ?_⟩
    · have hfirst := h 0 (Nat.succ_pos _)
      rwa [List.take_zero, List.append_nil] at hfirst
    · rw [← happend]
      exact h (i + 1) (Nat.succ_lt_succ hi)
  · rintro ⟨hfirst, hrest⟩ i hi
    cases i with
    | zero => rwa [List.take_zero, List.append_nil]
    | succ i =>
      rw [happend]
      exact hrest i (Nat.lt_of_succ_lt_succ hi)

/-- Where nothing that follows is as good, it does not matter where the scan stops. -/
theorem soundFrom_of_lt (h : ∀ c ∈ rest, ∃ b ∈ seen, value c < value b) :
    SoundFrom value bound seen rest := by
  intro i _ _ _ _ c hc
  obtain ⟨b, hb, hlt⟩ := h c (List.drop_subset i rest hc)
  exact ⟨b, List.mem_append_left _ hb, hlt⟩

theorem untilBound_eq_iff (hlead : Leads value seen best) (hnodup : (seen ++ rest).Nodup)
    (hpos : ∀ a ∈ rest, 0 < bound a) :
    (untilBound value bound rest best).2 = (rest.foldl (keep value) best).2 ↔
      SoundFrom value bound seen rest := by
  induction rest generalizing seen best with
  | nil =>
    refine iff_of_true rfl ?_
    intro i hi
    cases hi
  | cons a rest ih =>
    rw [untilBound]
    by_cases hstop : bound a ≤ best.1
    · rw [if_pos hstop]
      have hbound := hpos a List.mem_cons_self
      rcases hlead.kept with ⟨-, hzero⟩ | ⟨hmem, hvalue⟩
      · omega
      have hseen : ∃ b ∈ seen, bound a ≤ value b := ⟨best.2, hmem, hvalue ▸ hstop⟩
      constructor
      · intro heq
        apply soundFrom_of_lt
        intro c hc
        refine ⟨best.2, hmem, ?_⟩
        by_contra hle
        have hreplaced := foldl_replaces hc (hvalue ▸ Nat.le_of_not_lt hle)
        rw [← heq] at hreplaced
        exact (List.nodup_append.mp hnodup).2.2 _ hmem _ hreplaced rfl
      · intro hsound
        have hmissed := (soundFrom_cons.mp hsound).1 a rfl hseen
        rw [foldl_of_lt]
        intro c hc
        obtain ⟨b, hb, hlt⟩ := hmissed c hc
        exact Nat.lt_of_lt_of_le hlt (hlead.highest b hb)
    · rw [if_neg hstop, soundFrom_cons, List.foldl_cons]
      have hvacuous : StopsSoundly value bound seen (a :: rest) := by
        intro next hnext ⟨b, hb, hle⟩
        obtain rfl : a = next := Option.some.inj hnext
        exact absurd (Nat.le_trans hle (hlead.highest b hb)) hstop
      rw [List.append_cons] at hnodup
      rw [ih (hlead.keep a) hnodup fun c hc => hpos c (List.mem_cons_of_mem a hc)]
      exact (and_iff_right hvacuous).symm

/-- The early exit changes nothing exactly when it misses nothing. -/
theorem untilBound_eq_foldl_iff (hnodup : l.Nodup) (hpos : ∀ a ∈ l, 0 < bound a) (a : α) :
    (untilBound value bound l (0, a)).2 = (l.foldl (keep value) (0, a)).2 ↔
      ExitSound value bound l :=
  untilBound_eq_iff (Leads.nil a) hnodup hpos

/-- In a list with falling bounds, of values that are nothing or at least the bound, the scan stops
after the first element that has a value. -/
theorem exitSound_iff_first (hfalling : l.Pairwise fun a b => bound b ≤ bound a)
    (hscale : ∀ a ∈ l, 0 < value a → bound a ≤ value a) (hpos : ∀ a ∈ l, 0 < bound a) :
    ExitSound value bound l ↔ ∀ before a after, l = before ++ a :: after →
      (∀ b ∈ before, value b = 0) → 0 < value a → ∀ c ∈ after, value c < value a := by
  constructor
  · rintro h before a after rfl hzero ha c hc
    have hlen : before.length + 1 < (before ++ a :: after).length := by
      have hafter := List.length_pos_of_mem hc
      simp only [List.length_append, List.length_cons]
      omega
    have htake : (before ++ a :: after).take (before.length + 1) = before ++ [a] := by
      rw [List.take_length_add_append]
      rfl
    have hdrop : (before ++ a :: after).drop (before.length + 1) = after := by
      rw [List.drop_length_add_append]
      rfl
    have hstop := h (before.length + 1) hlen
    rw [htake, hdrop] at hstop
    cases after with
    | nil => cases hc
    | cons next after =>
      have hnext : bound next ≤ bound a :=
        (List.pairwise_cons.mp (List.pairwise_append.mp hfalling).2.1).1 next List.mem_cons_self
      have hbound := hscale a (by simp) ha
      obtain ⟨b, hb, hlt⟩ := hstop next rfl ⟨a, by simp, Nat.le_trans hnext hbound⟩ c hc
      rcases List.mem_append.mp hb with hb | hb
      · rw [hzero b hb] at hlt
        cases hlt
      · obtain rfl := List.mem_singleton.mp hb
        exact hlt
  · intro h i hi next hnext ⟨b, hb, hle⟩ c hc
    have hvalue : 0 < value b := by
      have hbound := hpos next (List.mem_of_mem_drop (List.mem_of_mem_head? hnext))
      omega
    -- the first element with a value
    obtain ⟨a, hfind⟩ : ∃ a, (l.take i).find? (fun a => decide (0 < value a)) = some a := by
      apply Option.isSome_iff_exists.mp
      rw [List.find?_isSome]
      exact ⟨b, hb, decide_eq_true hvalue⟩
    obtain ⟨ha, before, after, hsplit, hzero⟩ := List.find?_eq_some_iff_append.mp hfind
    refine ⟨a, hsplit ▸ by simp, ?_⟩
    have hl : l = before ++ a :: (after ++ l.drop i) := by
      rw [← List.cons_append, ← List.append_assoc, ← hsplit, List.take_append_drop]
    apply h before a _ hl
    · intro b hb
      have hnone := hzero b hb
      simpa using hnone
    · simpa using ha
    · exact List.mem_append_right _ hc

end Scan
