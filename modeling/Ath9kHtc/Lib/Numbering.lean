import Mathlib.Data.List.Induction

/-!
# Numbers from a counter that may go back

A log of what a counter modulo `N` has numbered, the latest first.  Several entries in a row can
share one number, until one of them ends it.  An entry is marked while its number stands; the
counter may go back over numbers that no longer do.
-/

namespace Numbering

universe u

variable {α : Type u} (N : ℕ) (seq : α → ℕ) (ends : α → Bool)

/-- The number after the last that stands. -/
def next : List (α × Bool) → ℕ
  | [] => 0
  | (a, stands) :: log =>
    if stands then if ends a then (seq a + 1) % N else seq a else next log

/-- Every number that stands was the next one when it was given. -/
def Series : List (α × Bool) → Prop
  | [] => True
  | (a, stands) :: log => (stands = true → seq a = next N seq ends log) ∧ Series log

/-- The numbers used from an entry on, up to the entry in front of `between`. -/
def used (between : List (α × Bool)) (a : α) : ℕ :=
  (a :: between.map Prod.fst).countP ends

/-- A number that stands is given to another entry only after `N` numbers. -/
def Apart : List (α × Bool) → Prop
  | [] => True
  | (b, _) :: log =>
    (∀ between a rest, log = between ++ (a, true) :: rest → seq b = seq a →
      0 < used ends between a → N ≤ used ends between a) ∧ Apart log

/-- A number is taken back with every entry that has it. -/
def Whole : List (α × Bool) → Prop
  | [] => True
  | (_, stands) :: log =>
    (stands = false → ∀ p ∈ log.head?, p.2 = true → ends p.1 = true) ∧ Whole log

variable {N seq ends} {log between rest : List (α × Bool)} {a b : α}

theorem next_lt (hN : 0 < N) (h : Series N seq ends log) : next N seq ends log < N := by
  induction log with
  | nil => exact hN
  | cons p log ih =>
      obtain ⟨a, stands⟩ := p
      rw [next]
      split
      · split
        · exact Nat.mod_lt _ hN
        · rw [h.1 ‹_›]
          exact ih h.2
      · exact ih h.2

theorem Apart.of_append {l₁ l₂ : List (α × Bool)} (h : Apart N seq ends (l₁ ++ l₂)) :
    Apart N seq ends l₂ := by
  induction l₁ with
  | nil => exact h
  | cons p l₁ ih => exact ih h.2

/-- The numbers that stand behind an entry. -/
def standing (ends : α → Bool) (between : List (α × Bool)) (a : α) : ℕ :=
  ((a, true) :: between).countP fun p => p.2 && ends p.1

theorem standing_cons {p : α × Bool} : standing ends (p :: between) a =
    standing ends between a + if p.2 && ends p.1 then 1 else 0 := by
  simp only [standing, List.countP_cons]
  omega

theorem standing_le_used : standing ends between a ≤ used ends between a := by
  rw [standing, used, List.countP_cons, List.countP_cons, List.countP_map]
  apply Nat.add_le_add
  · apply List.countP_mono_left
    intro p _ hp
    exact (Bool.and_eq_true_iff.mp hp).2
  · exact Nat.le_refl _

theorem next_append (hN : 0 < N) (h : Series N seq ends (between ++ (a, true) :: rest)) :
    next N seq ends (between ++ (a, true) :: rest) = (seq a + standing ends between a) % N := by
  induction between with
  | nil =>
      have hlt : seq a < N := by
        rw [h.1 rfl]
        exact next_lt hN h.2
      rw [List.nil_append, next, if_pos rfl, standing, List.countP_cons, List.countP_nil]
      cases ends a with
      | false => exact (Nat.mod_eq_of_lt hlt).symm
      | true => rfl
  | cons p between ih =>
      obtain ⟨b, stands⟩ := p
      have hrest := ih h.2
      rw [List.cons_append, next, standing_cons]
      cases stands with
      | false => exact hrest
      | true =>
          have hb : seq b = (seq a + standing ends between a) % N := (h.1 rfl).trans hrest
          cases hends : ends b with
          | false => simpa [hends] using hb
          | true => simp [hb, Nat.add_assoc]

theorem Whole.of_append {l₁ l₂ : List (α × Bool)} (h : Whole ends (l₁ ++ l₂)) : Whole ends l₂ := by
  induction l₁ with
  | nil => exact h
  | cons p l₁ ih => exact ih h.2

/-- The number of an entry that stands is not taken back by itself. -/
theorem Whole.standing_pos (h : Whole ends (between ++ (a, true) :: rest))
    (hpos : 0 < used ends between a) : 0 < standing ends between a := by
  induction between using List.reverseRecOn generalizing a rest with
  | nil => exact hpos
  | append_singleton between p ih =>
      obtain ⟨b, stands⟩ := p
      rw [List.append_assoc] at h
      cases ha : ends a with
      | true => simp [standing, ha]
      | false =>
          have hstands : stands = true := by
            by_contra hnot
            have hend := h.of_append.1 (Bool.eq_false_iff.mpr hnot) (a, true) rfl rfl
            exact absurd (ha.symm.trans hend) Bool.false_ne_true
          subst hstands
          have hused : used ends (between ++ [(b, true)]) a = used ends between b := by
            simp only [used, List.map_append, List.countP_cons, List.countP_append, List.map_cons,
              List.map_nil, List.countP_nil, ha]
            simp
          have hstanding :
              standing ends (between ++ [(b, true)]) a = standing ends between b := by
            simp only [standing, List.countP_cons, List.countP_append, List.countP_nil, ha]
            simp
          rw [hstanding]
          exact ih h (hused ▸ hpos)

/-- A number that the series comes back to has been used `N` numbers ago at the latest. -/
theorem Series.comes_back (hN : 0 < N) (h : Series N seq ends (between ++ (a, true) :: rest))
    (hwhole : Whole ends (between ++ (a, true) :: rest))
    (hsame : next N seq ends (between ++ (a, true) :: rest) = seq a)
    (hpos : 0 < used ends between a) : N ≤ used ends between a := by
  have hlt : seq a < N := hsame ▸ next_lt hN h
  rw [next_append hN h] at hsame
  have hstanding := hwhole.standing_pos hpos
  refine Nat.le_trans ?_ standing_le_used
  by_contra hless
  have hlt' : standing ends between a < N := Nat.lt_of_not_le hless
  rcases Nat.lt_or_ge (seq a + standing ends between a) N with hsum | hsum
  · rw [Nat.mod_eq_of_lt hsum] at hsame
    omega
  · rw [Nat.mod_eq_sub_mod hsum, Nat.mod_eq_of_lt (by omega)] at hsame
    omega

/-! ## Giving and taking back -/

/-- What every log of the counter keeps. -/
structure Lawful (N : ℕ) (seq : α → ℕ) (ends : α → Bool) (log : List (α × Bool)) : Prop where
  series : Series N seq ends log
  apart : Apart N seq ends log
  whole : Whole ends log

theorem lawful_nil : Lawful N seq ends [] := ⟨trivial, trivial, trivial⟩

/-- An entry gets the next number. -/
theorem Lawful.give (hN : 0 < N) (h : Lawful N seq ends log) (hb : seq b = next N seq ends log) :
    Lawful N seq ends ((b, true) :: log) where
  series := ⟨fun _ => hb, h.series⟩
  apart := by
    refine ⟨?_, h.apart⟩
    rintro between a rest rfl hsame hpos
    exact h.series.comes_back hN h.whole (hb.symm.trans hsame) hpos
  whole := ⟨fun hf => (Bool.false_ne_true hf.symm).elim, h.whole⟩

/-- Entries at the end of the log whose numbers stand, or do not any more. -/
def marked (stands : Bool) (new : List α) (log : List (α × Bool)) : List (α × Bool) :=
  new.map (fun a => (a, stands)) ++ log

theorem marked_cons {stands : Bool} {new : List α} :
    marked stands (a :: new) log = (a, stands) :: marked stands new log := rfl

theorem next_marked_false {new : List α} :
    next N seq ends (marked false new log) = next N seq ends log := by
  induction new with
  | nil => rfl
  | cons a new ih => exact ih

/-- A split of a log in which the last numbers were taken back is one of the log before. -/
theorem marked_false_split {new : List α}
    (h : marked false new log = between ++ (a, true) :: rest) :
    ∃ between', marked true new log = between' ++ (a, true) :: rest ∧
      between'.map Prod.fst = between.map Prod.fst := by
  induction new generalizing between with
  | nil => exact ⟨between, h, rfl⟩
  | cons b new ih =>
      cases between with
      | nil => cases (List.cons.inj h).1
      | cons p between =>
          obtain ⟨rfl, htail⟩ := List.cons.inj h
          obtain ⟨between', hsplit, hmap⟩ := ih htail
          refine ⟨(b, true) :: between', ?_, ?_⟩
          · rw [marked_cons, hsplit]
            rfl
          · rw [List.map_cons, List.map_cons, hmap]

/-- The last numbers are taken back. -/
theorem Lawful.takeBack {new : List α} (h : Lawful N seq ends (marked true new log))
    (hends : new ≠ [] → ∀ p ∈ log.head?, p.2 = true → ends p.1 = true) :
    Lawful N seq ends (marked false new log) := by
  induction new with
  | nil => exact h
  | cons b new ih =>
      replace hends := hends (List.cons_ne_nil b new)
      have hlast := ih ⟨h.series.2, h.apart.2, h.whole.2⟩ fun _ => hends
      refine ⟨⟨fun hf => (Bool.false_ne_true hf).elim, hlast.series⟩, ⟨?_, hlast.apart⟩,
        ⟨fun _ p hp hstands => ?_, hlast.whole⟩⟩
      · intro between a rest hsplit hsame hpos
        obtain ⟨between', hsplit', hmap⟩ := marked_false_split hsplit
        have hapart := h.apart.1 between' a rest hsplit' hsame
        simp only [used, hmap] at hapart
        exact hapart hpos
      · cases new with
        | nil => exact hends p hp hstands
        | cons c new =>
            obtain rfl : (c, false) = p := Option.some_inj.mp hp
            cases hstands

/-- The first of the last entries has the number that the counter goes back to. -/
theorem Lawful.last_seq {new : List α} (h : Lawful N seq ends (marked true (new ++ [a]) log)) :
    seq a = next N seq ends log := by
  induction new with
  | nil => exact h.series.1 rfl
  | cons b new ih => exact ih ⟨h.series.2, h.apart.2, h.whole.2⟩

end Numbering
