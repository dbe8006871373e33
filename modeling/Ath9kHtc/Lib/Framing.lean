import Mathlib.Data.List.DropRight

/-!
# Framing

A stream of segments, of which some say that more of their frame follows, is a list of frames and
the beginning of one.
-/

namespace Framing

universe u

variable {Seg : Type u} (more : Seg → Bool)

/-- The frames of a stream whose first segments go on with the frame `cur`. -/
def framesFrom : List Seg → List Seg → List (List Seg)
  | _, [] => []
  | cur, seg :: segs =>
    if more seg then framesFrom (cur ++ [seg]) segs else (cur ++ [seg]) :: framesFrom [] segs

/-- The complete frames of a stream. -/
def frames (segs : List Seg) : List (List Seg) := framesFrom more [] segs

/-- What has come of the frame that is not complete. -/
def openFrame (segs : List Seg) : List Seg := segs.rtakeWhile more

/-- All segments but the last say that more follows. -/
def IsFrame (f : List Seg) : Prop :=
  ∃ body last, f = body ++ [last] ∧ (∀ seg ∈ body, more seg = true) ∧ more last = false

variable {more} {segs rest f cur : List Seg} {F : List (List Seg)}

theorem framesFrom_append (cur rest : List Seg) (hf : IsFrame more f) :
    framesFrom more cur (f ++ rest) = (cur ++ f) :: frames more rest := by
  obtain ⟨body, last, rfl, hbody, hlast⟩ := hf
  induction body generalizing cur with
  | nil => simp [framesFrom, hlast, frames]
  | cons seg body ih =>
      have hseg := hbody seg List.mem_cons_self
      have hrest := ih (cur ++ [seg]) fun seg hs => hbody seg (List.mem_cons_of_mem _ hs)
      rw [List.cons_append, List.cons_append, framesFrom, if_pos hseg, hrest, List.append_assoc]
      rfl

/-- Complete frames at the beginning of a stream are its first frames. -/
theorem frames_flatten_append (hF : ∀ f ∈ F, IsFrame more f) :
    frames more (F.flatten ++ rest) = F ++ frames more rest := by
  induction F with
  | nil => rfl
  | cons f F ih =>
      have hhead := framesFrom_append [] (F.flatten ++ rest)
        (hF f List.mem_cons_self)
      rw [List.flatten_cons, List.append_assoc, frames, hhead, List.nil_append,
        ih fun f hf => hF f (List.mem_cons_of_mem _ hf), List.cons_append]

/-- Every frame ends with a segment that does not say that more follows. -/
theorem length_framesFrom : ∀ cur segs : List Seg,
    (framesFrom more cur segs).length = segs.countP fun seg => !more seg
  | _, [] => rfl
  | cur, seg :: segs => by
      rw [framesFrom, List.countP_cons]
      by_cases hseg : more seg = true
      · rw [if_pos hseg, length_framesFrom (cur ++ [seg]) segs]
        simp [hseg]
      · rw [if_neg hseg, List.length_cons, length_framesFrom [] segs]
        simp [hseg]

/-- Segments that say that more follows, and one behind them, hold one frame at most. -/
theorem length_frames_le {q c : List Seg} (hq : ∀ seg ∈ q, more seg = true) (hc : c.length ≤ 1) :
    (frames more (q ++ c)).length ≤ 1 := by
  have hnone : (q.countP fun seg => !more seg) = 0 := by
    rw [List.countP_eq_zero]
    intro seg hseg
    simp [hq seg hseg]
  rw [frames, length_framesFrom, List.countP_append, hnone, Nat.zero_add]
  exact List.countP_le_length.trans hc

/-- Segments at the end of a stream that all say that more follows are of the open frame. -/
theorem suffix_openFrame (hall : ∀ seg ∈ f, more seg = true) :
    f <:+ openFrame more (rest ++ f) := by
  rw [openFrame, List.rtakeWhile, List.reverse_append, List.takeWhile_append_of_pos]
  · rw [List.reverse_append, List.reverse_reverse]
    exact List.suffix_append _ _
  · intro seg hseg
    exact hall seg (List.mem_reverse.mp hseg)

/-- Every beginning of a frame in the stream meets `P`, each with the segment after it. -/
def Framed (more : Seg → Bool) (P : List Seg → Seg → Prop) (segs : List Seg) : Prop :=
  ∀ before f seg after, segs = before ++ f ++ seg :: after → (∀ x ∈ f, more x = true) → P f seg

theorem framed_nil (P : List Seg → Seg → Prop) : Framed more P [] := by
  intro before f seg after heq
  simp at heq

/-- It is enough that the open frame meets `P`, where its ends do. -/
theorem Framed.concat {P : List Seg → Seg → Prop} {seg : Seg} (h : Framed more P segs)
    (hP : ∀ f, f <:+ openFrame more segs → P f seg) : Framed more P (segs ++ [seg]) := by
  intro before f seg' after heq hall
  rcases List.eq_nil_or_concat after with rfl | ⟨after', last, rfl⟩
  · obtain ⟨hsegs, hseg⟩ := List.append_inj' heq rfl
    obtain rfl := (List.cons.inj hseg).1
    rw [hsegs] at hP
    exact hP f (suffix_openFrame hall)
  · rw [List.concat_eq_append] at heq
    have hsplit : segs ++ [seg] = (before ++ f ++ seg' :: after') ++ [last] := by
      rw [heq, List.append_assoc, List.append_assoc, List.append_assoc, List.cons_append]
    obtain ⟨hsegs, -⟩ := List.append_inj' hsplit rfl
    exact h before f seg' after' hsegs hall

end Framing
