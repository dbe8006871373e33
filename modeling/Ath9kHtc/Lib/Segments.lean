import Mathlib.Algebra.Ring.Nat
import Mathlib.Data.List.Basic

/-!
# Messages cut into segments

A message becomes segments of at most `n` elements; only its last segment is shorter, and an empty
message is one empty segment.
-/

namespace Segments

universe u

variable {α : Type u}

def segment (n : ℕ) (l : List α) : List (List α) :=
  if 0 < n ∧ n < l.length then l.take n :: segment n (l.drop n) else [l]
termination_by l.length
decreasing_by
  rw [List.length_drop]
  omega

/-- What a stream of messages is sent as. -/
def stream (n : ℕ) (messages : List (List α)) : List (List α) := messages.flatMap (segment n)

variable {n : ℕ} {l : List α} {messages messages' : List (List α)}

theorem segment_of_le (h : l.length ≤ n) : segment n l = [l] := by
  rw [segment, if_neg (by omega)]

theorem segment_of_lt (hn : 0 < n) (h : n < l.length) :
    segment n l = l.take n :: segment n (l.drop n) := by
  rw [segment, if_pos ⟨hn, h⟩]

theorem segment_ne_nil (n : ℕ) (l : List α) : segment n l ≠ [] := by
  rw [segment]
  split <;> simp

/-- Nothing is lost or added. -/
theorem flatten_segment (n : ℕ) (l : List α) : (segment n l).flatten = l := by
  induction l using segment.induct n with
  | case1 l h ih => rw [segment, if_pos h, List.flatten_cons, ih, List.take_append_drop]
  | case2 l h => rw [segment, if_neg h, List.flatten_singleton]

theorem length_le_of_mem_segment (hn : 0 < n) : ∀ s ∈ segment n l, s.length ≤ n := by
  induction l using segment.induct n with
  | case1 l h ih =>
    rw [segment, if_pos h]
    intro s hs
    rcases List.mem_cons.mp hs with rfl | hs
    · exact List.length_take_le n l
    · exact ih s hs
  | case2 l h =>
    rw [segment, if_neg h]
    intro s hs
    obtain rfl := List.mem_singleton.mp hs
    omega

@[simp] theorem stream_nil : stream n ([] : List (List α)) = [] := rfl

@[simp] theorem stream_cons (l : List α) (messages : List (List α)) :
    stream n (l :: messages) = segment n l ++ stream n messages := rfl

@[simp] theorem stream_append : stream n (messages ++ messages') =
    stream n messages ++ stream n messages' := List.flatMap_append

/-- The bytes of the stream are those of the messages, in their order. -/
theorem flatten_stream (n : ℕ) (messages : List (List α)) :
    (stream n messages).flatten = messages.flatten := by
  induction messages with
  | nil => rfl
  | cons l messages ih =>
    rw [stream_cons, List.flatten_append, flatten_segment, ih, List.flatten_cons]

theorem length_le_of_mem_stream (hn : 0 < n) : ∀ s ∈ stream n messages, s.length ≤ n := by
  intro s hs
  obtain ⟨l, -, hl⟩ := List.mem_flatMap.mp hs
  exact length_le_of_mem_segment hn s hl

theorem stream_ne_nil (h : messages ≠ []) : stream n messages ≠ [] := by
  cases messages with
  | nil => exact absurd rfl h
  | cons l messages =>
    rw [stream_cons]
    exact List.append_ne_nil_of_left_ne_nil (segment_ne_nil n l) _

end Segments
