import Ath9kHtc.Lib.Splice
import Mathlib.Data.List.Forall2
import Mathlib.Data.List.Perm.Basic

/-!
# Chains that share one field of links

A heap in which every node is on at most one of several chains, as free lists and queues of the
same kind of node are.
-/

universe u

variable {α : Type u} {next next' : α → Option α} {ls ls' : List (List α)} {l : List α} {a b : α}
  {p : Option α}

/-- Each list is a chain, and no node is on two of them. -/
structure Chains (next : α → Option α) (ls : List (List α)) : Prop where
  distinct : ls.flatten.Nodup
  chain : ∀ l ∈ ls, Chain next l.head? l

namespace Chains

theorem nil : Chains next [] := by
  constructor
  · exact List.nodup_nil
  · intro l hl
    cases hl

theorem perm (h : Chains next ls) (hp : ls.Perm ls') : Chains next ls' := by
  constructor
  · exact hp.flatten.nodup_iff.mp h.distinct
  · intro l hl
    exact h.chain l (hp.mem_iff.mpr hl)

/-- Links of other nodes are of no account. -/
theorem congr (h : Chains next ls) (hnext : ∀ a ∈ ls.flatten, next' a = next a) :
    Chains next' ls := by
  constructor
  · exact h.distinct
  · intro l hl
    apply (h.chain l hl).congr
    intro a ha
    exact hnext a (List.mem_flatten.mpr ⟨l, hl, ha⟩)

theorem head (h : Chains next (l :: ls)) : Chain next l.head? l := h.chain l List.mem_cons_self

theorem tail (h : Chains next (l :: ls)) : Chains next ls := by
  constructor
  · exact (List.nodup_append.mp h.distinct).2.1
  · intro l hl
    exact h.chain l (List.mem_cons_of_mem _ hl)

theorem cons (h : Chains next ls) (hl : Chain next l.head? l) (hd : l.Nodup)
    (hapart : ∀ a ∈ l, a ∉ ls.flatten) : Chains next (l :: ls) := by
  constructor
  · apply List.nodup_append.mpr
    refine ⟨hd, h.distinct, ?_⟩
    rintro a ha b hb rfl
    exact hapart a ha hb
  · intro l' hl'
    rcases List.mem_cons.mp hl' with rfl | hmem
    · exact hl
    · exact h.chain l' hmem

/-- A node on no chain, linked to none. -/
theorem single (h : Chains next ls) (ha : a ∉ ls.flatten) (hnone : next a = none) :
    Chains next ([a] :: ls) := by
  apply h.cons
  · exact ⟨rfl, hnone⟩
  · exact List.nodup_singleton a
  · intro b hb
    rwa [List.mem_singleton.mp hb]

theorem cons_nil (h : Chains next ls) : Chains next ([] :: ls) := by
  apply h.cons
  · exact rfl
  · exact List.nodup_nil
  · intro a ha
    cases ha

theorem notMem (h : Chains next ((a :: l) :: ls)) : a ∉ l ∧ a ∉ ls.flatten := by
  have hd := h.distinct
  rw [List.flatten_cons, List.cons_append] at hd
  have ha := (List.nodup_cons.mp hd).1
  exact ⟨fun hl => ha (List.mem_append_left _ hl), fun hls => ha (List.mem_append_right _ hls)⟩

section

variable (hnext : ∀ c, c ≠ a → next' c = next c)

include hnext

/-- The first node of a chain is taken off. -/
theorem pop (h : Chains next ((a :: l) :: ls)) (ha : next' a = none) :
    Chains next' ([a] :: l :: ls) := by
  obtain ⟨hal, hals⟩ := h.notMem
  have hrest : Chains next (l :: ls) := by
    apply h.tail.cons
    · have hchain := h.head.2
      rwa [← hchain.head?_eq] at hchain
    · exact (List.nodup_cons.mp (List.nodup_append.mp h.distinct).1).2
    · intro b hb hbls
      exact (List.nodup_append.mp h.distinct).2.2 b (List.mem_cons_of_mem _ hb) b hbls rfl
  have hnot : a ∉ (l :: ls).flatten := by
    rw [List.flatten_cons, List.mem_append]
    exact not_or.mpr ⟨hal, hals⟩
  apply (hrest.congr ?_).single hnot ha
  intro b hb
  exact hnext b (ne_of_mem_of_not_mem hb hnot)

/-- A node goes in front of a chain. -/
theorem push (h : Chains next ([a] :: l :: ls)) (ha : next' a = l.head?) :
    Chains next' ((a :: l) :: ls) := by
  obtain ⟨-, hnot⟩ := h.notMem
  rw [List.flatten_cons, List.mem_append, not_or] at hnot
  have hls : Chains next' (l :: ls) := by
    apply h.tail.congr
    intro b hb
    apply hnext
    rintro rfl
    rcases List.mem_append.mp hb with hl | hls
    · exact hnot.1 hl
    · exact hnot.2 hls
  apply hls.tail.cons
  · refine ⟨rfl, ?_⟩
    rw [ha]
    exact hls.head
  · exact List.nodup_cons.mpr ⟨hnot.1, (List.nodup_append.mp hls.distinct).1⟩
  · intro b hb hbls
    rcases List.mem_cons.mp hb with rfl | hbl
    · exact hnot.2 hbls
    · exact (List.nodup_append.mp hls.distinct).2.2 b hbl b hbls rfl

/-- The last node of a chain is linked to a node that goes behind it. -/
theorem snoc (h : Chains next ([b] :: (l ++ [a]) :: ls)) (ha : next' a = some b) :
    Chains next' ((l ++ [a, b]) :: ls) := by
  have hd := h.distinct
  simp only [List.flatten_cons, List.singleton_append, List.append_assoc] at hd
  obtain ⟨hb, hd⟩ := List.nodup_cons.mp hd
  simp only [List.mem_append, List.mem_cons, not_or] at hb
  obtain ⟨hl, hrest, hapart⟩ := List.nodup_append.mp hd
  have hla : a ∉ l := fun hal => hapart a hal a List.mem_cons_self rfl
  have hals : a ∉ ls.flatten := (List.nodup_cons.mp hrest).1
  have hls : Chains next' ls := h.tail.tail.congr fun c hc => hnext c (ne_of_mem_of_not_mem hc hals)
  apply hls.cons
  · have hhead : (l ++ [a, b]).head? = (l ++ [a]).head? := by
      cases l <;> rfl
    rw [hhead]
    apply h.tail.head.splice ha
    · intro c hc
      exact hnext c (ne_of_mem_of_not_mem hc hla)
    · have hbnone : next b = none := h.head.2
      refine ⟨rfl, ?_⟩
      rw [hnext b hb.2.1, hbnone]
      rfl
  · apply List.nodup_append.mpr
    refine ⟨hl, by simp [Ne.symm hb.2.1], ?_⟩
    rintro c hc d hd rfl
    rcases List.mem_pair.mp hd with rfl | rfl
    · exact hla hc
    · exact hb.1 hc
  · intro c hc hcls
    rcases List.mem_append.mp hc with hcl | hcab
    · exact hapart c hcl c (List.mem_cons_of_mem _ hcls) rfl
    · rcases List.mem_pair.mp hcab with rfl | rfl
      · exact hals hcls
      · exact hb.2.2 hcls

end

end Chains

/-- A relation between two lists is weakened where it is used. -/
theorem List.Forall₂.imp_of_mem {β γ : Type*} {R S : β → γ → Prop} {xs : List β} {ys : List γ}
    (h : List.Forall₂ R xs ys) (himp : ∀ x ∈ xs, ∀ y ∈ ys, R x y → S x y) :
    List.Forall₂ S xs ys := by
  induction h with
  | nil => exact .nil
  | cons hxy _ ih =>
    apply List.Forall₂.cons
    · exact himp _ List.mem_cons_self _ List.mem_cons_self hxy
    · exact ih fun x hx y hy => himp x (List.mem_cons_of_mem _ hx) y (List.mem_cons_of_mem _ hy)

/-- Each element of the first list is related to one of the second. -/
theorem List.Forall₂.exists_of_mem_left {β γ : Type*} {R : β → γ → Prop} {xs : List β} {ys : List γ}
    (h : List.Forall₂ R xs ys) {x : β} (hx : x ∈ xs) : ∃ y ∈ ys, R x y := by
  induction h with
  | nil => cases hx
  | cons hxy _ ih =>
    rcases List.mem_cons.mp hx with rfl | hrest
    · exact ⟨_, List.mem_cons_self, hxy⟩
    · obtain ⟨y, hy, hR⟩ := ih hrest
      exact ⟨y, List.mem_cons_of_mem _ hy, hR⟩
