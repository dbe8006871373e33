import Ath9kHtc.Pool.Frames
import Mathlib.Data.List.Perm.Subperm

/-!
# Frames and their fragments

Merging and splitting undo each other, up to the sixteen bits of a length.
-/

namespace Ath9kHtc.Pool

open Dma

variable {m m' m₁ : Memory} {q q₁ : NbufQueue} {b : BufId} {bs new free free' : List BufId}
  {ls : List (List BufId)}

/-! ## The buffers in use and the pool -/

/-- The free buffers are `free`, and the others are queued in `queues`. -/
structure Stocked (m : Memory) (queues : List (List BufId)) (free : List BufId) : Prop where
  links : Chains m.nextBuf (free :: queues)
  pool : m.freeBufHead = free.head?

/-- Each of the buffers has descriptors of its own; lengths have sixteen bits. -/
structure Holding (m : Memory) (bs : List BufId) : Prop where
  holds : ∀ b ∈ bs, Holds m b
  distinct : (bs.flatMap (vbufDescs m)).Nodup
  inside : ∀ d ∈ bs.flatMap (vbufDescs m), d < m.nDesc
  bufLength : ∀ b ∈ bs, (m.vb b).bufLength < 65536
  dataSize : ∀ d ∈ bs.flatMap (vbufDescs m), (m.vd d).dataSize < 65536

theorem Holding.length_le (h : Holding m bs) : (bs.flatMap (vbufDescs m)).length ≤ m.nDesc := by
  have hsub : bs.flatMap (vbufDescs m) ⊆ List.range m.nDesc := fun d hd =>
    List.mem_range.mpr (h.inside d hd)
  have hlen := (h.distinct.subperm hsub).length_le
  rwa [List.length_range] at hlen

/-- The sizes of the data of a buffer added up. -/
def dataLength (m : Memory) (b : BufId) : ℕ := ((vbufDescs m b).map fun d => (m.vd d).dataSize).sum

theorem dataSize_congr (h : ∀ d, (m'.vd d).data = (m.vd d).data) (d : DescId) :
    (m'.vd d).dataSize = (m.vd d).dataSize := by
  have hdata : (m'.vd d).data.dataSize = (m.vd d).data.dataSize := by rw [h d]
  exact hdata

/-! ## One frame of many buffers -/

/-- `b` is the frame made of the buffers `bs`, which are free again. -/
structure IsFrame (ls : List (List BufId)) (free bs : List BufId) (b : BufId) (q₁ : NbufQueue)
    (m m₁ : Memory) : Prop where
  queue : Queues q₁ []
  descs : vbufDescs m₁ b = bs.flatMap (vbufDescs m)
  bufLength : (m₁.vb b).bufLength = totalLength m bs % 65536
  data : ∀ d, (m₁.vd d).data = (m.vd d).data
  holding : Holding m₁ [b]
  stocked : ∃ free₁, Stocked m₁ ([b] :: ls) free₁ ∧ free₁.length + 1 = free.length + bs.length

theorem adfNbufCreateFrmFrag_isFrame (hne : bs ≠ []) (hq : Queues q bs)
    (hs : Stocked m (bs :: ls) (b :: free)) (hh : Holding m bs) :
    ∃ q₁ m₁, adfNbufCreateFrmFrag q m = some (b, q₁, m₁) ∧ IsFrame ls (b :: free) bs b q₁ m m₁ := by
  obtain ⟨first, rest, rfl⟩ := List.exists_cons_of_ne_nil hne
  obtain ⟨q₁, m₁, hrun, hq₁, hc₁, hfree₁, hframed⟩ :=
    adfNbufCreateFrmFrag_framed hq (hs.links.perm (.swap ..)) hs.pool hh.holds hh.distinct
  have hnDesc : m₁.nDesc = m.nDesc := by
    rw [hframed.frame]
  have hdescsne : (first :: rest).flatMap (vbufDescs m) ≠ [] := by
    rw [List.flatMap_cons]
    exact List.append_ne_nil_of_left_ne_nil (hh.holds first List.mem_cons_self).ne_nil _
  obtain ⟨hholds, hdescs⟩ := holds_of_chain hframed.chain hdescsne (hnDesc ▸ hh.length_le)
  have hall : [b].flatMap (vbufDescs m₁) = (first :: rest).flatMap (vbufDescs m) := by
    rw [List.flatMap_singleton, hdescs]
  refine ⟨q₁, m₁, hrun, hq₁, hdescs, hframed.bufLength, hframed.data, ⟨?_, ?_, ?_, ?_, ?_⟩, ?_⟩
  · intro c hc
    rwa [List.mem_singleton.mp hc]
  · rw [hall]
    exact hh.distinct
  · rw [hall, hnDesc]
    exact hh.inside
  · intro c hc
    rw [List.mem_singleton.mp hc, hframed.bufLength]
    exact Nat.mod_lt _ (by decide)
  · rw [hall]
    intro d hd
    rw [dataSize_congr hframed.data]
    exact hh.dataSize d hd
  · refine ⟨(first :: rest).reverse ++ free, ⟨hc₁.perm (.swap ..), hfree₁⟩, ?_⟩
    simp
    omega

theorem adfNbufCreateFrmFrag_none (hs : Stocked m (bs :: ls) []) :
    adfNbufCreateFrmFrag q m = none := by
  rw [adfNbufCreateFrmFrag, vbufAllocVbuf, hs.pool]
  rfl

/-! ## Many buffers of one frame -/

/-- The buffers `new` are the fragments of `b`, which is free. -/
structure IsFragments (ls : List (List BufId)) (free : List BufId) (b : BufId) (new : List BufId)
    (q₁ : NbufQueue) (m m₁ : Memory) : Prop where
  queue : Queues q₁ new
  each : List.Forall₂ (fun c d => vbufDescs m₁ c = [d] ∧
    (m₁.vb c).bufLength = (m.vd d).dataSize) new (vbufDescs m b)
  data : ∀ d, (m₁.vd d).data = (m.vd d).data
  holding : Holding m₁ new
  stocked : ∃ free₁, Stocked m₁ (new :: ls) free₁ ∧ free₁.length + new.length = free.length + 1

theorem flatMap_vbufDescs {ds : List DescId}
    (h : List.Forall₂ (fun c d => vbufDescs m c = [d]) new ds) :
    new.flatMap (vbufDescs m) = ds := by
  induction h with
  | nil => rfl
  | cons hcd _ ih => rw [List.flatMap_cons, hcd, ih, List.singleton_append]

theorem adfNbufSplitToFrag_isFragments (hs : Stocked m ([b] :: ls) free) (hh : Holding m [b])
    (hlen : (vbufDescs m b).length ≤ free.length) :
    ∃ new q₁ m₁, adfNbufSplitToFrag b m = some (q₁, m₁) ∧
      IsFragments ls free b new q₁ m m₁ := by
  have hall : [b].flatMap (vbufDescs m) = vbufDescs m b := List.flatMap_singleton _ _
  have hdistinct := hh.distinct
  rw [hall] at hdistinct
  obtain ⟨new, free', q₁, m₁, rfl, hrun, hq₁, hc₁, hfree₁, hfrag⟩ :=
    adfNbufSplitToFrag_fragmented (hh.holds b List.mem_cons_self) hdistinct
      (hs.links.perm (.swap ..)) hs.pool hlen
  have hnDesc : m₁.nDesc = m.nDesc := by
    rw [hfrag.frame]
  have hdescs : new.flatMap (vbufDescs m₁) = vbufDescs m b :=
    flatMap_vbufDescs (hfrag.given.imp fun _ _ h => h.2.1)
  have hgiven : ∀ c ∈ new, Holds m₁ c ∧ ∃ d ∈ vbufDescs m b,
      (m₁.vb c).bufLength = (m.vd d).dataSize := by
    intro c hc
    obtain ⟨d, hd, hholds, -, hlength⟩ := hfrag.given.exists_of_mem_left hc
    exact ⟨hholds, d, hd, hlength⟩
  refine ⟨new, q₁, m₁, hrun, hq₁, hfrag.given.imp fun _ _ h => h.2, hfrag.data,
    ⟨?_, ?_, ?_, ?_, ?_⟩, ?_⟩
  · exact fun c hc => (hgiven c hc).1
  · rwa [hdescs]
  · rw [hdescs, hnDesc, ← hall]
    exact hh.inside
  · intro c hc
    obtain ⟨-, d, hd, hlength⟩ := hgiven c hc
    rw [hlength]
    exact hh.dataSize d (hall ▸ hd)
  · rw [hdescs]
    intro d hd
    rw [dataSize_congr hfrag.data]
    exact hh.dataSize d (hall ▸ hd)
  · refine ⟨b :: free', ⟨hc₁.perm (.swap ..), hfree₁⟩, ?_⟩
    simp
    omega

/-! ## There and back -/

theorem forall₂_of_single {R : BufId → DescId → Prop} (hone : ∀ c ∈ bs, (vbufDescs m c).length = 1)
    (h : List.Forall₂ R new (bs.flatMap (vbufDescs m))) :
    List.Forall₂ (fun c c' => ∃ d, vbufDescs m c' = [d] ∧ R c d) new bs := by
  induction bs generalizing new with
  | nil =>
    cases h
    exact .nil
  | cons b bs ih =>
    obtain ⟨d, hd⟩ := List.length_eq_one_iff.mp (hone b List.mem_cons_self)
    rw [List.flatMap_cons, hd, List.singleton_append] at h
    cases h with
    | cons hcd hrest =>
      apply List.Forall₂.cons
      · exact ⟨d, hd, hcd⟩
      · exact ih (fun c hc => hone c (List.mem_cons_of_mem _ hc)) hrest

/-- The frame made of buffers with one descriptor each is split into such buffers again. -/
theorem IsFrame.split (h : IsFrame ls free bs b q₁ m m₁) (hfree : free ≠ [])
    (hone : ∀ c ∈ bs, (vbufDescs m c).length = 1) :
    ∃ new q₂ m₂, adfNbufSplitToFrag b m₁ = some (q₂, m₂) ∧ Queues q₂ new ∧
      List.Forall₂ (fun c c' => vbufDescs m₂ c = vbufDescs m c' ∧
        (m₂.vb c).bufLength = dataLength m c') new bs ∧
      ∃ free₂, Stocked m₂ (new :: ls) free₂ ∧ free₂.length = free.length := by
  obtain ⟨free₁, hstocked, hcount⟩ := h.stocked
  have hpos := List.length_pos_iff.mpr hfree
  have hnum : (bs.flatMap (vbufDescs m)).length = bs.length := by
    rw [List.length_flatMap, List.map_congr_left hone]
    simp
  have hlen : (vbufDescs m₁ b).length ≤ free₁.length := by
    rw [h.descs, hnum]
    omega
  obtain ⟨new, q₂, m₂, hrun, hfrag⟩ := adfNbufSplitToFrag_isFragments hstocked h.holding hlen
  obtain ⟨free₂, hstocked₂, hcount₂⟩ := hfrag.stocked
  have heach := hfrag.each
  rw [h.descs] at heach
  have hsame := forall₂_of_single hone heach
  refine ⟨new, q₂, m₂, hrun, hfrag.queue, ?_, free₂, hstocked₂, ?_⟩
  · apply hsame.imp
    rintro c c' ⟨d, hd, hdescs, hlength⟩
    refine ⟨hdescs.trans hd.symm, ?_⟩
    rw [hlength, dataSize_congr h.data, dataLength, hd]
    simp
  · have hnew := hsame.length_eq
    omega

theorem totalLength_fragments {ds : List DescId}
    (h : List.Forall₂ (fun c d => (m₁.vb c).bufLength = (m.vd d).dataSize) new ds) :
    totalLength m₁ new = (ds.map fun d => (m.vd d).dataSize).sum := by
  induction h with
  | nil => rfl
  | cons hcd _ ih => rw [totalLength_cons, hcd, ih, List.map_cons, List.sum_cons]

/-- The fragments of a frame make it up again, with the sum of their sizes for its length. -/
theorem IsFragments.merge (h : IsFragments ls free b new q₁ m m₁) (hb : Holds m b)
    (hlen : (vbufDescs m b).length ≤ free.length) :
    ∃ b' q₂ m₂, adfNbufCreateFrmFrag q₁ m₁ = some (b', q₂, m₂) ∧ Queues q₂ [] ∧
      vbufDescs m₂ b' = vbufDescs m b ∧ (m₂.vb b').bufLength = dataLength m b % 65536 ∧
      ∃ free₂, Stocked m₂ ([b'] :: ls) free₂ ∧ free₂.length = free.length := by
  obtain ⟨free₁, hstocked, hcount⟩ := h.stocked
  have hnum : new.length = (vbufDescs m b).length := h.each.length_eq
  have hpos := List.length_pos_iff.mpr hb.ne_nil
  have hne : new ≠ [] := by
    apply List.length_pos_iff.mp
    omega
  obtain ⟨b', rest, rfl⟩ : ∃ b' rest, free₁ = b' :: rest := by
    apply List.exists_cons_of_ne_nil
    apply List.length_pos_iff.mp
    omega
  obtain ⟨q₂, m₂, hrun, hframe⟩ := adfNbufCreateFrmFrag_isFrame hne h.queue hstocked h.holding
  obtain ⟨free₂, hstocked₂, hcount₂⟩ := hframe.stocked
  refine ⟨b', q₂, m₂, hrun, hframe.queue, ?_, ?_, free₂, hstocked₂, ?_⟩
  · rw [hframe.descs]
    exact flatMap_vbufDescs (h.each.imp fun _ _ hcd => hcd.1)
  · rw [hframe.bufLength, totalLength_fragments (h.each.imp fun _ _ hcd => hcd.2), dataLength]
  · omega

/-- Merging takes a buffer from the pool, and splitting one for each descriptor.  Each then gives
back the buffers it went over, and each undoes the other; a length is the sum in sixteen bits. -/
theorem merge_split (m : Memory) (ls : List (List BufId)) (free : List BufId) :
    (∀ q bs, bs ≠ [] → Queues q bs → Stocked m (bs :: ls) free → Holding m bs →
      ((adfNbufCreateFrmFrag q m).isSome ↔ free ≠ []) ∧
      ∀ b q₁ m₁, adfNbufCreateFrmFrag q m = some (b, q₁, m₁) →
        IsFrame ls free bs b q₁ m m₁ ∧
        ((∀ c ∈ bs, (vbufDescs m c).length = 1) →
          ∃ new q₂ m₂, adfNbufSplitToFrag b m₁ = some (q₂, m₂) ∧ Queues q₂ new ∧
            List.Forall₂ (fun c c' => vbufDescs m₂ c = vbufDescs m c' ∧
              (m₂.vb c).bufLength = dataLength m c') new bs ∧
            ∃ free₂, Stocked m₂ (new :: ls) free₂ ∧ free₂.length = free.length)) ∧
    ∀ b, Stocked m ([b] :: ls) free → Holding m [b] →
      ((adfNbufSplitToFrag b m).isSome ↔ (vbufDescs m b).length ≤ free.length) ∧
      ∀ q₁ m₁, adfNbufSplitToFrag b m = some (q₁, m₁) →
        (∃ new, IsFragments ls free b new q₁ m m₁) ∧
        ∃ b' q₂ m₂, adfNbufCreateFrmFrag q₁ m₁ = some (b', q₂, m₂) ∧ Queues q₂ [] ∧
          vbufDescs m₂ b' = vbufDescs m b ∧
          (m₂.vb b').bufLength = dataLength m b % 65536 ∧
          ((m.vb b).bufLength = dataLength m b → (m₂.vb b').bufLength = (m.vb b).bufLength) ∧
          ∃ free₂, Stocked m₂ ([b'] :: ls) free₂ ∧ free₂.length = free.length := by
  constructor
  · intro q bs hne hq hs hh
    cases free with
    | nil =>
      have hnone : adfNbufCreateFrmFrag q m = none := adfNbufCreateFrmFrag_none hs
      refine ⟨by simp [hnone], ?_⟩
      intro b q₁ m₁ hrun
      rw [hnone] at hrun
      cases hrun
    | cons b free =>
      obtain ⟨q₁, m₁, hrun, hframe⟩ := adfNbufCreateFrmFrag_isFrame hne hq hs hh
      refine ⟨by simp [hrun], ?_⟩
      intro b' q' m' hrun'
      rw [hrun] at hrun'
      cases hrun'
      exact ⟨hframe, hframe.split (List.cons_ne_nil b free)⟩
  · intro b hs hh
    have hb := hh.holds b List.mem_cons_self
    have hsome : (adfNbufSplitToFrag b m).isSome → (vbufDescs m b).length ≤ free.length := by
      intro hsome
      by_contra hlt
      have hdistinct := hh.distinct
      rw [List.flatMap_singleton] at hdistinct
      have hnone : adfNbufSplitToFrag b m = none :=
        adfNbufSplitToFrag_none hb hdistinct (hs.links.perm (.swap ..)) hs.pool (Nat.lt_of_not_le hlt)
      rw [hnone] at hsome
      cases hsome
    constructor
    · refine ⟨hsome, fun hlen => ?_⟩
      obtain ⟨new, q₁, m₁, hrun, -⟩ := adfNbufSplitToFrag_isFragments hs hh hlen
      rw [hrun]
      rfl
    · intro q₁ m₁ hrun
      have hlen : (vbufDescs m b).length ≤ free.length := hsome (by rw [hrun]; rfl)
      obtain ⟨new, q', m', hrun', hfrag⟩ := adfNbufSplitToFrag_isFragments hs hh hlen
      rw [hrun] at hrun'
      cases hrun'
      obtain ⟨b', q₂, m₂, hmerge, hq₂, hdescs, hlength, hstocked⟩ := hfrag.merge hb hlen
      refine ⟨⟨new, hfrag⟩, b', q₂, m₂, hmerge, hq₂, hdescs, hlength, ?_, hstocked⟩
      intro hsum
      rw [hlength, ← hsum]
      exact Nat.mod_eq_of_lt (hh.bufLength b List.mem_cons_self)

/-! ### Two buffers, and a frame of two descriptors -/

/-- The buffers 0 and 1 are queued and the buffer 2 is free. -/
def twoBuffers : Memory where
  hw _ := {}
  vd d := if d = 0 then { dataSize := 65535 } else { dataSize := 1 }
  vb b := if b = 0 then ⟨some 0, some 1, 65535⟩ else if b = 1 then ⟨some 1, none, 1⟩ else {}
  nDesc := 2
  freeVdescHead := none
  freeBufHead := some 2

theorem twoBuffers_stocked : Stocked twoBuffers [[0, 1]] [2] := by
  refine ⟨⟨by decide, ?_⟩, rfl⟩
  intro l hl
  rcases List.mem_pair.mp hl with rfl | rfl
  · exact ⟨rfl, rfl⟩
  · exact ⟨rfl, rfl, rfl⟩

theorem twoBuffers_holding : Holding twoBuffers [0, 1] := by
  refine ⟨?_, by decide, by decide, by decide, by decide⟩
  intro b hb
  rcases List.mem_pair.mp hb with rfl | rfl
  · exact ⟨by decide, rfl, rfl⟩
  · exact ⟨by decide, rfl, rfl⟩

/-- The buffer 0 has two descriptors, and two buffers are free. -/
def oneFrame : Memory where
  hw _ := {}
  vd d := if d = 0 then { nextDesc := some 1, dataSize := 300 } else { dataSize := 200 }
  vb b := if b = 0 then ⟨some 0, none, 500⟩ else if b = 1 then { nextBuf := some 2 } else {}
  nDesc := 2
  freeVdescHead := none
  freeBufHead := some 1

theorem oneFrame_stocked : Stocked oneFrame [[0]] [1, 2] := by
  refine ⟨⟨by decide, ?_⟩, rfl⟩
  intro l hl
  rcases List.mem_pair.mp hl with rfl | rfl
  · exact ⟨rfl, rfl, rfl⟩
  · exact ⟨rfl, rfl⟩

theorem oneFrame_holding : Holding oneFrame [0] := by
  refine ⟨?_, by decide, by decide, by decide, by decide⟩
  intro b hb
  rw [List.mem_singleton.mp hb]
  exact ⟨by decide, rfl, rfl, rfl⟩

theorem merge_split_examples :
    (adfNbufCreateFrmFrag ⟨some 0, some 1, 2⟩ twoBuffers).isSome ∧
      (adfNbufSplitToFrag 0 oneFrame).isSome :=
  ⟨((merge_split twoBuffers [] [2]).1 _ [0, 1] (by decide) ⟨rfl, rfl, rfl⟩ twoBuffers_stocked
      twoBuffers_holding).1.mpr (by decide),
    ((merge_split oneFrame [] [1, 2]).2 0 oneFrame_stocked oneFrame_holding).1.mpr (by decide)⟩

/-- The length of a merged frame wraps around. -/
theorem merged_length_wraps :
    ∃ q bs, Queues q bs ∧ Stocked twoBuffers [bs] [2] ∧ Holding twoBuffers bs ∧
      (adfNbufCreateFrmFrag q twoBuffers).map (fun r => (r.2.2.vb r.1).bufLength) = some 0 ∧
      totalLength twoBuffers bs = 65536 :=
  ⟨⟨some 0, some 1, 2⟩, [0, 1], ⟨rfl, rfl, rfl⟩, twoBuffers_stocked, twoBuffers_holding,
    by decide, by decide⟩

end Ath9kHtc.Pool
