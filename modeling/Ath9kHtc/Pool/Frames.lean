import Ath9kHtc.Dma.Transmit
import Ath9kHtc.Pool.Nbuf
import Mathlib.Algebra.Ring.Nat

/-!
# Merging and splitting

A frame has the descriptors of the buffers it was merged from, in their order; the fragments of a
frame have one descriptor each.
-/

namespace Ath9kHtc.Dma

theorem Requeued.trans {m m₁ m₂ : Memory} (h : Requeued m m₁) (h' : Requeued m₁ m₂) :
    Requeued m m₂ := by
  constructor
  · exact fun c => (h'.descList c).trans (h.descList c)
  · exact fun c => (h'.bufLength c).trans (h.bufLength c)
  · rw [h'.frame, h.frame]

end Ath9kHtc.Dma

namespace Ath9kHtc.Pool

open Dma

variable {m m' : Memory} {q : NbufQueue} {b c : BufId} {d : DescId} {bs free : List BufId}
  {ls : List (List BufId)} {ds : List DescId} {prev : Option DescId}

/-! ## The descriptors of a buffer -/

/-- A buffer with descriptors of its own. -/
structure Holds (m : Memory) (b : BufId) : Prop where
  ne_nil : vbufDescs m b ≠ []
  chain : Chain m.nextDesc (m.vb b).descList (vbufDescs m b)

theorem holds_of_chain (h : Chain m.nextDesc (m.vb b).descList ds) (hds : ds ≠ [])
    (hn : ds.length ≤ m.nDesc) : Holds m b ∧ vbufDescs m b = ds := by
  have heq := vbufDescs_eq h hn
  refine ⟨⟨?_, ?_⟩, heq⟩
  · rwa [heq]
  · rwa [heq]

/-- Neither the buffer nor the links between its descriptors have changed. -/
theorem Holds.congr (h : Holds m b) (hlist : (m'.vb b).descList = (m.vb b).descList)
    (hnext : ∀ d ∈ vbufDescs m b, m'.nextDesc d = m.nextDesc d) (hn : m'.nDesc = m.nDesc) :
    Holds m' b ∧ vbufDescs m' b = vbufDescs m b := by
  apply holds_of_chain
  · rw [hlist]
    exact h.chain.congr hnext
  · exact h.ne_nil
  · rw [hn]
    exact vbufDescs_length_le m b

/-! ## Queues -/

/-- The buffers of a queue. -/
structure Queues (q : NbufQueue) (bs : List BufId) : Prop where
  head : q.head = bs.head?
  tail : q.tail = bs.getLast?
  qlen : q.qlen = bs.length

theorem queues_nil : Queues {} [] := ⟨rfl, rfl, rfl⟩

theorem Queues.remove (hq : Queues q (b :: bs)) (hc : Chains m.nextBuf ((b :: bs) :: ls)) :
    ∃ q', adfNbufQueueRemove q m = some (b, q', m.modVb b fun v => { v with nextBuf := none }) ∧
      Queues q' bs ∧ Chains (m.modVb b fun v => { v with nextBuf := none }).nextBuf
        ([b] :: bs :: ls) := by
  obtain ⟨head, tail, qlen⟩ := q
  obtain ⟨rfl, rfl, rfl⟩ : head = _ ∧ tail = _ ∧ qlen = _ := ⟨hq.head, hq.tail, hq.qlen⟩
  refine ⟨_, rfl, ?_, ?_⟩
  · cases bs with
    | nil =>
      have heq : [b].head? = [b].getLast? := rfl
      rw [if_pos heq]
      exact ⟨rfl, rfl, rfl⟩
    | cons c bs =>
      have hne : ¬ (b :: c :: bs).head? = (b :: c :: bs).getLast? := by
        intro heq
        rw [List.getLast?_cons_cons] at heq
        exact hc.notMem.1 (List.mem_of_getLast? heq.symm)
      rw [if_neg hne]
      refine ⟨?_, ?_, rfl⟩
      · exact hc.head.2.1
      · exact List.getLast?_cons_cons
  · apply hc.pop
    · intro c hne
      rw [Memory.nextBuf, Memory.vb_modVb_of_ne hne, Memory.nextBuf]
    · rw [Memory.nextBuf, Memory.vb_modVb_self]

theorem Queues.remove_none (hq : Queues q []) : adfNbufQueueRemove q m = none := by
  rw [adfNbufQueueRemove, hq.head]
  rfl

theorem Queues.add (hq : Queues q bs) (hc : Chains m.nextBuf ([b] :: bs :: ls)) :
    ∃ q' m', adfNbufQueueAdd q b m = some (q', m') ∧ Queues q' (bs ++ [b]) ∧
      Chains m'.nextBuf ((bs ++ [b]) :: ls) ∧ Requeued m m' ∧
      ∀ c ∉ bs ++ [b], m'.nextBuf c = m.nextBuf c := by
  obtain ⟨head, tail, qlen⟩ := q
  obtain ⟨rfl, rfl, rfl⟩ : head = _ ∧ tail = _ ∧ qlen = _ := ⟨hq.head, hq.tail, hq.qlen⟩
  have hnone : m.nextBuf b = none := hc.head.2
  set m₁ := m.modVb b fun v => { v with nextBuf := none } with hm₁
  have hsame : m₁.nextBuf = m.nextBuf := by
    funext c
    by_cases hcb : c = b
    · rw [hcb, hnone, Memory.nextBuf, hm₁, Memory.vb_modVb_self]
    · rw [Memory.nextBuf, hm₁, Memory.vb_modVb_of_ne hcb, Memory.nextBuf]
  rcases List.eq_nil_or_concat' bs with rfl | ⟨l, a, rfl⟩
  · refine ⟨_, _, rfl, ⟨rfl, rfl, rfl⟩, ?_, requeued_modVb none, fun c _ => congrFun hsame c⟩
    rw [← hm₁, hsame]
    exact hc.perm (.swap ..) |>.tail
  · set m₂ := m₁.modVb a fun v => { v with nextBuf := some b } with hm₂
    obtain ⟨x, hx⟩ : ∃ x, (l ++ [a]).head? = some x := by
      cases l <;> exact ⟨_, rfl⟩
    have hadd : adfNbufQueueAdd ⟨(l ++ [a]).head?, (l ++ [a]).getLast?, (l ++ [a]).length⟩ b m =
        some (⟨some x, some b, (l ++ [a]).length + 1⟩, m₂) := by
      rw [adfNbufQueueAdd, hx, List.getLast?_concat]
      rfl
    have hother : ∀ c, c ≠ a → m₂.nextBuf c = m.nextBuf c := by
      intro c hca
      rw [Memory.nextBuf, hm₂, Memory.vb_modVb_of_ne hca, ← hsame, Memory.nextBuf]
    refine ⟨_, _, hadd, ⟨?_, ?_, ?_⟩, ?_, (requeued_modVb none).trans (requeued_modVb _), ?_⟩
    · rw [List.head?_append_of_ne_nil _ (by simp), hx]
    · rw [List.getLast?_concat]
    · simp
    · rw [List.append_assoc]
      apply hc.snoc hother
      rw [Memory.nextBuf, hm₂, Memory.vb_modVb_self]
    · intro c hc'
      apply hother
      rintro rfl
      simp at hc'

/-! ## Merging -/

/-- The lengths of buffers added up. -/
def totalLength (m : Memory) (bs : List BufId) : ℕ := (bs.map fun b => (m.vb b).bufLength).sum

@[simp] theorem totalLength_nil : totalLength m [] = 0 := rfl

theorem totalLength_cons :
    totalLength m (b :: bs) = (m.vb b).bufLength + totalLength m bs := List.sum_cons

theorem totalLength_congr (h : ∀ b ∈ bs, (m'.vb b).bufLength = (m.vb b).bufLength) :
    totalLength m' bs = totalLength m bs := by
  rw [totalLength, totalLength, List.map_congr_left h]

/-- The memory after the loop has gone over `bs`, behind the descriptor `prev`. -/
structure Merged (bs : List BufId) (prev : Option DescId) (m m' : Memory) : Prop where
  start : ∀ b ∈ bs.head?, Chain m'.nextDesc (m.vb b).descList (bs.flatMap (vbufDescs m))
  behind : ∀ p ∈ prev, Chain m'.nextDesc (m'.nextDesc p) (bs.flatMap (vbufDescs m))
  vd_eq : ∀ d ∉ prev.toList ++ bs.flatMap (vbufDescs m), m'.vd d = m.vd d
  data : ∀ d, (m'.vd d).data = (m.vd d).data
  vb_eq : ∀ c ∉ bs, m'.vb c = m.vb c
  frame : m' = { m with vd := m'.vd, vb := m'.vb, freeBufHead := m'.freeBufHead }

/-- The memory after one buffer was taken off the queue, linked to and freed. -/
structure Passed (b : BufId) (prev : Option DescId) (m m' : Memory) : Prop where
  link : ∀ p ∈ prev, m'.nextDesc p = (m.vb b).descList
  vd_eq : ∀ d ∉ prev, m'.vd d = m.vd d
  data : ∀ d, (m'.vd d).data = (m.vd d).data
  vb_eq : ∀ c, c ≠ b → m'.vb c = m.vb c
  frame : m' = { m with vd := m'.vd, vb := m'.vb, freeBufHead := m'.freeBufHead }

theorem Passed.next_eq (h : Passed b prev m m') (hd : ∀ p ∈ prev, p ≠ d) :
    m'.nextDesc d = m.nextDesc d := by
  rw [Memory.nextDesc, h.vd_eq d fun hp => hd d hp rfl, Memory.nextDesc]

theorem linkVdesc_vd_of_ne {descList : Option DescId} (hd : d ∉ prev) :
    (linkVdesc prev descList m).vd d = m.vd d := by
  cases prev with
  | none => rfl
  | some p =>
    apply Memory.vd_modVd_of_ne
    rintro rfl
    exact hd rfl

theorem linkVdesc_data (descList : Option DescId) (d : DescId) :
    ((linkVdesc prev descList m).vd d).data = (m.vd d).data := by
  cases prev with
  | none => rfl
  | some p => exact Memory.modVd_field Vdesc.data fun _ => rfl

theorem linkVdesc_frame (descList : Option DescId) :
    linkVdesc prev descList m = { m with vd := (linkVdesc prev descList m).vd } := by
  cases prev <;> rfl

/-- One round of the loop. -/
theorem mergeLoop_succ {n totalLen : ℕ} (hq : Queues q (b :: bs))
    (hc : Chains m.nextBuf ((b :: bs) :: free :: ls)) (hfree : m.freeBufHead = free.head?)
    (hb : Holds m b) (hprev : ∀ p ∈ prev, p ∉ vbufDescs m b) :
    ∃ q' m', mergeLoop (n + 1) q prev totalLen m =
        mergeLoop n q' (vbufDescs m b).getLast? ((totalLen + (m.vb b).bufLength) % 65536) m' ∧
      Queues q' bs ∧ Chains m'.nextBuf (bs :: (b :: free) :: ls) ∧ m'.freeBufHead = some b ∧
      Passed b prev m m' := by
  obtain ⟨q', hremove, hq', hc₁⟩ := hq.remove hc
  set m₁ := m.modVb b fun v => { v with nextBuf := none } with hm₁
  have hlist : (m₁.vb b).descList = (m.vb b).descList := by
    rw [hm₁, Memory.vb_modVb_self]
  have hlength : (m₁.vb b).bufLength = (m.vb b).bufLength := by
    rw [hm₁, Memory.vb_modVb_self]
  set m₂ := linkVdesc prev (m₁.vb b).descList m₁ with hm₂
  have hvd₂ : ∀ d ∉ prev, m₂.vd d = m.vd d := fun d hd => linkVdesc_vd_of_ne hd
  have hframe₂ : m₂ = { m₁ with vd := m₂.vd } := linkVdesc_frame _
  have hwalk : walkUpTo m₂.nextDesc (fun _ => false) m₂.nDesc (m₁.vb b).descList =
      some (vbufDescs m b) := by
    have hchain : Chain m₂.nextDesc (m₁.vb b).descList (vbufDescs m b) := by
      rw [hlist]
      apply hb.chain.congr
      intro d hd
      rw [Memory.nextDesc, hvd₂ d fun hp => hprev d hp hd, Memory.nextDesc]
    apply hchain.walkUpTo_eq
    rw [hframe₂]
    exact vbufDescs_length_le m b
  obtain ⟨last, hlast⟩ : ∃ last, (vbufDescs m b).getLast? = some last :=
    ⟨_, List.getLast?_eq_some_getLast hb.ne_nil⟩
  set m₃ := vbufFreeVbuf b (m₂.modVb b fun v => { v with descList := none, bufLength := 0 })
    with hm₃
  have hfree₂ : m₂.freeBufHead = free.head? := by
    rw [hframe₂]
    exact hfree
  have hother : ∀ c, c ≠ b → m₃.vb c = m.vb c := by
    intro c hc
    rw [hm₃, vbufFreeVbuf]
    dsimp only
    rw [Memory.vb_modVb_of_ne hc, Memory.vb_modVb_of_ne hc, hframe₂, hm₁, Memory.vb_modVb_of_ne hc]
  refine ⟨q', m₃, ?_, hq', ?_, rfl, ⟨?_, hvd₂, linkVdesc_data _, hother, ?_⟩⟩
  · rw [mergeLoop, hremove]
    dsimp only
    rw [← hm₂, hwalk, hlength]
    simp only [Option.bind_eq_bind, Option.bind_some, hlast]
    rfl
  · have hc₂ : Chains m₁.nextBuf ([b] :: free :: bs :: ls) := hc₁.perm ((List.Perm.swap ..).cons _)
    have hpushed : Chains m₃.nextBuf ((b :: free) :: bs :: ls) := by
      apply hc₂.push
      · intro c hcb
        rw [Memory.nextBuf, hother c hcb, Memory.nextBuf, hm₁, Memory.vb_modVb_of_ne hcb]
      · rw [Memory.nextBuf, hm₃, vbufFreeVbuf]
        dsimp only
        rw [Memory.vb_modVb_self]
        exact hfree₂
    exact hpushed.perm (.swap ..)
  · rintro p rfl
    rw [← hlist]
    exact congrArg Vdesc.nextDesc Memory.vd_modVd_self
  · rw [hm₃, vbufFreeVbuf, hframe₂]
    rfl

/-- The loop over all buffers of a queue. -/
theorem mergeLoop_merged {totalLen : ℕ} (hq : Queues q bs)
    (hc : Chains m.nextBuf (bs :: free :: ls)) (hfree : m.freeBufHead = free.head?)
    (hb : ∀ b ∈ bs, Holds m b) (hd : (bs.flatMap (vbufDescs m)).Nodup)
    (hprev : ∀ p ∈ prev, p ∉ bs.flatMap (vbufDescs m) ∧ m.nextDesc p = none)
    (htotal : totalLen < 65536) :
    ∃ q' m', mergeLoop bs.length q prev totalLen m =
        some ((totalLen + totalLength m bs) % 65536, q', m') ∧ Queues q' [] ∧
      Chains m'.nextBuf ((bs.reverse ++ free) :: ls) ∧
      m'.freeBufHead = (bs.reverse ++ free).head? ∧ Merged bs prev m m' := by
  induction bs generalizing q prev totalLen m free with
  | nil =>
    refine ⟨q, m, ?_, hq, hc.tail, hfree, ⟨?_, ?_, fun _ _ => rfl, fun _ => rfl,
      fun _ _ => rfl, rfl⟩⟩
    · rw [List.length_nil, mergeLoop, hq.remove_none, totalLength_nil, Nat.add_zero,
        Nat.mod_eq_of_lt htotal]
    · rintro b ⟨⟩
    · intro p hp
      exact (hprev p hp).2
  | cons b bs ih =>
    rw [List.flatMap_cons] at hd
    obtain ⟨hdb, hdbs, hapart⟩ := List.nodup_append.mp hd
    have hbHolds := hb b List.mem_cons_self
    have hapart₁ : ∀ p ∈ prev, p ∉ vbufDescs m b := fun p hp hin =>
      (hprev p hp).1 (List.mem_append_left _ hin)
    obtain ⟨q₁, m₁, hround : mergeLoop (bs.length + 1) q prev totalLen m = _, hq₁, hc₁,
      hfree₁, hpass⟩ := mergeLoop_succ hq hc hfree hbHolds hapart₁
    have hsame : ∀ c ∈ bs, Holds m₁ c ∧ vbufDescs m₁ c = vbufDescs m c := by
      intro c hcbs
      have hne : c ≠ b := fun h => hc.notMem.1 (h ▸ hcbs)
      apply (hb c (List.mem_cons_of_mem _ hcbs)).congr
      · rw [hpass.vb_eq c hne]
      · intro d hdc
        apply hpass.next_eq
        rintro p hp rfl
        exact (hprev p hp).1 (List.mem_append_right _ (List.mem_flatMap.mpr ⟨c, hcbs, hdc⟩))
      · rw [hpass.frame]
    have hdescs : bs.flatMap (vbufDescs m₁) = bs.flatMap (vbufDescs m) :=
      List.flatMap_congr fun c hcbs => (hsame c hcbs).2
    obtain ⟨init, last, hinit⟩ : ∃ init last, vbufDescs m b = init ++ [last] :=
      (List.eq_nil_or_concat' _).resolve_left hbHolds.ne_nil
    have hlast : (vbufDescs m b).getLast? = some last := by
      rw [hinit, List.getLast?_concat]
    have hlastmem : last ∈ vbufDescs m b := by simp [hinit]
    have hkept : ∀ d ∈ vbufDescs m b, m₁.nextDesc d = m.nextDesc d := by
      intro d hdb
      apply hpass.next_eq
      rintro p hp rfl
      exact (hprev p hp).1 (List.mem_append_left _ hdb)
    have hend : m.nextDesc last = none := by
      have hchain := hbHolds.chain
      rw [hinit] at hchain
      exact hchain.next_eq
    have hlinked : ∀ p ∈ some last, p ∉ bs.flatMap (vbufDescs m₁) ∧ m₁.nextDesc p = none := by
      rintro p ⟨rfl⟩
      rw [hdescs, hkept last hlastmem]
      exact ⟨fun hin => hapart last hlastmem last hin rfl, hend⟩
    have hsum : totalLength m₁ bs = totalLength m bs :=
      totalLength_congr fun c hcbs => by rw [hpass.vb_eq c fun h => hc.notMem.1 (h ▸ hcbs)]
    obtain ⟨q', m', hloop : mergeLoop _ q₁ (some last) _ m₁ = _, hq', hc', hfree', hmerged⟩ :=
      ih hq₁ hc₁ hfree₁ (fun c hcbs => (hsame c hcbs).1) (by rwa [hdescs]) hlinked
        (Nat.mod_lt (totalLen + (m.vb b).bufLength) (by decide))
    have hstart : Chain m'.nextDesc (m.vb b).descList (vbufDescs m b ++ bs.flatMap (vbufDescs m)) := by
      have hchain := hbHolds.chain.congr hkept
      rw [hinit] at hchain hdb hapart ⊢
      rw [List.append_assoc]
      apply hchain.splice rfl
      · intro d hdi
        have hne : d ≠ last := fun h => (List.nodup_append.mp hdb).2.2 d hdi last (by simp) h
        rw [Memory.nextDesc, hmerged.vd_eq, Memory.nextDesc]
        rw [Option.toList_some, List.singleton_append, hdescs]
        intro hin
        rcases List.mem_cons.mp hin with heq | hrest
        · exact hne heq
        · exact hapart d (List.mem_append_left _ hdi) d hrest rfl
      · rw [← hdescs]
        exact hmerged.behind last rfl
    have hout : ∀ d ∉ vbufDescs m b ++ bs.flatMap (vbufDescs m), m'.vd d = m₁.vd d := by
      intro d hd
      apply hmerged.vd_eq
      rw [Option.toList_some, List.singleton_append, hdescs]
      intro hin
      apply hd
      rcases List.mem_cons.mp hin with rfl | hrest
      · exact List.mem_append_left _ hlastmem
      · exact List.mem_append_right _ hrest
    refine ⟨q', m', ?_, hq', ?_, ?_, ⟨?_, ?_, ?_, ?_, ?_, ?_⟩⟩
    · rw [List.length_cons, hround, hlast, hloop, hsum, totalLength_cons, Nat.mod_add_mod,
        Nat.add_assoc]
    · rw [List.reverse_cons, List.append_assoc]
      exact hc'
    · rw [List.reverse_cons, List.append_assoc]
      exact hfree'
    · rintro c ⟨rfl⟩
      exact hstart
    · intro p hp
      have hlink : m'.nextDesc p = (m.vb b).descList := by
        rw [Memory.nextDesc, hout p (hprev p hp).1]
        exact hpass.link p hp
      rw [hlink]
      exact hstart
    · intro d hd
      rw [List.mem_append, not_or] at hd
      rw [hout d hd.2]
      apply hpass.vd_eq
      intro hp
      apply hd.1
      rw [Option.mem_toList]
      exact hp
    · exact fun d => (hmerged.data d).trans (hpass.data d)
    · intro c hc
      rw [List.mem_cons, not_or] at hc
      rw [hmerged.vb_eq c hc.2, hpass.vb_eq c hc.1]
    · rw [hmerged.frame, hpass.frame]

/-! ## Allocating a buffer -/

/-- A buffer was taken from the free list. -/
structure Allotted (b : BufId) (m m' : Memory) : Prop where
  vb_eq : ∀ c, c ≠ b → m'.vb c = m.vb c
  frame : m' = { m with vb := m'.vb, freeBufHead := m'.freeBufHead }

theorem vbufAllocVbuf_allotted (hc : Chains m.nextBuf ((b :: free) :: ls))
    (hfree : m.freeBufHead = some b) :
    ∃ m', vbufAllocVbuf m = some (b, m') ∧ Chains m'.nextBuf ([b] :: free :: ls) ∧
      m'.freeBufHead = free.head? ∧ Allotted b m m' := by
  set m' := { m with freeBufHead := m.nextBuf b }.modVb b fun v => { v with nextBuf := none }
    with hm'
  have hother : ∀ c, c ≠ b → m'.vb c = m.vb c := fun c hcb => Memory.vb_modVb_of_ne hcb
  refine ⟨m', ?_, ?_, ?_, hother, rfl⟩
  · rw [vbufAllocVbuf, hfree]
    rfl
  · apply hc.pop
    · intro c hcb
      rw [Memory.nextBuf, hother c hcb, Memory.nextBuf]
    · rw [Memory.nextBuf, hm', Memory.vb_modVb_self]
  · exact hc.head.2.head?_eq.symm

/-- The memory after the buffers `bs` became the frame `b`. -/
structure Framed (bs : List BufId) (b : BufId) (m m' : Memory) : Prop where
  chain : Chain m'.nextDesc (m'.vb b).descList (bs.flatMap (vbufDescs m))
  bufLength : (m'.vb b).bufLength = totalLength m bs % 65536
  vd_eq : ∀ d ∉ bs.flatMap (vbufDescs m), m'.vd d = m.vd d
  data : ∀ d, (m'.vd d).data = (m.vd d).data
  vb_eq : ∀ c ∉ b :: bs, m'.vb c = m.vb c
  frame : m' = { m with vd := m'.vd, vb := m'.vb, freeBufHead := m'.freeBufHead }

/-- The buffers of a queue become one frame and are free. -/
theorem adfNbufCreateFrmFrag_framed {first : BufId} (hq : Queues q (first :: bs))
    (hc : Chains m.nextBuf ((first :: bs) :: (b :: free) :: ls)) (hfree : m.freeBufHead = some b)
    (hb : ∀ c ∈ first :: bs, Holds m c) (hd : ((first :: bs).flatMap (vbufDescs m)).Nodup) :
    ∃ q' m', adfNbufCreateFrmFrag q m = some (b, q', m') ∧ Queues q' [] ∧
      Chains m'.nextBuf ([b] :: ((first :: bs).reverse ++ free) :: ls) ∧
      m'.freeBufHead = ((first :: bs).reverse ++ free).head? ∧ Framed (first :: bs) b m m' := by
  have hbnot : b ∉ first :: bs := by
    intro hmem
    exact (List.nodup_append.mp hc.distinct).2.2 b hmem b List.mem_cons_self rfl
  obtain ⟨m₁, halloc, hc₁, hfree₁, hallot⟩ := vbufAllocVbuf_allotted (hc.perm (.swap ..)) hfree
  set m₂ := m₁.modVb b fun v => { v with descList := (m₁.vb first).descList } with hm₂
  have hvb₂ : ∀ c, c ≠ b → m₂.vb c = m.vb c := by
    intro c hcb
    rw [hm₂, Memory.vb_modVb_of_ne hcb, hallot.vb_eq c hcb]
  have hne : ∀ c ∈ first :: bs, c ≠ b := fun c hcbs => ne_of_mem_of_not_mem hcbs hbnot
  have hnext₂ : m₂.nextBuf = m₁.nextBuf :=
    funext fun c => Memory.modVb_field Vbuf.nextBuf fun _ => rfl
  have hvd₂ : m₂.vd = m.vd := by
    rw [hm₂, hallot.frame]
    rfl
  have hsame : ∀ c ∈ first :: bs, Holds m₂ c ∧ vbufDescs m₂ c = vbufDescs m c := by
    intro c hcbs
    apply (hb c hcbs).congr
    · rw [hvb₂ c (hne c hcbs)]
    · intro d _
      rw [Memory.nextDesc, hvd₂, Memory.nextDesc]
    · rw [hm₂, hallot.frame]
      rfl
  have hdescs : (first :: bs).flatMap (vbufDescs m₂) = (first :: bs).flatMap (vbufDescs m) :=
    List.flatMap_congr fun c hcbs => (hsame c hcbs).2
  have hc₂ : Chains m₂.nextBuf ((first :: bs) :: free :: [b] :: ls) := by
    rw [hnext₂]
    apply hc₁.perm
    exact ((List.Perm.swap ..).cons _).trans ((List.Perm.swap ..).trans ((List.Perm.swap ..).cons _))
  have hnone : ∀ p ∈ (none : Option DescId),
      p ∉ (first :: bs).flatMap (vbufDescs m₂) ∧ m₂.nextDesc p = none := by
    rintro p ⟨⟩
  have hsum : totalLength m₂ (first :: bs) = totalLength m (first :: bs) :=
    totalLength_congr fun c hcbs => by rw [hvb₂ c (hne c hcbs)]
  obtain ⟨q', m', hloop : mergeLoop _ q none 0 m₂ = _, hq', hc', hfree', hmerged⟩ :=
    mergeLoop_merged hq hc₂ (by rw [hm₂]; exact hfree₁) (fun c hcbs => (hsame c hcbs).1)
      (by rwa [hdescs]) hnone (Nat.zero_lt_succ 65535)
  rw [Nat.zero_add, hsum] at hloop
  set total := totalLength m (first :: bs) % 65536
  have hstart := hmerged.start first rfl
  rw [hdescs] at hstart
  have hcreate : adfNbufCreateFrmFrag q m =
      some (b, q', m'.modVb b fun v => { v with bufLength := total }) := by
    rw [adfNbufCreateFrmFrag, halloc]
    simp only [Option.bind_eq_bind, Option.bind_some, hq.head, List.head?_cons, hq.qlen, ← hm₂, hloop]
  refine ⟨_, _, hcreate, hq', ?_, hfree', ⟨?_, ?_, ?_, ?_, ?_, ?_⟩⟩
  · have hnext : (m'.modVb b fun v => { v with bufLength := total }).nextBuf = m'.nextBuf :=
      funext fun c => Memory.modVb_field Vbuf.nextBuf fun _ => rfl
    rw [hnext]
    exact hc'.perm (.swap ..)
  · have hlist : ((m'.modVb b fun v => { v with bufLength := total }).vb b).descList =
        (m₂.vb first).descList := by
      rw [Memory.vb_modVb_self, hmerged.vb_eq b hbnot, hm₂, Memory.vb_modVb_self,
        Memory.vb_modVb_of_ne (hne first List.mem_cons_self)]
    rw [hlist]
    exact hstart
  · rw [Memory.vb_modVb_self]
  · intro d hd
    have hkept : m'.vd d = m₂.vd d := by
      apply hmerged.vd_eq
      rwa [Option.toList_none, List.nil_append, hdescs]
    rw [Memory.vd_modVb, hkept, hvd₂]
  · intro d
    rw [Memory.vd_modVb, hmerged.data, hvd₂]
  · intro c hc
    rw [List.mem_cons, not_or] at hc
    rw [Memory.vb_modVb_of_ne hc.1, hmerged.vb_eq c hc.2, hvb₂ c hc.1]
  · rw [hmerged.frame, hm₂, hallot.frame]
    rfl

/-! ## Splitting -/

/-- The memory after the descriptor `d` got the buffer `b`, queued behind `bs`. -/
structure Boxed (bs : List BufId) (b : BufId) (d : DescId) (m m' : Memory) : Prop where
  given : (m'.vb b).descList = some d ∧ (m'.vb b).bufLength = (m.vd d).dataSize
  ended : m'.nextDesc d = none
  vd_eq : ∀ e, e ≠ d → m'.vd e = m.vd e
  data : ∀ e, (m'.vd e).data = (m.vd e).data
  descList : ∀ c, c ≠ b → (m'.vb c).descList = (m.vb c).descList
  bufLength : ∀ c, c ≠ b → (m'.vb c).bufLength = (m.vb c).bufLength
  nextBuf : ∀ c ∉ bs ++ [b], m'.nextBuf c = m.nextBuf c
  frame : m' = { m with vd := m'.vd, vb := m'.vb, freeBufHead := m'.freeBufHead }

/-- The memory after each of the descriptors `ds` got a buffer of its own. -/
structure Split (new : List BufId) (ds : List DescId) (m m' : Memory) : Prop where
  given : List.Forall₂ (fun b d => (m'.vb b).descList = some d ∧
    (m'.vb b).bufLength = (m.vd d).dataSize) new ds
  ended : ∀ d ∈ ds, m'.nextDesc d = none
  vd_eq : ∀ d ∉ ds, m'.vd d = m.vd d
  data : ∀ d, (m'.vd d).data = (m.vd d).data
  descList : ∀ c ∉ new, (m'.vb c).descList = (m.vb c).descList
  bufLength : ∀ c ∉ new, (m'.vb c).bufLength = (m.vb c).bufLength
  frame : m' = { m with vd := m'.vd, vb := m'.vb, freeBufHead := m'.freeBufHead }

/-- One round of the loop. -/
theorem splitLoop_succ {n : ℕ} (hq : Queues q bs)
    (hc : Chains m.nextBuf (bs :: (b :: free) :: ls)) (hfree : m.freeBufHead = some b) :
    ∃ q' m', splitLoop (n + 1) (some d) q m = splitLoop n (m.nextDesc d) q' m' ∧
      Queues q' (bs ++ [b]) ∧ Chains m'.nextBuf ((bs ++ [b]) :: free :: ls) ∧
      m'.freeBufHead = free.head? ∧ Boxed bs b d m m' := by
  obtain ⟨m₁, halloc, hc₁, hfree₁, hallot⟩ := vbufAllocVbuf_allotted (hc.perm (.swap ..)) hfree
  set m₂ := m₁.modVb b fun _ => ⟨some d, none, (m₁.vd d).dataSize⟩ with hm₂
  have hnext₂ : m₂.nextBuf = m₁.nextBuf := by
    funext c
    by_cases hcb : c = b
    · rw [hcb, Memory.nextBuf, hm₂, Memory.vb_modVb_self]
      exact hc₁.head.2.symm
    · rw [Memory.nextBuf, hm₂, Memory.vb_modVb_of_ne hcb, Memory.nextBuf]
  have hc₂ : Chains m₂.nextBuf ([b] :: bs :: free :: ls) := by
    rw [hnext₂]
    exact hc₁.perm ((List.Perm.swap ..).cons _)
  obtain ⟨q', m₃, hadd, hq', hc₃, hreq, hother⟩ := hq.add hc₂
  have hm₃ : m₃ = { m₂ with vb := m₃.vb } := hreq.frame
  have hvd₁ : m₁.vd = m.vd := by
    rw [hallot.frame]
  have hvd₃ : m₃.vd = m.vd := by
    rw [hm₃, hm₂]
    exact hvd₁
  have hlink : m₃.nextDesc d = m.nextDesc d := by
    rw [Memory.nextDesc, hvd₃, Memory.nextDesc]
  refine ⟨q', m₃.modVd d (Vdesc.setNext none), ?_, hq', hc₃, ?_,
    ⟨⟨?_, ?_⟩, ?_, ?_, ?_, ?_, ?_, ?_, ?_⟩⟩
  · rw [splitLoop, halloc]
    simp only [Option.bind_eq_bind, Option.bind_some, ← hm₂, hadd, hlink]
  · rw [hm₃]
    exact hfree₁
  · have hlist : (m₃.vb b).descList = (m₂.vb b).descList := hreq.descList b
    rw [Memory.vb_modVd, hlist, hm₂, Memory.vb_modVb_self]
  · have hlength : (m₃.vb b).bufLength = (m₂.vb b).bufLength := hreq.bufLength b
    rw [Memory.vb_modVd, hlength, hm₂, Memory.vb_modVb_self, hvd₁]
  · rw [Memory.nextDesc, Memory.vd_modVd_self]
    rfl
  · intro e he
    rw [Memory.vd_modVd_of_ne he, hvd₃]
  · intro e
    have hkept : ((m₃.modVd d (Vdesc.setNext none)).vd e).data = (m₃.vd e).data :=
      Memory.modVd_field Vdesc.data fun _ => rfl
    rw [hkept, hvd₃]
  · intro c hcb
    have hlist : (m₃.vb c).descList = (m₂.vb c).descList := hreq.descList c
    rw [Memory.vb_modVd, hlist, hm₂, Memory.vb_modVb_of_ne hcb, hallot.vb_eq c hcb]
  · intro c hcb
    have hlength : (m₃.vb c).bufLength = (m₂.vb c).bufLength := hreq.bufLength c
    rw [Memory.vb_modVd, hlength, hm₂, Memory.vb_modVb_of_ne hcb, hallot.vb_eq c hcb]
  · intro c hc
    have hcb : c ≠ b := by
      rintro rfl
      simp at hc
    have hkept : m₃.nextBuf c = m₂.nextBuf c := hother c hc
    rw [Memory.nextBuf, Memory.vb_modVd, ← Memory.nextBuf, hkept, hnext₂, Memory.nextBuf,
      hallot.vb_eq c hcb, Memory.nextBuf]
  · rw [hm₃, hm₂, hallot.frame]
    rfl

theorem splitLoop_empty {n : ℕ} (hfree : m.freeBufHead = none) :
    splitLoop n (some d) q m = none := by
  cases n with
  | zero => rfl
  | succ n =>
    rw [splitLoop, vbufAllocVbuf, hfree]
    rfl

/-- After one round the chain of the other descriptors is as it was. -/
theorem Boxed.chain (h : Boxed bs b d m m') (htail : Chain m.nextDesc (m.nextDesc d) ds)
    (hd : d ∉ ds) : Chain m'.nextDesc (m.nextDesc d) ds := by
  apply htail.congr
  intro e he
  rw [Memory.nextDesc, h.vd_eq e (ne_of_mem_of_not_mem he hd), Memory.nextDesc]

/-- The loop gives each descriptor a buffer while there are buffers for them. -/
theorem splitLoop_split {n : ℕ} {p : Option DescId} (hchain : Chain m.nextDesc p ds)
    (hd : ds.Nodup) (hn : ds.length ≤ n) (hq : Queues q bs)
    (hc : Chains m.nextBuf (bs :: free :: ls)) (hfree : m.freeBufHead = free.head?)
    (hlen : ds.length ≤ free.length) :
    ∃ new free' q' m', free = new ++ free' ∧ splitLoop n p q m = some (q', m') ∧
      Queues q' (bs ++ new) ∧ Chains m'.nextBuf ((bs ++ new) :: free' :: ls) ∧
      m'.freeBufHead = free'.head? ∧ Split new ds m m' ∧
      ∀ c ∉ bs ++ new, m'.nextBuf c = m.nextBuf c := by
  induction ds generalizing p n q m bs free with
  | nil =>
    obtain rfl : p = none := hchain
    have hrun : splitLoop n none q m = some (q, m) := by
      cases n <;> rfl
    refine ⟨[], free, q, m, rfl, hrun, ?_, ?_, hfree, ?_, fun _ _ => rfl⟩
    · rwa [List.append_nil]
    · rwa [List.append_nil]
    · refine ⟨.nil, ?_, fun _ _ => rfl, fun _ => rfl, fun _ _ => rfl, fun _ _ => rfl, rfl⟩
      intro d hd
      cases hd
  | cons d ds ih =>
    obtain ⟨rfl, htail⟩ := hchain
    obtain ⟨hdnot, hds⟩ := List.nodup_cons.mp hd
    cases free with
    | nil => exact absurd hlen (Nat.not_succ_le_zero _)
    | cons b free =>
      cases n with
      | zero => exact absurd hn (Nat.not_succ_le_zero _)
      | succ n =>
        obtain ⟨q₁, m₁, hround : splitLoop (n + 1) (some d) q m = _, hq₁, hc₁, hfree₁, hbox⟩ :=
          splitLoop_succ hq hc hfree
        obtain ⟨new, free', q', m', rfl, hrun, hq', hc', hfree', hsplit, hnext'⟩ :=
          ih (hbox.chain htail hdnot) hds (Nat.le_of_succ_le_succ hn) hq₁ hc₁ hfree₁
            (Nat.le_of_succ_le_succ hlen)
        have happ : bs ++ [b] ++ new = bs ++ b :: new := by simp
        rw [happ] at hq' hc' hnext'
        have hbnew : b ∉ new := by
          have hdis := hc'.distinct
          rw [List.flatten_cons] at hdis
          have hparts := (List.nodup_append.mp (List.nodup_append.mp hdis).1).2.1
          exact (List.nodup_cons.mp hparts).1
        refine ⟨b :: new, free', q', m', rfl, hround.trans hrun, hq', hc', hfree',
          ⟨?_, ?_, ?_, ?_, ?_, ?_, ?_⟩, ?_⟩
        · apply List.Forall₂.cons
          · rw [hsplit.descList b hbnew, hsplit.bufLength b hbnew]
            exact hbox.given
          · apply hsplit.given.imp_of_mem
            rintro c - e he ⟨hlist, hlength⟩
            rw [hbox.vd_eq e (ne_of_mem_of_not_mem he hdnot)] at hlength
            exact ⟨hlist, hlength⟩
        · intro e he
          by_cases heds : e ∈ ds
          · exact hsplit.ended e heds
          · obtain rfl : e = d := (List.mem_cons.mp he).resolve_right heds
            rw [Memory.nextDesc, hsplit.vd_eq e heds, ← Memory.nextDesc, hbox.ended]
        · intro e he
          rw [List.mem_cons, not_or] at he
          rw [hsplit.vd_eq e he.2, hbox.vd_eq e he.1]
        · exact fun e => (hsplit.data e).trans (hbox.data e)
        · intro c hcnot
          rw [List.mem_cons, not_or] at hcnot
          rw [hsplit.descList c hcnot.2, hbox.descList c hcnot.1]
        · intro c hcnot
          rw [List.mem_cons, not_or] at hcnot
          rw [hsplit.bufLength c hcnot.2, hbox.bufLength c hcnot.1]
        · rw [hsplit.frame, hbox.frame]
        · intro c hcnot
          rw [hnext' c hcnot]
          apply hbox.nextBuf
          intro hmem
          apply hcnot
          rcases List.mem_append.mp hmem with hbs | hcb
          · exact List.mem_append_left _ hbs
          · rw [List.mem_singleton.mp hcb]
            simp

/-- With fewer buffers than descriptors the pool runs out. -/
theorem splitLoop_none {n : ℕ} {p : Option DescId} (hchain : Chain m.nextDesc p ds)
    (hd : ds.Nodup) (hq : Queues q bs) (hc : Chains m.nextBuf (bs :: free :: ls))
    (hfree : m.freeBufHead = free.head?) (hlen : free.length < ds.length) :
    splitLoop n p q m = none := by
  induction ds generalizing p n q m bs free with
  | nil => exact absurd hlen (Nat.not_lt_zero _)
  | cons d ds ih =>
    obtain ⟨rfl, htail⟩ := hchain
    obtain ⟨hdnot, hds⟩ := List.nodup_cons.mp hd
    cases free with
    | nil => exact splitLoop_empty hfree
    | cons b free =>
      cases n with
      | zero => rfl
      | succ n =>
        obtain ⟨q₁, m₁, hround : splitLoop (n + 1) (some d) q m = _, hq₁, hc₁, hfree₁, hbox⟩ :=
          splitLoop_succ hq hc hfree
        rw [hround]
        exact ih (hbox.chain htail hdnot) hds hq₁ hc₁ hfree₁ (Nat.lt_of_succ_lt_succ hlen)

/-- The memory after the frame `b` became the fragments `new`. -/
structure Fragmented (b : BufId) (new : List BufId) (m m' : Memory) : Prop where
  given : List.Forall₂ (fun c d => Holds m' c ∧ vbufDescs m' c = [d] ∧
    (m'.vb c).bufLength = (m.vd d).dataSize) new (vbufDescs m b)
  vd_eq : ∀ d ∉ vbufDescs m b, m'.vd d = m.vd d
  data : ∀ d, (m'.vd d).data = (m.vd d).data
  descList : ∀ c ∉ b :: new, (m'.vb c).descList = (m.vb c).descList
  nextBuf : ∀ c ∉ b :: new, m'.nextBuf c = m.nextBuf c
  frame : m' = { m with vd := m'.vd, vb := m'.vb, freeBufHead := m'.freeBufHead }

/-- A frame becomes its fragments, and its own buffer is free. -/
theorem adfNbufSplitToFrag_fragmented (hb : Holds m b) (hd : (vbufDescs m b).Nodup)
    (hc : Chains m.nextBuf ([b] :: free :: ls)) (hfree : m.freeBufHead = free.head?)
    (hlen : (vbufDescs m b).length ≤ free.length) :
    ∃ new free' q m', free = new ++ free' ∧ adfNbufSplitToFrag b m = some (q, m') ∧
      Queues q new ∧ Chains m'.nextBuf (new :: (b :: free') :: ls) ∧ m'.freeBufHead = some b ∧
      Fragmented b new m m' := by
  have hc₀ : Chains m.nextBuf ([] :: free :: [b] :: ls) := (hc.perm (.swap ..)).cons_nil
  obtain ⟨new, free', q, m₁, rfl, hloop, hq, hc₁, hfree₁, hsplit, hnext⟩ :=
    splitLoop_split hb.chain hd (vbufDescs_length_le m b) queues_nil hc₀ hfree hlen
  rw [List.nil_append] at hq hc₁ hnext
  have hbnew : b ∉ new := by
    intro hmem
    have hdis := hc₁.distinct
    rw [List.flatten_cons] at hdis
    exact (List.nodup_append.mp hdis).2.2 b hmem b (by simp) rfl
  set m₂ := vbufFreeVbuf b (m₁.modVb b fun v => { v with descList := none, bufLength := 0 }) with hm₂
  have hother : ∀ c, c ≠ b → m₂.vb c = m₁.vb c := by
    intro c hcb
    rw [hm₂, vbufFreeVbuf]
    dsimp only
    rw [Memory.vb_modVb_of_ne hcb, Memory.vb_modVb_of_ne hcb]
  have hframe : m₁ = { m with vd := m₁.vd, vb := m₁.vb, freeBufHead := m₁.freeBufHead } :=
    hsplit.frame
  have hframe₂ : m₂ = { m₁ with vb := m₂.vb, freeBufHead := m₂.freeBufHead } := rfl
  have hlen : m₂.nDesc = m.nDesc := by
    rw [hframe₂, hframe]
  have hne : ∀ c ∈ new, c ≠ b := fun c hc => ne_of_mem_of_not_mem hc hbnew
  have hsingle : ∀ c ∈ new, ∀ d ∈ vbufDescs m b, (m₁.vb c).descList = some d →
      Holds m₂ c ∧ vbufDescs m₂ c = [d] := by
    intro c hcnew d hdb hlist
    apply holds_of_chain
    · rw [hother c (hne c hcnew), hlist]
      exact ⟨rfl, hsplit.ended d hdb⟩
    · exact List.cons_ne_nil d []
    · rw [hlen]
      have hpos : 0 < (vbufDescs m b).length := List.length_pos_of_mem hdb
      exact Nat.le_trans hpos (vbufDescs_length_le m b)
  have hrun : adfNbufSplitToFrag b m = some (q, m₂) := by
    rw [adfNbufSplitToFrag, hloop]
    rfl
  refine ⟨new, free', q, m₂, rfl, hrun, hq, ?_, rfl, ⟨?_, ?_, ?_, ?_, ?_, ?_⟩⟩
  · have hperm : Chains m₁.nextBuf ([b] :: free' :: new :: ls) := by
      apply hc₁.perm
      exact ((List.Perm.swap ..).cons _).trans ((List.Perm.swap ..).trans ((List.Perm.swap ..).cons _))
    have hpush : Chains m₂.nextBuf ((b :: free') :: new :: ls) := by
      apply hperm.push
      · intro c hcb
        rw [Memory.nextBuf, hother c hcb, Memory.nextBuf]
      · rw [Memory.nextBuf, hm₂, vbufFreeVbuf]
        dsimp only
        rw [Memory.vb_modVb_self]
        exact hfree₁
    exact hpush.perm (.swap ..)
  · apply hsplit.given.imp_of_mem
    rintro c hc d hd ⟨hlist, hlength⟩
    obtain ⟨hholds, hdescs⟩ := hsingle c hc d hd hlist
    refine ⟨hholds, hdescs, ?_⟩
    rw [hother c (hne c hc), hlength]
  · exact hsplit.vd_eq
  · exact hsplit.data
  · intro c hc
    rw [List.mem_cons, not_or] at hc
    rw [hother c hc.1, hsplit.descList c hc.2]
  · intro c hc
    rw [List.mem_cons, not_or] at hc
    rw [Memory.nextBuf, hother c hc.1, ← hnext c hc.2, Memory.nextBuf]
  · apply hframe₂.trans
    rw [hframe]
    rfl

/-- Without a buffer for each descriptor the assertion fails. -/
theorem adfNbufSplitToFrag_none (hb : Holds m b) (hd : (vbufDescs m b).Nodup)
    (hc : Chains m.nextBuf ([b] :: free :: ls)) (hfree : m.freeBufHead = free.head?)
    (hlen : free.length < (vbufDescs m b).length) : adfNbufSplitToFrag b m = none := by
  have hc₀ : Chains m.nextBuf ([] :: free :: [b] :: ls) := (hc.perm (.swap ..)).cons_nil
  have hloop : splitLoop m.nDesc (m.vb b).descList {} m = none :=
    splitLoop_none hb.chain hd queues_nil hc₀ hfree hlen
  rw [adfNbufSplitToFrag, hloop]
  rfl

end Ath9kHtc.Pool
