import Ath9kHtc.Dma.Client
import Ath9kHtc.Pool.Fragments
import Ath9kHtc.Pool.Static

/-!
# The owners of the descriptors

Every buffer in a pool or in use has descriptors of its own, whose storage is that of one pool: the
buffers the firmware holds, and those on their way through the transmit ring.
-/

namespace Ath9kHtc.Pool

open Dma

variable {cfg : Config} {origin origin' : BufId → PoolId} {m m' : Memory} {q : TxQueue} {t : DescId}
  {held held' old new rest : List BufId} {done pending : List Flight} {b c : BufId} {p : PoolId}

/-- The storage of the buffer is that of a pool. -/
def Stored (cfg : Config) (m : Memory) (p : PoolId) (b : BufId) : Prop :=
  ∀ d ∈ vbufDescs m b, (m.vd d).bufAddr ∈ cfg.storage p

theorem stored_iff :
    Stored cfg m p b ↔ ∀ g ∈ (content m b).segments, g.bufAddr ∈ cfg.storage p := by
  constructor
  · intro h g hg
    obtain ⟨d, hd, rfl⟩ := List.mem_map.mp hg
    exact h d hd
  · intro h d hd
    exact h _ (List.mem_map_of_mem hd)

theorem Stored.congr (h : Stored cfg m p b) (hcontent : content m' b = content m b) :
    Stored cfg m' p b := by
  rw [stored_iff] at h ⊢
  rwa [hcontent]

/-- The buffers in transmission. -/
def flightBufs (fs : List Flight) : List BufId := fs.map fun f => f.sent.buf

/-- The firmware holds the buffers `held`, the others are in transmission, and `origin` says whose
storage they have. -/
structure Owned (cfg : Config) (origin : BufId → PoolId) (m : Memory) (q : TxQueue) (t : DescId)
    (held : List BufId) (done pending : List Flight) : Prop where
  carries : ∃ places pairs, Carries places pairs m q t held done pending
  pointing : Pointing m q.terminator (done ++ pending)
  stored : ∀ b ∈ held, Stored cfg m (origin b) b
  carried : ∀ f ∈ done ++ pending, ∀ g ∈ f.sent.segments, g.bufAddr ∈ cfg.storage (origin f.sent.buf)

/-- Nothing is in transmission yet. -/
theorem owned_idle (hhead : q.head = q.terminator) (hown : (m.hw q.terminator).own = .sw)
    (hxmited : q.xmitedBufHead = none ∧ q.xmitedBufTail = none) (hheld : ∀ b ∈ held, Holds m b)
    (hbufs : held.Nodup) (hdescs : (q.terminator :: held.flatMap (vbufDescs m)).Nodup)
    (hinside : ∀ d ∈ q.terminator :: held.flatMap (vbufDescs m), d < m.nDesc)
    (hstored : ∀ b ∈ held, Stored cfg m (origin b) b) :
    Owned cfg origin m q q.terminator held [] [] := by
  have hsub : (q.terminator :: held.flatMap (vbufDescs m)) ⊆ List.range m.nDesc :=
    fun d hd => List.mem_range.mpr (hinside d hd)
  have hlen := (hdescs.subperm hsub).length_le
  rw [List.length_range] at hlen
  have hlayout : Layout _ _ (ringOf m q q.terminator held [] []) [] [] :=
    Layout.idle hhead rfl hown hxmited (fun b hb => ⟨(hheld b hb).ne_nil, (hheld b hb).chain⟩) hbufs
      hdescs hlen rfl rfl
  refine ⟨⟨_, _, hlayout⟩, trivial, hstored, ?_⟩
  intro f hf
  cases hf

namespace Owned

theorem bufs (h : Owned cfg origin m q t held done pending) :
    (held ++ flightBufs (done ++ pending)).Nodup := by
  obtain ⟨places, pairs, hc⟩ := h.carries
  exact hc.bufs

theorem holds (h : Owned cfg origin m q t held done pending) (hb : b ∈ held) : Holds m b := by
  obtain ⟨places, pairs, hc⟩ := h.carries
  obtain ⟨hne, hchain⟩ := hc.client b hb
  exact ⟨hne, hchain⟩

theorem descs_nodup (h : Owned cfg origin m q t held done pending) :
    (held.flatMap (vbufDescs m)).Nodup := by
  obtain ⟨places, pairs, hc⟩ := h.carries
  have hall := (List.nodup_cons.mp hc.nodup).2
  exact (List.nodup_append.mp hall).2.1

theorem length_le (h : Owned cfg origin m q t held done pending) :
    (held.flatMap (vbufDescs m)).length ≤ m.nDesc := by
  obtain ⟨places, pairs, hc⟩ := h.carries
  have hle := hc.length_le
  simp only [ringOf, TxSystem.heldDescs, List.length_cons, List.length_append] at hle
  omega

/-- The descriptors of the buffers `old` now belong to the buffers `new`; all else is as it was. -/
theorem rearrange (h : Owned cfg origin m q t (old ++ rest) done pending) (hhw : m'.hw = m.hw)
    (hvd : ∀ x ∉ old.flatMap (vbufDescs m), m'.vd x = m.vd x)
    (hpair : ∀ x, m'.pair x = m.pair x) (hn : m'.nDesc = m.nDesc)
    (hbuf : ∀ c ∈ flightBufs (done ++ pending),
      m'.nextBuf c = m.nextBuf c ∧ (m'.vb c).descList = (m.vb c).descList)
    (hrest : ∀ c ∈ rest, (m'.vb c).descList = (m.vb c).descList)
    (hnew : ∀ b ∈ new, Holds m' b)
    (hdescs : (new.flatMap (vbufDescs m')).Perm (old.flatMap (vbufDescs m)))
    (hbufs : (new ++ rest ++ flightBufs (done ++ pending)).Nodup)
    (hstored : ∀ b ∈ new, Stored cfg m' (origin' b) b)
    (horigin : ∀ c ∉ new, origin' c = origin c) :
    Owned cfg origin' m' q t (new ++ rest) done pending := by
  obtain ⟨places, pairs, hc⟩ := h.carries
  have hdistinct := h.descs_nodup
  rw [List.flatMap_append] at hdistinct
  have hapart : ∀ c ∈ rest, ∀ x ∈ vbufDescs m c, x ∉ old.flatMap (vbufDescs m) := by
    intro c hcrest x hx hold
    have hmem : x ∈ rest.flatMap (vbufDescs m) := List.mem_flatMap.mpr ⟨c, hcrest, hx⟩
    exact (List.nodup_append.mp hdistinct).2.2 x hold x hmem rfl
  have hothers : ∀ c ∈ rest, Holds m' c ∧ vbufDescs m' c = vbufDescs m c := by
    intro c hcrest
    apply (h.holds (List.mem_append_right _ hcrest)).congr (hrest c hcrest)
    · intro x hx
      rw [Memory.nextDesc, hvd x (hapart c hcrest x hx), Memory.nextDesc]
    · exact hn
  have hsame : rest.flatMap (vbufDescs m') = rest.flatMap (vbufDescs m) :=
    List.flatMap_congr fun c hcrest => (hothers c hcrest).2
  have hnotNew : ∀ c ∈ rest ++ flightBufs (done ++ pending), c ∉ new := by
    intro c hmem hin
    rw [List.append_assoc] at hbufs
    exact (List.nodup_append.mp hbufs).2.2 c hin c hmem rfl
  refine ⟨⟨places, pairs, ?_⟩, ?_, ?_, ?_⟩
  · apply hc.regroup hhw _ hpair hn (fun c hcf => (hbuf c hcf).1) _ hbufs
    · rw [List.flatMap_append, List.flatMap_append, hsame]
      exact hdescs.append_right _
    · intro x hx
      apply hvd
      intro hold
      exact hx (List.mem_flatMap.mpr (by
        obtain ⟨c, hcold, hxc⟩ := List.mem_flatMap.mp hold
        exact ⟨c, List.mem_append_left _ hcold, hxc⟩))
    · intro b hb
      have hholds : Holds m' b := by
        rcases List.mem_append.mp hb with hbnew | hbrest
        · exact hnew b hbnew
        · exact (hothers b hbrest).1
      exact ⟨hholds.ne_nil, hholds.chain⟩
  · apply h.pointing.congr
    · intro f hf
      exact (hbuf _ (List.mem_map_of_mem hf)).2
    · intro x hx
      rw [Memory.nextDesc, Memory.nextDesc, hvd x]
      intro hold
      obtain ⟨c, hcold, hxc⟩ := List.mem_flatMap.mp hold
      have hheld : x ∈ (ringOf m q t (old ++ rest) done pending).heldDescs :=
        List.mem_flatMap.mpr ⟨c, List.mem_append_left _ hcold, hxc⟩
      obtain ⟨hterm, hflight⟩ := hc.heldDescs_apart hheld
      rcases List.mem_append.mp hx with hon | hat
      · obtain ⟨f, hf, hxf⟩ := List.mem_flatMap.mp hon
        exact hflight f hf hxf
      · exact hterm (List.mem_singleton.mp hat)
    · exact hn
  · intro b hb
    rcases List.mem_append.mp hb with hbnew | hbrest
    · exact hstored b hbnew
    · rw [horigin b (hnotNew b (List.mem_append_left _ hbrest))]
      intro d hd
      rw [(hothers b hbrest).2] at hd
      have hkept : m'.vd d = m.vd d := hvd d (hapart b hbrest d hd)
      rw [hkept]
      exact h.stored b (List.mem_append_right _ hbrest) d hd
  · intro f hf
    have hmem : f.sent.buf ∈ flightBufs (done ++ pending) := List.mem_map_of_mem hf
    rw [horigin _ (hnotNew _ (List.mem_append_right _ hmem))]
    exact h.carried f hf

/-- The links between buffers and the data of the held ones change, not who owns which descriptor. -/
theorem relink (h : Owned cfg origin m q t held done pending) (hp : held'.Perm held)
    (hhw : m'.hw = m.hw) (hvd : ∀ x ∉ held.flatMap (vbufDescs m), m'.vd x = m.vd x)
    (hnext : ∀ x, m'.nextDesc x = m.nextDesc x) (hpair : ∀ x, m'.pair x = m.pair x)
    (hn : m'.nDesc = m.nDesc) (hlist : ∀ c, (m'.vb c).descList = (m.vb c).descList)
    (hbuf : ∀ c ∈ flightBufs (done ++ pending), m'.nextBuf c = m.nextBuf c) :
    Owned cfg origin m' q t held' done pending := by
  have hsame : ∀ c ∈ held', Holds m' c ∧ vbufDescs m' c = vbufDescs m c := by
    intro c hc
    exact (h.holds (hp.mem_iff.mp hc)).congr (hlist c) (fun x _ => hnext x) hn
  rw [← List.append_nil held] at h
  have hall : Owned cfg origin m' q t (held' ++ []) done pending := by
    apply h.rearrange hhw hvd hpair hn
    · exact fun c hc => ⟨hbuf c hc, hlist c⟩
    · intro c hc
      cases hc
    · exact fun b hb => (hsame b hb).1
    · rw [List.flatMap_congr fun c hc => (hsame c hc).2]
      exact hp.flatMap_right _
    · have hd := h.bufs
      rw [List.append_nil] at hd ⊢
      exact (hp.append_right _).nodup_iff.mpr hd
    · intro b hb d hd
      rw [(hsame b hb).2] at hd
      have haddr : (m'.vd d).bufAddr = (m.vd d).bufAddr := congrArg Prod.fst (hpair d)
      rw [haddr]
      exact h.stored b (by simpa using hp.mem_iff.mp hb) d hd
    · exact fun _ _ => rfl
  rwa [List.append_nil] at hall

theorem perm (h : Owned cfg origin m q t held done pending) (hp : held'.Perm held) :
    Owned cfg origin m q t held' done pending :=
  h.relink hp rfl (fun _ _ => rfl) (fun _ => rfl) (fun _ => rfl) rfl (fun _ => rfl) fun _ _ => rfl

end Owned

/-- Only the link of a buffer, its length and the data of its descriptors have changed. -/
structure Touched (b : BufId) (m m' : Memory) : Prop where
  vb_eq : ∀ c, c ≠ b → m'.vb c = m.vb c
  descList : (m'.vb b).descList = (m.vb b).descList
  vd_eq : ∀ x ∉ vbufDescs m b, m'.vd x = m.vd x
  nextDesc : ∀ x, m'.nextDesc x = m.nextDesc x
  pair : ∀ x, m'.pair x = m.pair x
  frame : m' = { m with vd := m'.vd, vb := m'.vb }

theorem touched_modVb {f : Vbuf → Vbuf} (hf : ∀ v, (f v).descList = v.descList) :
    Touched b m (m.modVb b f) := by
  refine ⟨fun c hc => Memory.vb_modVb_of_ne hc, ?_, fun _ _ => rfl, fun _ => rfl, fun _ => rfl, rfl⟩
  rw [Memory.vb_modVb_self, hf]

/-- A write to the data of one of the descriptors, and to the buffer. -/
theorem touched_modVd {f : Vdesc → Vdesc} {g : Vbuf → Vbuf} {d : DescId} (hd : d ∈ vbufDescs m b)
    (hf : ∀ v, (f v).nextDesc = v.nextDesc ∧ (f v).bufAddr = v.bufAddr ∧ (f v).bufSize = v.bufSize)
    (hg : ∀ v, (g v).descList = v.descList) : Touched b m ((m.modVd d f).modVb b g) := by
  refine ⟨fun c hc => Memory.vb_modVb_of_ne hc, ?_, ?_, ?_, ?_, rfl⟩
  · rw [Memory.vb_modVb_self, hg]
    rfl
  · intro x hx
    have hne : x ≠ d := fun heq => hx (heq ▸ hd)
    exact Memory.vd_modVd_of_ne hne
  · exact fun x => Memory.modVd_field Vdesc.nextDesc fun v => (hf v).1
  · intro x
    apply Memory.modVd_field fun v => (v.bufAddr, v.bufSize)
    intro v
    rw [(hf v).2.1, (hf v).2.2]

theorem Holds.first {d : DescId} (h : Holds m b) (hd : (m.vb b).descList = some d) :
    d ∈ vbufDescs m b := by
  have hchain := h.chain
  cases hl : vbufDescs m b with
  | nil => exact absurd hl h.ne_nil
  | cons x l =>
    rw [hl, hd] at hchain
    rw [Option.some.inj hchain.1]
    exact List.mem_cons_self

theorem Touched.vbufDescs (h : Touched b m m') : vbufDescs m' b = vbufDescs m b :=
  vbufDescs_congr h.nextDesc h.descList (by rw [h.frame])

section

variable {len : ℕ}

theorem Holds.pushHead (h : Holds m b) (hpush : adfNbufPushHead b len m = some m') :
    Touched b m m' ∧ m'.nextBuf b = m.nextBuf b := by
  obtain ⟨d, hd, rfl⟩ := Option.map_eq_some_iff.mp hpush
  constructor
  · exact touched_modVd (h.first hd) (fun _ => ⟨rfl, rfl, rfl⟩) fun _ => rfl
  · exact Memory.modVb_field Vbuf.nextBuf fun _ => rfl

theorem Holds.pullHead (h : Holds m b) (hpull : adfNbufPullHead b len m = some m') :
    Touched b m m' ∧ m'.nextBuf b = m.nextBuf b := by
  obtain ⟨d, hd, rfl⟩ := Option.map_eq_some_iff.mp hpull
  constructor
  · exact touched_modVd (h.first hd) (fun _ => ⟨rfl, rfl, rfl⟩) fun _ => rfl
  · exact Memory.modVb_field Vbuf.nextBuf fun _ => rfl

theorem putTail_touched (hput : adfNbufPutTail b len m = some m') :
    Touched b m m' ∧ m'.nextBuf b = m.nextBuf b := by
  simp only [adfNbufPutTail, Option.bind_eq_bind, Option.bind_eq_some_iff, Option.some.injEq] at hput
  obtain ⟨ds, hds, last, hlast, rfl⟩ := hput
  have hdescs : Dma.vbufDescs m b = ds := by
    rw [Dma.vbufDescs, hds]
    rfl
  have hmem : last ∈ Dma.vbufDescs m b := by
    rw [hdescs]
    exact List.mem_of_getLast? hlast
  constructor
  · exact touched_modVd hmem (fun _ => ⟨rfl, rfl, rfl⟩) fun _ => rfl
  · exact Memory.modVb_field Vbuf.nextBuf fun _ => rfl

end

namespace Owned

theorem touch (h : Owned cfg origin m q t held done pending) (hb : b ∈ held) (ht : Touched b m m')
    (hp : held'.Perm held) : Owned cfg origin m' q t held' done pending := by
  have hframe := ht.frame
  apply h.relink hp
  · rw [hframe]
  · intro x hx
    apply ht.vd_eq
    intro hxb
    exact hx (List.mem_flatMap.mpr ⟨b, hb, hxb⟩)
  · exact ht.nextDesc
  · exact ht.pair
  · rw [hframe]
  · intro c
    by_cases hc : c = b
    · rw [hc]
      exact ht.descList
    · rw [ht.vb_eq c hc]
  · intro c hc
    have hne : c ≠ b := by
      rintro rfl
      exact (List.nodup_append.mp h.bufs).2.2 c hb c hc rfl
    rw [Memory.nextBuf, ht.vb_eq c hne, Memory.nextBuf]

/-- No two buffers share a descriptor, those in transmission included. -/
theorem apart (h : Owned cfg origin m q t held done pending) :
    ((held ++ flightBufs (done ++ pending)).flatMap (vbufDescs m)).Nodup ∧
      ∀ b ∈ held ++ flightBufs (done ++ pending), Holds m b := by
  obtain ⟨places, pairs, hc⟩ := h.carries
  have hne : ∀ f ∈ done ++ pending, f.descs ≠ [] := fun f hf => (hc.carried f hf).packet.ne_nil
  have hflight := h.pointing.descs hne
  have hbufs : (flightBufs (done ++ pending)).flatMap (vbufDescs m) =
      (done ++ pending).flatMap fun f => vbufDescs m f.sent.buf := List.flatMap_map ..
  have hlist := hc.nodup
  simp only [ringOf, TxSystem.heldDescs] at hlist
  have hwhole : (held.flatMap (vbufDescs m) ++
      ((done ++ pending).flatMap Flight.descs ++ [q.terminator])).Nodup := by
    refine List.Perm.nodup ?_ hlist
    apply List.perm_iff_count.mpr
    intro x
    simp only [List.count_cons, List.count_append, List.count_nil]
    omega
  constructor
  · rw [List.flatMap_append, hbufs]
    refine (hflight.append_left _).nodup_iff.mpr ?_
    exact hwhole.sublist ((List.tail_sublist _).append_left _)
  · intro b hb
    rcases List.mem_append.mp hb with hheld | hfly
    · exact h.holds hheld
    · obtain ⟨f, hf, rfl⟩ := List.mem_map.mp hfly
      obtain ⟨d, hdescs, hchain⟩ := h.pointing.chain hf
      rw [← hdescs] at hchain
      exact ⟨by rw [hdescs]; exact List.cons_ne_nil _ _, hchain⟩

/-! ## Frames -/

/-- The buffers `old` become the frame `b`. -/
theorem merge (h : Owned cfg origin m q t (old ++ rest) done pending) (hne : old ≠ [])
    (hframed : Framed old b m m') (hb : b ∉ old ++ rest ++ flightBufs (done ++ pending))
    (hp : ∀ c ∈ old, origin c = p) :
    Owned cfg (Function.update origin b p) m' q t ([b] ++ rest) done pending := by
  have hnDesc : m'.nDesc = m.nDesc := by rw [hframed.frame]
  have hbufs := h.bufs
  rw [List.append_assoc] at hb hbufs
  have hother : ∀ c ∈ rest ++ flightBufs (done ++ pending), m'.vb c = m.vb c := by
    intro c hc
    apply hframed.vb_eq
    rw [List.mem_cons, not_or]
    constructor
    · rintro rfl
      exact hb (List.mem_append_right _ hc)
    · exact fun hin => (List.nodup_append.mp hbufs).2.2 c hin c hc rfl
  have hlen : (old.flatMap (vbufDescs m)).length ≤ m'.nDesc := by
    have hle := h.length_le
    rw [List.flatMap_append, List.length_append, ← hnDesc] at hle
    omega
  have hdescs : old.flatMap (vbufDescs m) ≠ [] := by
    obtain ⟨first, others, rfl⟩ := List.exists_cons_of_ne_nil hne
    rw [List.cons_append] at h
    rw [List.flatMap_cons]
    exact List.append_ne_nil_of_left_ne_nil (h.holds List.mem_cons_self).ne_nil _
  obtain ⟨hholds, hsame⟩ := holds_of_chain hframed.chain hdescs hlen
  apply h.rearrange
  · rw [hframed.frame]
  · exact hframed.vd_eq
  · exact fun x => pair_data (hframed.data x)
  · exact hnDesc
  · intro c hc
    rw [Memory.nextBuf, hother c (List.mem_append_right _ hc)]
    exact ⟨rfl, rfl⟩
  · intro c hc
    rw [hother c (List.mem_append_left _ hc)]
  · intro c hc
    rwa [List.mem_singleton.mp hc]
  · rw [List.flatMap_singleton, hsame]
  · rw [List.append_assoc, List.singleton_append]
    apply List.nodup_cons.mpr
    constructor
    · exact fun hin => hb (List.mem_append_right _ hin)
    · exact (List.nodup_append.mp hbufs).2.1
  · intro c hc x hx
    rw [List.mem_singleton.mp hc] at hx ⊢
    rw [hsame] at hx
    obtain ⟨e, he, hxe⟩ := List.mem_flatMap.mp hx
    have haddr : (m'.vd x).bufAddr = (m.vd x).bufAddr :=
      congrArg Prod.fst (pair_data (hframed.data x))
    rw [haddr, Function.update_self, ← hp e he]
    exact h.stored e (List.mem_append_left _ he) x hxe
  · intro c hc
    apply Function.update_of_ne
    rintro rfl
    exact hc (List.mem_singleton_self _)

/-- The frame `b` becomes the fragments `new`. -/
theorem split (h : Owned cfg origin m q t ([b] ++ rest) done pending)
    (hfrag : Fragmented b new m m') (hd : new.Nodup)
    (hnew : ∀ c ∈ new, c ∉ [b] ++ rest ++ flightBufs (done ++ pending)) :
    Owned cfg (fun c => if c ∈ new then origin b else origin c) m' q t (new ++ rest) done pending := by
  have hnDesc : m'.nDesc = m.nDesc := by rw [hfrag.frame]
  have hbufs := h.bufs
  rw [List.append_assoc, List.singleton_append] at hbufs
  obtain ⟨hb, hrest⟩ := List.nodup_cons.mp hbufs
  have hother : ∀ c ∈ rest ++ flightBufs (done ++ pending), c ∉ b :: new := by
    intro c hc hin
    rcases List.mem_cons.mp hin with rfl | hmem
    · exact hb hc
    · apply hnew c hmem
      rw [List.append_assoc]
      exact List.mem_append_right _ hc
  have hall : [b].flatMap (vbufDescs m) = vbufDescs m b := List.flatMap_singleton ..
  have hdescs : new.flatMap (vbufDescs m') = vbufDescs m b :=
    flatMap_vbufDescs (hfrag.given.imp fun _ _ hc => hc.2.1)
  apply h.rearrange
  · rw [hfrag.frame]
  · rw [hall]
    exact hfrag.vd_eq
  · exact fun x => pair_data (hfrag.data x)
  · exact hnDesc
  · intro c hc
    have hnot := hother c (List.mem_append_right _ hc)
    exact ⟨hfrag.nextBuf c hnot, hfrag.descList c hnot⟩
  · intro c hc
    exact hfrag.descList c (hother c (List.mem_append_left _ hc))
  · intro c hc
    obtain ⟨d, -, hholds, -⟩ := hfrag.given.exists_of_mem_left hc
    exact hholds
  · rw [hall, hdescs]
  · rw [List.append_assoc]
    apply List.nodup_append.mpr
    refine ⟨hd, hrest, ?_⟩
    rintro c hc c' hc' rfl
    exact hother c hc' (List.mem_cons_of_mem _ hc)
  · intro c hc x hx
    rw [if_pos hc]
    have hmem : x ∈ vbufDescs m b := by
      rw [← hdescs]
      exact List.mem_flatMap.mpr ⟨c, hc, hx⟩
    have haddr : (m'.vd x).bufAddr = (m.vd x).bufAddr :=
      congrArg Prod.fst (pair_data (hfrag.data x))
    rw [haddr]
    exact h.stored b List.mem_cons_self x hmem
  · intro c hc
    rw [if_neg hc]

/-! ## The transmit ring -/

/-- A buffer is handed to the ring. -/
theorem xmit (h : Owned cfg origin m q t (b :: held) done pending) :
    ∃ q' m' f, xmitBuf q b m = some (q', m') ∧ f.sent.buf = b ∧
      Owned cfg origin m' q' t held done (pending ++ [f]) ∧
      (∀ c ∉ b :: flightBufs (done ++ pending), m'.vb c = m.vb c) ∧
      m' = { m with hw := m'.hw, vd := m'.vd, vb := m'.vb } := by
  obtain ⟨places, pairs, hc⟩ := h.carries
  obtain ⟨q', m', rest, hxmit, hdescs, hcarries, hcontents⟩ := hc.xmit
  have hb : b ∈ (ringOf m q t (b :: held) done pending).held := List.mem_cons_self
  obtain ⟨q₁, m₁, hxmit₁, htr⟩ := hc.xmit_transmitted hb hdescs
  obtain ⟨rfl, rfl⟩ : q' = q₁ ∧ m' = m₁ := by
    have heq := hxmit.symm.trans hxmit₁
    simp only [Option.some.injEq, Prod.mk.injEq] at heq
    exact heq
  obtain ⟨hvb, hnext, hframe⟩ := xmitBuf_frame hc.xmited hxmit
  have hstored := (stored_iff).mp (h.stored b List.mem_cons_self)
  refine ⟨q', m', _, hxmit, rfl, ⟨⟨places, pairs, hcarries⟩, ?_, ?_, ?_⟩, hvb, hframe⟩
  · rw [← List.append_assoc]
    have hchain := (h.holds List.mem_cons_self).chain
    rw [hdescs] at hchain
    have hpoint : Pointing m q'.terminator
        (done ++ pending ++ [⟨content m b, q.terminator :: rest⟩]) := h.pointing.snoc hdescs hchain
    apply hpoint.congr
    · exact fun f _ => htr.descList _
    · exact fun x _ => hnext x
    · exact htr.nDesc
  · intro c hcheld
    exact (h.stored c (List.mem_cons_of_mem _ hcheld)).congr (hcontents c hcheld)
  · intro f hf
    rw [← List.append_assoc] at hf
    rcases List.mem_append.mp hf with hold | hnew
    · exact h.carried f hold
    · obtain rfl := List.mem_singleton.mp hnew
      exact hstored

/-- The first completed packet comes back as the buffer it was. -/
theorem reap {f : Flight} (h : Owned cfg origin m q t held (f :: done) pending) :
    ∃ q' m', reapXmitedBuf q m = some (some f.sent.buf, q', m') ∧
      Owned cfg origin m' q' t (f.sent.buf :: held) done pending ∧
      (∀ c, c ≠ f.sent.buf → m'.vb c = m.vb c) ∧ m'.nextBuf f.sent.buf = none ∧
      m' = { m with vd := m'.vd, vb := m'.vb } := by
  obtain ⟨places, pairs, hc⟩ := h.carries
  obtain ⟨q', m', hreap, hcarries, hcontent, -, hterm, hvd, hcontents⟩ := hc.reap
  obtain ⟨hvb, hnone, hframe⟩ := reapXmitedBuf_frame hreap
  refine ⟨q', m', hreap, ⟨⟨places, pairs, hcarries⟩, ?_, ?_, ?_⟩, hvb, hnone, hframe⟩
  · have hdistinct := hc.nodup
    simp only [ringOf, List.cons_append, List.flatMap_cons, List.append_assoc] at hdistinct
    obtain ⟨hterm', hall⟩ := List.nodup_cons.mp hdistinct
    have hpoint : Pointing m q.terminator (f :: (done ++ pending)) := h.pointing
    rw [hterm]
    apply hpoint.2.congr
    · intro g hg
      have hne : g.sent.buf ≠ f.sent.buf := by
        intro heq
        have hd := (List.nodup_append.mp h.bufs).2.1
        exact (List.nodup_cons.mp hd).1 (List.mem_map.mpr ⟨g, hg, heq⟩)
      rw [hvb _ hne]
    · intro x hx
      have hxf : x ∉ f.descs := by
        intro hin
        rcases List.mem_append.mp hx with hon | hat
        · exact (List.nodup_append.mp hall).2.2 x hin x (List.mem_append_left _ hon) rfl
        · rw [List.mem_singleton.mp hat] at hin
          exact hterm' (List.mem_append_left _ hin)
      rw [Memory.nextDesc, hvd x hxf, Memory.nextDesc]
    · rw [hframe]
  · intro b hb
    rcases List.mem_cons.mp hb with rfl | hheld
    · rw [stored_iff, hcontent]
      exact h.carried f List.mem_cons_self
    · exact (h.stored b hheld).congr (hcontents b hheld)
  · intro g hg
    exact h.carried g (List.mem_cons_of_mem _ hg)

/-- The hardware completes the first packet. -/
theorem complete {f : Flight} {o : Own} (h : Owned cfg origin m q t held done (f :: pending))
    (ho : o.Completed) :
    ∃ t' hw, (ringOf m q t held done (f :: pending)).complete o =
        some { ringOf m q t held done (f :: pending) with
          mem := { m with hw := hw }, txDesc := t', completed := done.length + 1 } ∧
      Owned cfg origin { m with hw := hw } q t' held (done ++ [f]) pending := by
  obtain ⟨places, pairs, hc⟩ := h.carries
  obtain ⟨t', hw, hrun, hcarries⟩ := hc.complete ho
  have hsame : done ++ [f] ++ pending = done ++ f :: pending := by simp
  refine ⟨t', hw, hrun, ⟨⟨places, pairs, hcarries⟩, ?_, h.stored, ?_⟩⟩
  · rw [hsame]
    exact h.pointing.congr (fun _ _ => rfl) (fun _ _ => rfl) rfl
  · rw [hsame]
    exact h.carried

theorem complete_none {o : Own} (h : Owned cfg origin m q t held done []) :
    (ringOf m q t held done []).complete o = none := by
  obtain ⟨places, pairs, hc⟩ := h.carries
  exact hc.complete_none

theorem reap_null (h : Owned cfg origin m q t held [] pending) :
    reapXmitedBuf q m = some (none, q, m) := by
  obtain ⟨places, pairs, hc⟩ := h.carries
  exact hc.reap_null

end Owned

end Ath9kHtc.Pool
