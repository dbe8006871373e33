import Ath9kHtc.Lib.Framing
import Ath9kHtc.Rx.Termination

/-!
# The ring and the frames on it

What the hardware has received is what the host has been given, what waits in the records, and
what the descriptors at the beginning of the ring hold, in this order.
-/

namespace Ath9kHtc.Rx

open Framing

variable {s s' : RxState} {l Q C U R F : List DescId} {d ds h : DescId} {b : BufId}

/-- The buffer of a descriptor. -/
def nbufOf (s : RxState) (ds : DescId) : Nbuf := (s.desc ds).dsNbuf.elim {} s.nbuf

/-- The segment a descriptor holds. -/
def segmentOf (s : RxState) (ds : DescId) : Segment :=
  ⟨(nbufOf s ds).mem.take (s.desc ds).dataLen, (s.desc ds).rxMore⟩

/-- A frame as the host should get it. -/
def Handed.ofFrame (f : List Segment) : Handed :=
  ⟨f.flatMap (·.bytes), (f.map fun seg => seg.bytes.length).sum⟩

/-- The frame of a record as the host will get it. -/
def handedOf (s : RxState) (bf : RxBuf) : Handed :=
  ⟨s.frameData (bf.bfSkb.getD []), bf.rsDatalen⟩

/-- The segment after the first ones of a frame leaves the frame in the ring, and its length in
16 bits. -/
def Fits (cfg : Config) (f : List Segment) (seg : Segment) : Prop :=
  (seg.more = true → f.length + 1 < cfg.numrxbufs - 2) ∧
    (f.map fun seg => seg.bytes.length).sum + seg.bytes.length < 65536

instance (cfg : Config) (f : List Segment) (seg : Segment) : Decidable (Fits cfg f seg) :=
  inferInstanceAs (Decidable (_ ∧ _))

/-- The descriptors `Q` are noted by a scan, `C` are filled too, and `U` are not; the records `W`
wait, and `F` are the frames so far that are not on the ring. -/
structure Assembly (s : RxState) (h : DescId) (Q C U : List DescId) (W X : List RxBuf)
    (F : List (List Segment)) : Prop where
  ring : Ring s (Q ++ (C ++ U)) h
  nonempty : Q ++ (C ++ U) ≠ []
  chained : Chained s (Q ++ (C ++ U))
  completed : ∀ d ∈ Q ++ C, (s.desc d).rxDone = true
  pending : ∀ d ∈ U, (s.desc d).rxDone = false ∧ (nbufOf s d).len = 0
  hardware : ∃ d ∈ s.rxdp, d ∈ (Q ++ C).getLast? ∨ d ∈ U.head?
  noted : ∀ d ∈ Q, (s.desc d).rxMore = true ∧ (nbufOf s d).len = (s.desc d).dataLen
  unread : ∀ d ∈ C, (nbufOf s d).len = 0 ∨ (nbufOf s d).len = (s.desc d).dataLen
  sized : ∀ d ∈ Q ++ C, (s.desc d).dataLen ≤ (nbufOf s d).mem.length
  nodup : (buffers s).Nodup
  records : Waiting s W X
  frames : ∀ f ∈ F, IsFrame Segment.more f
  handed : s.handed ++ W.map (handedOf s) = F.map Handed.ofFrame
  received : s.received = F.flatten ++ (Q ++ C).map (segmentOf s)
  short : Framed Segment.more (Fits s.cfg) s.received

/-! ## Buffers are apart -/

theorem Ring.nodup_buffers (hr : Ring s l h) (hn : (buffers s).Nodup) :
    (s.pool ++ (onRing s l ++ (inRecords s ++ s.inTransfer.flatten))).Nodup := by
  rw [← Multiset.coe_nodup, ← Multiset.coe_add, ← Multiset.coe_add, ← Multiset.coe_add,
    ← hr.coe_onDescs, ← add_assoc, ← add_assoc]
  exact hn

theorem Ring.mem_onRing (hr : Ring s l h) (hd : d ∈ l) :
    ∃ b, (s.desc d).dsNbuf = some b ∧ (s.desc d).dsData = some b ∧ b ∈ onRing s l := by
  obtain ⟨b, hb, hdata⟩ := hr.loaded d hd
  exact ⟨b, hb, hdata, List.mem_filterMap.mpr ⟨d, hd, hb⟩⟩

/-- Two descriptors with the same buffer are one. -/
theorem onRing_inj (hn : (onRing s l).Nodup) (hd : d ∈ l) (hds : ds ∈ l)
    (hb : (s.desc d).dsNbuf = some b) (hb' : (s.desc ds).dsNbuf = some b) : d = ds := by
  obtain ⟨A, B, rfl⟩ := List.append_of_mem hd
  rw [onRing_append, onRing_cons hb] at hn
  by_contra hne
  rcases List.mem_append.mp hds with hmem | hmem
  · exact (List.nodup_append.mp hn).2.2 b (List.mem_filterMap.mpr ⟨ds, hmem, hb'⟩) b
      List.mem_cons_self rfl
  · have hmem : ds ∈ B := (List.mem_cons.mp hmem).resolve_left fun heq => hne heq.symm
    exact (List.nodup_cons.mp (List.nodup_append.mp hn).2.1).1 (List.mem_filterMap.mpr ⟨ds, hmem, hb'⟩)

/-- What a descriptor holds has not changed. -/
structure Same (s s' : RxState) (d : DescId) : Prop where
  nbuf : nbufOf s' d = nbufOf s d
  done : (s'.desc d).rxDone = (s.desc d).rxDone
  dataLen : (s'.desc d).dataLen = (s.desc d).dataLen
  more : (s'.desc d).rxMore = (s.desc d).rxMore

theorem Same.segmentOf (hs : Same s s' d) : segmentOf s' d = segmentOf s d := by
  rw [Rx.segmentOf, hs.nbuf, hs.dataLen, hs.more, Rx.segmentOf]

theorem map_segmentOf (hs : ∀ d ∈ l, Same s s' d) : l.map (segmentOf s') = l.map (segmentOf s) :=
  List.map_congr_left fun d hd => (hs d hd).segmentOf

theorem Kept.same {P : List BufId} (k : Kept s s' P l R F) (hd : d ∈ R)
    (hP : ∀ b ∈ (s.desc d).dsNbuf, b ∉ P) : Same s s' d := by
  obtain ⟨link, hlink⟩ := k.desc d hd
  have hnbuf : nbufOf s' d = nbufOf s d := by
    rw [nbufOf, hlink, nbufOf]
    cases hb : (s.desc d).dsNbuf with
    | none => rfl
    | some b =>
        rcases k.nbuf b with heq | ⟨hmem, -⟩
        · exact heq
        · exact absurd hmem (hP b hb)
  constructor
  case nbuf => exact hnbuf
  all_goals rw [hlink]

theorem frameData_congr {skb : List BufId} (hn : ∀ b ∈ skb, s'.nbuf b = s.nbuf b) :
    s'.frameData skb = s.frameData skb := by
  refine List.flatMap_congr fun b hb => ?_
  rw [hn b hb]

theorem Waiting.mem_inRecords {W X : List RxBuf} (hw : Waiting s W X) {bf : RxBuf} (hbf : bf ∈ W)
    (hb : b ∈ bf.bfSkb.getD []) : b ∈ inRecords s := by
  refine List.mem_flatMap.mpr ⟨bf, ?_, hb⟩
  rw [hw.list]
  exact List.mem_append_left X hbf

/-- The frames that wait do not change with other buffers. -/
theorem Waiting.map_handedOf {W X : List RxBuf} (hw : Waiting s W X)
    (hn : ∀ b ∈ inRecords s, s'.nbuf b = s.nbuf b) :
    W.map (handedOf s') = W.map (handedOf s) := by
  refine List.map_congr_left fun bf hbf => ?_
  rw [handedOf, frameData_congr fun b hb => hn b (hw.mem_inRecords hbf hb), handedOf]

/-! ## The hardware -/

section

variable {W X : List RxBuf} {F : List (List Segment)}

theorem Assembly.onRing_nodup (as : Assembly s h Q C U W X F) :
    (onRing s (Q ++ (C ++ U))).Nodup :=
  (List.nodup_append.mp (List.nodup_append.mp (as.ring.nodup_buffers as.nodup)).2.1).1

theorem Assembly.notMem_pool (as : Assembly s h Q C U W X F)
    (hb : b ∈ onRing s (Q ++ (C ++ U)) ∨ b ∈ inRecords s) : b ∉ s.pool := by
  intro hmem
  refine (List.nodup_append.mp (as.ring.nodup_buffers as.nodup)).2.2 b hmem b ?_ rfl
  simp only [List.mem_append]
  tauto

theorem Assembly.notMem_inTransfer (as : Assembly s h Q C U W X F)
    (hb : b ∈ onRing s (Q ++ (C ++ U)) ∨ b ∈ inRecords s) : b ∉ s.inTransfer.flatten := by
  intro hmem
  have hrest := (List.nodup_append.mp (as.ring.nodup_buffers as.nodup)).2.1
  rcases hb with hb | hb
  · refine (List.nodup_append.mp hrest).2.2 b hb b ?_ rfl
    exact List.mem_append_right _ hmem
  · exact (List.nodup_append.mp (List.nodup_append.mp hrest).2.1).2.2 b hb b hmem rfl

theorem Assembly.notMem_inRecords (as : Assembly s h Q C U W X F)
    (hb : b ∈ onRing s (Q ++ (C ++ U))) : b ∉ inRecords s := by
  intro hmem
  have hrest := (List.nodup_append.mp (as.ring.nodup_buffers as.nodup)).2.1
  exact (List.nodup_append.mp hrest).2.2 b hb b (List.mem_append_left _ hmem) rfl

theorem filled_nbuf (s : RxState) (ds : DescId) (seg : Segment) {b' : BufId} (hne : b' ≠ b) :
    (filled s ds b seg).nbuf b' = s.nbuf b' :=
  Function.update_of_ne hne ..

theorem fits_mono {cfg : Config} {f g : List Segment} {seg : Segment} (hsub : f <:+ g)
    (hg : Fits cfg g seg) : Fits cfg f seg := by
  refine ⟨fun hmore => ?_, ?_⟩
  · have hlen := hsub.length_le
    have hshort := hg.1 hmore
    omega
  · obtain ⟨t, rfl⟩ := hsub
    have hshort := hg.2
    rw [List.map_append, List.sum_append] at hshort
    omega

theorem Assembly.filled {seg : Segment} (as : Assembly s h [] C (ds :: U) W X F)
    (hrxdp : s.rxdp = some ds) (hb : (s.desc ds).dsNbuf = some b)
    (hfit : Fits s.cfg (openFrame Segment.more s.received) seg) :
    Assembly (filled s ds b seg) h [] (C ++ [ds]) U W X F := by
  have hlist : C ++ ds :: U = (C ++ [ds]) ++ U := List.append_cons ..
  have hmem : b ∈ onRing s ([] ++ (C ++ ds :: U)) :=
    List.mem_filterMap.mpr ⟨ds, by simp, hb⟩
  have hself : nbufOf (Rx.filled s ds b seg) ds =
      { s.nbuf b with mem := seg.bytes ++ (s.nbuf b).mem.drop seg.bytes.length } := by
    rw [nbufOf, filled_desc, if_pos rfl, hb]
    exact Function.update_self ..
  have hother : ∀ d ∈ C ++ ds :: U, d ≠ ds → Same s (Rx.filled s ds b seg) d := by
    intro d hd hne
    have hdesc : (Rx.filled s ds b seg).desc d = s.desc d := by
      rw [filled_desc, if_neg hne]
    constructor
    case nbuf =>
      obtain ⟨b', hb', -, -⟩ := as.ring.mem_onRing hd
      rw [nbufOf, hdesc, hb', nbufOf, hb']
      refine filled_nbuf s ds seg ?_
      rintro rfl
      exact hne (onRing_inj as.onRing_nodup hd (by simp) hb' hb)
    all_goals rw [hdesc]
  have hC : ∀ d ∈ C, Same s (Rx.filled s ds b seg) d := by
    intro d hd
    refine hother d (List.mem_append_left _ hd) ?_
    rintro rfl
    have hpend := (as.pending d List.mem_cons_self).1
    rw [as.completed d hd] at hpend
    cases hpend
  have hU : ∀ d ∈ U, Same s (Rx.filled s ds b seg) d := by
    intro d hd
    refine hother d (List.mem_append_right _ (List.mem_cons_of_mem _ hd)) ?_
    rintro rfl
    have hnodup : (C ++ d :: U).Nodup := (List.nodup_append.mp as.ring.nodup).1
    exact (List.nodup_cons.mp (List.nodup_append.mp hnodup).2.1).1 hd
  have hlen : (s.nbuf b).len = 0 := by
    have hclean := (as.pending ds List.mem_cons_self).2
    rwa [nbufOf, hb] at hclean
  constructor
  case ring =>
    rw [← hlist]
    refine as.ring.congr rfl rfl rfl rfl rfl fun d => ?_
    rw [filled_desc]
    split <;> exact ⟨rfl, rfl, rfl⟩
  case nonempty => simp
  case chained =>
    rw [← hlist]
    refine ⟨as.chained.rxlink, as.chained.links.imp fun d d' hlink => ?_⟩
    rw [filled_desc]
    split <;> exact hlink
  case completed =>
    intro d hd
    rw [List.nil_append] at hd
    rcases List.mem_append.mp hd with hd | hd
    · rw [(hC d hd).done]
      exact as.completed d hd
    · rw [List.mem_singleton.mp hd, filled_desc, if_pos rfl]
  case pending =>
    intro d hd
    rw [(hU d hd).done, (hU d hd).nbuf]
    exact as.pending d (List.mem_cons_of_mem _ hd)
  case hardware => exact ⟨ds, hrxdp, .inl List.getLast?_concat⟩
  case noted => simp
  case unread =>
    intro d hd
    rcases List.mem_append.mp hd with hd | hd
    · rw [(hC d hd).nbuf, (hC d hd).dataLen]
      exact as.unread d hd
    · rw [List.mem_singleton.mp hd, hself]
      exact .inl hlen
  case sized =>
    intro d hd
    rw [List.nil_append] at hd
    rcases List.mem_append.mp hd with hd | hd
    · rw [(hC d hd).nbuf, (hC d hd).dataLen]
      exact as.sized d hd
    · rw [List.mem_singleton.mp hd, hself, filled_desc, if_pos rfl]
      show seg.bytes.length ≤ (seg.bytes ++ _).length
      rw [List.length_append]
      exact Nat.le_add_right _ _
  case nodup =>
    have hsame : buffers (Rx.filled s ds b seg) = buffers s := by
      refine buffers_congr rfl rfl (fun d => ?_) rfl rfl
      rw [filled_desc]
      split <;> rfl
    rw [hsame]
    exact as.nodup
  case records => exact as.records.congr rfl
  case frames => exact as.frames
  case handed =>
    rw [as.records.map_handedOf fun b' hb' => ?_]
    · exact as.handed
    · refine filled_nbuf s ds seg ?_
      rintro rfl
      exact as.notMem_inRecords hmem hb'
  case received =>
    have hnew : segmentOf (Rx.filled s ds b seg) ds = seg := by
      rw [segmentOf, hself, filled_desc, if_pos rfl]
      show Segment.mk ((seg.bytes ++ _).take seg.bytes.length) seg.more = seg
      rw [List.take_left]
    show s.received ++ [seg] = _
    rw [as.received, List.nil_append, List.nil_append, List.map_append, map_segmentOf hC,
      List.map_cons, List.map_nil, hnew, List.append_assoc]
  case short => exact as.short.concat fun f hf => fits_mono hf hfit

/-- The hardware fills the first descriptor that is not filled. -/
theorem Assembly.receive {seg : Segment} (as : Assembly s h [] C U W X F)
    (hfit : Fits s.cfg (openFrame Segment.more s.received) seg) (hs : hwReceive s seg = some s') :
    ∃ C' U', Assembly s' h [] C' U' W X F := by
  obtain ⟨ds, b, hds, hdata, hdone, rfl⟩ := hwReceive_cases hs
  obtain ⟨d, hd, hplace⟩ := as.hardware
  obtain rfl : ds = d := Option.some.inj (hds.symm.trans hd)
  rcases hplace with hlast | hfirst
  · rw [as.completed ds (List.mem_of_mem_getLast? hlast)] at hdone
    cases hdone
  · obtain ⟨U', rfl⟩ := List.head?_eq_some_iff.mp hfirst
    obtain ⟨b', hb', hdata', -⟩ := as.ring.mem_onRing (d := ds) (by simp)
    obtain rfl : b = b' := Option.some.inj (hdata.symm.trans hdata')
    exact ⟨C ++ [ds], U', as.filled hds hb' hfit⟩

/-- The hardware goes on to the first descriptor that is not filled. -/
theorem Assembly.advance (as : Assembly s h [] C U W X F) (hs : hwAdvance s = some s') :
    Assembly s' h [] C U W X F := by
  obtain ⟨ds, next, hds, hdone, hlink, rfl⟩ := hwAdvance_cases hs
  obtain ⟨d, hd, hplace⟩ := as.hardware
  obtain rfl : ds = d := Option.some.inj (hds.symm.trans hd)
  have hnext : next ∈ U.head? := by
    rcases hplace with hlast | hfirst
    · cases U with
      | nil =>
          have hnone := as.ring.last ds (by simpa using hlast)
          rw [hnone] at hlink
          cases hlink
      | cons u U =>
          have hlinks : (C ++ u :: U).IsChain fun d d' => (s.desc d).dsLink = some d' :=
            as.chained.links
          have hchain := (List.isChain_append.mp hlinks).2.2 ds hlast u rfl
          rw [hlink] at hchain
          exact (Option.some.inj hchain).symm ▸ rfl
    · have hpend := (as.pending ds (List.mem_of_mem_head? hfirst)).1
      rw [hdone] at hpend
      cases hpend
  refine { as with
    ring := as.ring.congr rfl rfl rfl rfl rfl fun _ => ⟨rfl, rfl, rfl⟩
    chained := ⟨as.chained.rxlink, as.chained.links⟩
    hardware := ⟨next, rfl, .inr hnext⟩
    records := as.records.congr rfl }

/-! ## Descriptors armed again -/

theorem Kept.pending {P : List BufId} {N : List DescId} (k : Kept s s' P l R N)
    (hsame : ∀ d ∈ U, Same s s' d)
    (hU : ∀ d ∈ U, (s.desc d).rxDone = false ∧ (nbufOf s d).len = 0) :
    ∀ d ∈ U ++ N, (s'.desc d).rxDone = false ∧ (nbufOf s' d).len = 0 := by
  intro d hd
  rcases List.mem_append.mp hd with hd | hd
  · rw [(hsame d hd).done, (hsame d hd).nbuf]
    exact hU d hd
  · obtain ⟨hdone, b, -, hnbuf, hlen⟩ := k.fresh d hd
    refine ⟨hdone, ?_⟩
    rw [nbufOf, hnbuf]
    exact hlen

theorem Kept.retransfer {P : List BufId} {N : List DescId} {frames : List (List BufId)}
    (k : Kept { s with inTransfer := frames } s' P l R N) : Kept s s' P l R N where
  desc := k.desc
  fresh := k.fresh
  nbuf := k.nbuf
  rxdp := k.rxdp
  chained := fun hc => k.chained ⟨hc.rxlink, hc.links⟩

/-- The buffers of a frame the host has got go back to the ring. -/
theorem Assembly.complete {i : ℕ} (as : Assembly s h [] C U W X F)
    (hs : complete s i = some s') : ∃ h' U', Assembly s' h' [] C U' W X F := by
  obtain ⟨frags, hi, -⟩ := Option.map_eq_some_iff.mp hs
  obtain ⟨N, h', hfilled⟩ := as.ring.complete hi hs
  have hkept : Kept s s' (frags.take s.scRxdescIdle.length) (C ++ U) (C ++ U) N :=
    hfilled.kept.retransfer
  have hsub : ∀ b ∈ frags.take s.scRxdescIdle.length, b ∈ s.inTransfer.flatten := fun b hb =>
    List.mem_flatten.mpr ⟨frags, List.mem_of_getElem? hi, List.mem_of_mem_take hb⟩
  have hsame : ∀ d ∈ C ++ U, Same s s' d := by
    intro d hd
    refine hkept.same hd fun b hb hmem => ?_
    exact as.notMem_inTransfer (.inl (List.mem_filterMap.mpr ⟨d, hd, hb⟩)) (hsub b hmem)
  have hC : ∀ d ∈ C, Same s s' d := fun d hd => hsame d (List.mem_append_left _ hd)
  have hsum := buffers_complete as.ring hi hs
  have hlist : C ++ (U ++ N) = (C ++ U) ++ N := (List.append_assoc ..).symm
  refine ⟨h', U ++ N, ?_⟩
  constructor
  case ring =>
    rw [hlist]
    exact hfilled.ring
  case nonempty =>
    rw [hlist]
    exact List.append_ne_nil_of_left_ne_nil as.nonempty N
  case chained =>
    rw [hlist]
    exact hkept.chained as.chained
  case completed =>
    intro d hd
    rw [(hC d hd).done]
    exact as.completed d hd
  case pending =>
    exact hkept.pending (fun d hd => hsame d (List.mem_append_right _ hd)) as.pending
  case hardware =>
    obtain ⟨d, hd, hplace⟩ := as.hardware
    have hlink : s.scRxlink ≠ none := by
      rw [as.chained.rxlink as.nonempty]
      exact fun hnone => as.nonempty (List.getLast?_eq_none_iff.mp hnone)
    refine ⟨d, ?_, hplace.imp id fun hfirst => ?_⟩
    · rw [(hkept.rxdp hlink).2]
      exact hd
    · obtain ⟨U', rfl⟩ := List.head?_eq_some_iff.mp hfirst
      rfl
  case noted => simp
  case unread =>
    intro d hd
    rw [(hC d hd).nbuf, (hC d hd).dataLen]
    exact as.unread d hd
  case sized =>
    intro d hd
    rw [(hC d hd).nbuf, (hC d hd).dataLen]
    exact as.sized d hd
  case nodup =>
    exact Multiset.nodup_of_le (hsum ▸ Multiset.le_add_right _ _) as.nodup
  case records => exact as.records.congr hfilled.scRxbuf
  case frames => exact as.frames
  case handed =>
    rw [as.records.map_handedOf fun b hb => ?_, hfilled.handed]
    · exact as.handed
    · rcases hkept.nbuf b with heq | ⟨hmem, -⟩
      · exact heq
      · exact absurd (hsub b hmem) (as.notMem_inTransfer (.inr hb))
  case received =>
    rw [hfilled.received, List.nil_append, map_segmentOf hC]
    exact as.received
  case short =>
    rw [hfilled.received, hfilled.cfg]
    exact as.short

/-- The tasklet hands the frame of the first record over. -/
theorem Assembly.handOver {bf : RxBuf} {rest : List RxBuf} {skb : List BufId}
    (as : Assembly s h [] C U W X F) (hbuf : s.scRxbuf = bf :: rest) (hdone : bf.done = true)
    (hskb : bf.bfSkb = some skb) :
    ∃ W' X', Assembly (handOver s bf rest skb) h [] C U W' X' F := by
  obtain ⟨W', rfl, hw⟩ := as.records.handOver skb hbuf hdone
  have ha : Accounted s.cfg (buffers s) s := ⟨rfl, rfl, as.records.recordsEmpty⟩
  refine ⟨W', _, { as with
    ring := as.ring.congr rfl rfl rfl rfl rfl fun _ => ⟨rfl, rfl, rfl⟩
    chained := ⟨as.chained.rxlink, as.chained.links⟩
    nodup := ?_
    records := hw
    handed := ?_ }⟩
  · rw [(ha.handOver hbuf hskb).buffers]
    exact as.nodup
  · have hhanded := as.handed
    rw [List.map_cons, handedOf, hskb] at hhanded
    show (s.handed ++ [_]) ++ W'.map (handedOf s) = _
    rw [List.append_assoc]
    exact hhanded

end

end Ath9kHtc.Rx
