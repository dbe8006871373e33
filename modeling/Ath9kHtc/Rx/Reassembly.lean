import Ath9kHtc.Rx.Assembly

/-!
# Frames are handed over as they came

The scan puts the segments of a frame together, and every event keeps the order of the ring.
-/

namespace Ath9kHtc.Rx

open Framing

variable {s s' : RxState} {l Q C U R : List DescId} {d ds h : DescId} {b : BufId}
  {W X : List RxBuf} {F : List (List Segment)}

/-! ## The scan -/

theorem note_nbuf (s : RxState) (i : ℕ) (ds : DescId) (b : BufId) :
    (note s i ds b).nbuf = if (s.nbuf b).len = 0 then
      Function.update s.nbuf b { s.nbuf b with len := (s.desc ds).dataLen } else s.nbuf := by
  rw [note]
  split <;> rfl

theorem note_nbuf_of_ne (i : ℕ) (ds : DescId) {b' : BufId} (hne : b' ≠ b) :
    (note s i ds b).nbuf b' = s.nbuf b' := by
  rw [note_nbuf]
  split
  · exact Function.update_of_ne hne ..
  · rfl

theorem note_nbuf_self (i : ℕ) (hlen : (s.nbuf b).len = 0 ∨ (s.nbuf b).len = (s.desc ds).dataLen) :
    (note s i ds b).nbuf b = { s.nbuf b with len := (s.desc ds).dataLen } := by
  rw [note_nbuf]
  split
  · rw [Function.update_self]
  · rename_i hne
    rw [← hlen.resolve_left hne]

/-- A scan notes the length of the first segment it has not noted. -/
theorem Assembly.note {u : RxBuf} (as : Assembly s h Q (ds :: C) U W (u :: X) F)
    (hb : (s.desc ds).dsNbuf = some b) :
    Assembly (note s W.length ds b) h Q (ds :: C) U W
      ({ u with rsDatalen := (s.desc ds).dataLen, rsMore := (s.desc ds).rxMore } :: X) F ∧
    (nbufOf (note s W.length ds b) ds).len = (s.desc ds).dataLen := by
  have hn := note_noted s W.length ds b
  have hmem : b ∈ onRing s (Q ++ (ds :: C ++ U)) := List.mem_filterMap.mpr ⟨ds, by simp, hb⟩
  have hself : nbufOf (Rx.note s W.length ds b) ds =
      { nbufOf s ds with len := (s.desc ds).dataLen } := by
    have hlen := as.unread ds List.mem_cons_self
    rw [nbufOf, hb] at hlen
    rw [nbufOf, hn.desc, hb, nbufOf, hb]
    exact note_nbuf_self W.length hlen
  have hother : ∀ d ∈ Q ++ (ds :: C ++ U), d ≠ ds →
      nbufOf (Rx.note s W.length ds b) d = nbufOf s d := by
    intro d hd hne
    obtain ⟨b', hb', -, -⟩ := as.ring.mem_onRing hd
    rw [nbufOf, hn.desc, hb', nbufOf, hb']
    refine note_nbuf_of_ne W.length ds ?_
    rintro rfl
    exact hne (onRing_inj as.onRing_nodup hd (by simp) hb' hb)
  have hwords : ∀ d ∈ Q ++ (ds :: C ++ U),
      (nbufOf (Rx.note s W.length ds b) d).mem = (nbufOf s d).mem := by
    intro d hd
    by_cases heq : d = ds
    · rw [heq, hself]
    · rw [hother d hd heq]
  have hnodup := (List.nodup_append.mp as.ring.nodup).1
  have hlater := (List.nodup_append.mp hnodup).2
  have hsub : ∀ d ∈ Q ++ ds :: C, d ∈ Q ++ (ds :: C ++ U) := by
    intro d hd
    rw [← List.append_assoc]
    exact List.mem_append_left U hd
  have hrecord : s.scRxbuf[W.length]? = some u := by
    rw [as.records.list, List.getElem?_append_right (le_refl _), Nat.sub_self]
    rfl
  refine ⟨?_, by rw [hself]⟩
  constructor
  case ring => exact hn.ring as.ring
  case nonempty => exact as.nonempty
  case chained =>
    refine ⟨fun hne => hn.rxlink.trans (as.chained.rxlink hne), ?_⟩
    rw [hn.desc]
    exact as.chained.links
  case completed =>
    rw [hn.desc]
    exact as.completed
  case pending =>
    intro d hd
    have hne : d ≠ ds := by
      rintro rfl
      exact (List.nodup_cons.mp hlater.1).1 (List.mem_append_right C hd)
    rw [hn.desc, hother d (by simp [hd]) hne]
    exact as.pending d hd
  case hardware =>
    rw [hn.rxdp]
    exact as.hardware
  case noted =>
    intro d hd
    have hne : d ≠ ds := fun heq => hlater.2 d hd ds (by simp) heq
    rw [hn.desc, hother d (List.mem_append_left _ hd) hne]
    exact as.noted d hd
  case unread =>
    intro d hd
    by_cases heq : d = ds
    · rw [heq, hself, hn.desc]
      exact .inr rfl
    · rw [hn.desc, hother d (hsub d (List.mem_append_right Q hd)) heq]
      exact as.unread d hd
  case sized =>
    intro d hd
    rw [hn.desc, hwords d (hsub d hd)]
    exact as.sized d hd
  case nodup =>
    rw [buffers_note hrecord]
    exact as.nodup
  case records => exact as.records.note ds b
  case frames => exact as.frames
  case handed =>
    rw [as.records.map_handedOf fun b' hb' => ?_, hn.handed]
    · exact as.handed
    · refine note_nbuf_of_ne W.length ds ?_
      rintro rfl
      exact as.notMem_inRecords hmem hb'
  case received =>
    have hseg : ∀ d ∈ Q ++ ds :: C, segmentOf (Rx.note s W.length ds b) d = segmentOf s d := by
      intro d hd
      rw [segmentOf, hwords d (hsub d hd), hn.desc, segmentOf]
    rw [hn.received, List.map_congr_left hseg]
    exact as.received
  case short =>
    rw [hn.received, hn.cfg]
    exact as.short

/-- The data of buffers whose lengths are noted is that of the segments. -/
theorem frameData_onRing (hr : Ring s l h) : ∀ P : List DescId, (∀ d ∈ P, d ∈ l) →
    (∀ d ∈ P, (nbufOf s d).len = (s.desc d).dataLen) →
    s.frameData (onRing s P) = (P.map (segmentOf s)).flatMap (·.bytes)
  | [], _, _ => rfl
  | d :: P, hl, hlen => by
      obtain ⟨b, hb, -, -⟩ := hr.mem_onRing (hl d List.mem_cons_self)
      have ih := frameData_onRing hr P (fun d hd => hl d (List.mem_cons_of_mem _ hd))
        fun d hd => hlen d (List.mem_cons_of_mem _ hd)
      have hhead := hlen d List.mem_cons_self
      rw [nbufOf, hb] at hhead
      rw [onRing_cons hb, List.map_cons, List.flatMap_cons, ← ih, segmentOf, nbufOf, hb,
        ← hhead]
      rfl

theorem sum_segmentOf : ∀ P : List DescId, (∀ d ∈ P, (s.desc d).dataLen ≤ (nbufOf s d).mem.length) →
    ((P.map (segmentOf s)).map fun seg => seg.bytes.length).sum =
      (P.map fun d => (s.desc d).dataLen).sum
  | [], _ => rfl
  | d :: P, hP => by
      have ih := sum_segmentOf P fun d hd => hP d (List.mem_cons_of_mem _ hd)
      simp only [List.map_cons, List.sum_cons]
      rw [ih, segmentOf, List.length_take_of_le (hP d List.mem_cons_self)]

/-- The frame the noted descriptors hold goes into the first free record. -/
theorem Assembly.finish {u : RxBuf} {N : List DescId} {h' : DescId} {len : ℕ}
    (as : Assembly s h Q (ds :: C) U W (u :: X) F)
    (hnoted : (nbufOf s ds).len = (s.desc ds).dataLen) (hmore : (s.desc ds).rxMore = false)
    (t : Turned s s' (Q ++ ds :: (C ++ U)) (C ++ U ++ N) h' (onRing s (Q ++ [ds])))
    (k : Kept s s' s.pool (Q ++ ds :: (C ++ U)) (C ++ U) N)
    (hrxdp : ∃ d ∈ s.rxdp, d ∈ C.getLast? ∨ d ∈ U.head?)
    (hlen : len = ((Q ++ [ds]).map fun d => (s.desc d).dataLen).sum) :
    Assembly (recordFrame s' W.length len (onRing s (Q ++ [ds]))) h' [] C (U ++ N)
      (W ++ [{ u with rsDatalen := len, bfSkb := some (onRing s (Q ++ [ds])), done := true }]) X
      (F ++ [(Q ++ [ds]).map (segmentOf s)]) := by
  have hlist : C ++ (U ++ N) = (C ++ U) ++ N := (List.append_assoc ..).symm
  have hall : Q ++ (ds :: C ++ U) = (Q ++ [ds]) ++ (C ++ U) := List.append_cons Q ds (C ++ U)
  have hsame : ∀ d ∈ C ++ U, Same s s' d := by
    intro d hd
    refine k.same hd fun b hb hmem => as.notMem_pool (.inl ?_) hmem
    exact List.mem_filterMap.mpr ⟨d, hall ▸ List.mem_append_right _ hd, hb⟩
  have hC : ∀ d ∈ C, Same s s' d := fun d hd => hsame d (List.mem_append_left _ hd)
  have hin : ∀ d ∈ Q ++ [ds], d ∈ Q ++ (ds :: C ++ U) := fun d hd =>
    hall ▸ List.mem_append_left _ hd
  have hfrags : ∀ b ∈ onRing s (Q ++ [ds]), s'.nbuf b = s.nbuf b := by
    intro b hb
    rcases k.nbuf b with heq | ⟨hmem, -⟩
    · exact heq
    · refine absurd hmem (as.notMem_pool (.inl ?_))
      rw [hall, onRing_append]
      exact List.mem_append_left _ hb
  have hlengths : ∀ d ∈ Q ++ [ds], (nbufOf s d).len = (s.desc d).dataLen := by
    intro d hd
    rcases List.mem_append.mp hd with hd | hd
    · exact (as.noted d hd).2
    · rw [List.mem_singleton.mp hd]
      exact hnoted
  have hw : Waiting s' W (u :: X) := as.records.congr t.scRxbuf
  have hrecord : s'.scRxbuf[W.length]? = some u := by
    rw [hw.list, List.getElem?_append_right (le_refl _), Nat.sub_self]
    rfl
  constructor
  case ring =>
    show Ring _ (C ++ (U ++ N)) h'
    rw [hlist]
    exact t.ring.congr rfl rfl rfl rfl rfl fun _ => ⟨rfl, rfl, rfl⟩
  case nonempty =>
    show C ++ (U ++ N) ≠ []
    rw [hlist]
    exact t.nonempty
  case chained =>
    show Chained _ (C ++ (U ++ N))
    have hc := k.chained as.chained
    rw [hlist]
    exact ⟨hc.rxlink, hc.links⟩
  case completed =>
    intro d hd
    show (s'.desc d).rxDone = true
    rw [(hC d hd).done]
    exact as.completed d (List.mem_append_right Q (List.mem_cons_of_mem _ hd))
  case pending =>
    exact k.pending (fun d hd => hsame d (List.mem_append_right _ hd)) as.pending
  case hardware =>
    obtain ⟨d, hd, hplace⟩ := hrxdp
    have hlink : s.scRxlink ≠ none := by
      rw [as.chained.rxlink as.nonempty]
      exact fun hnone => as.nonempty (List.getLast?_eq_none_iff.mp hnone)
    refine ⟨d, ?_, hplace.imp id fun hfirst => ?_⟩
    · show d ∈ s'.rxdp
      rw [(k.rxdp hlink).2]
      exact hd
    · obtain ⟨U', rfl⟩ := List.head?_eq_some_iff.mp hfirst
      rfl
  case noted => simp
  case unread =>
    intro d hd
    show (nbufOf s' d).len = 0 ∨ (nbufOf s' d).len = (s'.desc d).dataLen
    rw [(hC d hd).nbuf, (hC d hd).dataLen]
    exact as.unread d (List.mem_cons_of_mem _ hd)
  case sized =>
    intro d hd
    show (s'.desc d).dataLen ≤ (nbufOf s' d).mem.length
    rw [(hC d hd).nbuf, (hC d hd).dataLen]
    exact as.sized d (List.mem_append_right Q (List.mem_cons_of_mem _ hd))
  case nodup =>
    have hnone := (as.records.free u List.mem_cons_self).2
    rw [buffers_recordFrame hrecord hnone, t.buffers as.ring]
    exact as.nodup
  case records =>
    refine hw.recordFrame len ?_
    obtain ⟨b, hb, -, -⟩ := as.ring.mem_onRing (hin ds (by simp))
    exact onRing_ne_nil hb
  case frames =>
    intro f hf
    rcases List.mem_append.mp hf with hf | hf
    · exact as.frames f hf
    · refine ⟨Q.map (segmentOf s), segmentOf s ds, ?_, ?_, hmore⟩
      · rw [List.mem_singleton.mp hf, List.map_append]
        rfl
      · intro seg hseg
        obtain ⟨d, hd, rfl⟩ := List.mem_map.mp hseg
        exact (as.noted d hd).1
  case handed =>
    have hwait : W.map (handedOf s') = W.map (handedOf s) := by
      refine as.records.map_handedOf fun b hb => ?_
      rcases k.nbuf b with heq | ⟨hmem, -⟩
      · exact heq
      · exact absurd hmem (as.notMem_pool (.inr hb))
    have hframe : Handed.mk (s'.frameData (onRing s (Q ++ [ds]))) len =
        Handed.ofFrame ((Q ++ [ds]).map (segmentOf s)) := by
      have hsized : ∀ d ∈ Q ++ [ds], (s.desc d).dataLen ≤ (nbufOf s d).mem.length := by
        intro d hd
        refine as.sized d ?_
        rw [List.append_cons]
        exact List.mem_append_left _ hd
      rw [frameData_congr hfrags, frameData_onRing as.ring _ hin hlengths, Handed.ofFrame,
        sum_segmentOf _ hsized, hlen]
    show s'.handed ++ (W ++ [_]).map (handedOf s') = _
    rw [t.handed, List.map_append, hwait, ← List.append_assoc, as.handed, List.map_append]
    exact congrArg (F.map Handed.ofFrame ++ [·]) hframe
  case received =>
    show s'.received = _ ++ C.map (segmentOf s')
    rw [t.received, as.received, map_segmentOf hC, List.flatten_append, List.flatten_singleton]
    simp only [List.map_append, List.map_cons, List.map_nil, List.append_assoc, List.cons_append,
      List.nil_append]
  case short =>
    show Framed Segment.more (Fits s'.cfg) s'.received
    rw [t.received, t.cfg]
    exact as.short

/-- A noted segment of which more follows belongs to the frame. -/
theorem Assembly.shift (as : Assembly s h Q (ds :: C) U W X F)
    (hnoted : (nbufOf s ds).len = (s.desc ds).dataLen) (hmore : (s.desc ds).rxMore = true) :
    Assembly s h (Q ++ [ds]) C U W X F := by
  have hlist : Q ++ (ds :: C ++ U) = (Q ++ [ds]) ++ (C ++ U) := List.append_cons Q ds (C ++ U)
  have hfirst : Q ++ ds :: C = (Q ++ [ds]) ++ C := List.append_cons Q ds C
  refine { as with
    ring := hlist ▸ as.ring
    nonempty := hlist ▸ as.nonempty
    chained := hlist ▸ as.chained
    completed := hfirst ▸ as.completed
    hardware := hfirst ▸ as.hardware
    noted := fun d hd => ?_
    unread := fun d hd => as.unread d (List.mem_cons_of_mem _ hd)
    sized := hfirst ▸ as.sized
    received := hfirst ▸ as.received }
  rcases List.mem_append.mp hd with hd | hd
  · exact as.noted d hd
  · rw [List.mem_singleton.mp hd]
    exact ⟨hmore, hnoted⟩

/-- The next scan starts again. -/
theorem Assembly.reset (as : Assembly s h Q C U W X F) : Assembly s h [] (Q ++ C) U W X F := by
  have hlist : Q ++ (C ++ U) = (Q ++ C) ++ U := (List.append_assoc ..).symm
  refine { as with
    ring := hlist ▸ as.ring
    nonempty := hlist ▸ as.nonempty
    chained := hlist ▸ as.chained
    noted := by simp
    unread := fun d hd => ?_ }
  rcases List.mem_append.mp hd with hd | hd
  · exact .inr (as.noted d hd).2
  · exact as.unread d hd

/-- The frame is not too long for the scan. -/
theorem Assembly.length_lt (as : Assembly s h Q C U W X F) :
    Q.length + 1 < s.cfg.numrxbufs - 1 := by
  have hthree := s.cfg.three_le_bufs
  rcases List.eq_nil_or_concat Q with rfl | ⟨Q', q, rfl⟩
  · simp only [List.length_nil]
    omega
  · rw [List.concat_eq_append] at as ⊢
    have hreceived : s.received =
        F.flatten ++ Q'.map (segmentOf s) ++ segmentOf s q :: C.map (segmentOf s) := by
      rw [as.received]
      simp
    have hfits := as.short _ _ _ _ hreceived fun seg hseg => by
      obtain ⟨d, hd, rfl⟩ := List.mem_map.mp hseg
      exact (as.noted d (List.mem_append_left _ hd)).1
    have hshort := hfits.1 (as.noted q (by simp)).1
    rw [List.length_map] at hshort
    rw [List.length_append, List.length_singleton]
    omega

/-- The length of the frame fits in 16 bits. -/
theorem Assembly.sum_lt (as : Assembly s h Q (ds :: C) U W X F) :
    ((Q ++ [ds]).map fun d => (s.desc d).dataLen).sum < 65536 := by
  have hreceived : s.received =
      F.flatten ++ Q.map (segmentOf s) ++ segmentOf s ds :: C.map (segmentOf s) := by
    rw [as.received]
    simp
  have hfits := as.short _ _ _ _ hreceived fun seg hseg => by
    obtain ⟨d, hd, rfl⟩ := List.mem_map.mp hseg
    exact (as.noted d hd).1
  have hsized : ∀ d ∈ Q ++ [ds], (s.desc d).dataLen ≤ (nbufOf s d).mem.length := by
    intro d hd
    refine as.sized d ?_
    rw [List.append_cons]
    exact List.mem_append_left _ hd
  rw [← sum_segmentOf _ hsized]
  have hsum := hfits.2
  simpa using hsum

/-- The hardware is past a frame the scan takes. -/
theorem Assembly.hardware_past {nds : DescId} (as : Assembly s h Q (ds :: C) U W X F)
    (hlink : (s.desc ds).dsLink = some nds) (hpassed : inProgress s ds nds = false) :
    ∃ d ∈ s.rxdp, d ∈ C.getLast? ∨ d ∈ U.head? := by
  obtain ⟨d, hd, hplace | hplace⟩ := as.hardware
  · refine ⟨d, hd, .inl ?_⟩
    rw [List.getLast?_append_of_ne_nil _ (List.cons_ne_nil ds C)] at hplace
    cases C with
    | nil =>
        obtain rfl : ds = d := Option.some.inj hplace
        have hrest := as.ring.rest_ne_nil hlink
        obtain ⟨u, U', rfl⟩ := List.exists_cons_of_ne_nil hrest
        have hchain := (List.isChain_append.mp as.chained.links).2.1.rel
        have hu : nds = u := Option.some.inj (hlink.symm.trans hchain)
        have hpend := (as.pending u List.mem_cons_self).1
        have hwait : inProgress s ds nds = true := by
          rw [inProgress, hu, hpend, Option.mem_def.mp hd]
          simp
        rw [hwait] at hpassed
        cases hpassed
    | cons c C => rwa [List.getLast?_cons_cons] at hplace
  · exact ⟨d, hd, .inr hplace⟩

/-- The scan has noted `Q` of the frame it is at. -/
structure Scans (c : Scan) (s : RxState) (h : DescId) (Q C U : List DescId) (W X : List RxBuf)
    (F : List (List Segment)) : Prop where
  assembly : Assembly s h Q C U W X F
  bf : c.bf = W.length
  cnt : c.cnt = Q.length
  frameLen : c.frameLen = (Q.map fun d => (s.desc d).dataLen).sum
  ds : c.ds = (C ++ U).head?

def Assembled (s : RxState) : Prop := ∃ h C U W X F, Assembly s h [] C U W X F

def ScansOn (c : Scan) (s : RxState) : Prop := ∃ h Q C U W X F, Scans c s h Q C U W X F

/-- The scan is where the noted descriptors end. -/
theorem Scans.at_eq {c : Scan} {Q₁ : List DescId} (sc : Scans c s h Q C U W X F)
    (hat : At c s Q₁ ds R) : Q₁ = Q ∧ C ++ U = ds :: R := by
  obtain ⟨⟨h₁, hr⟩, hds, -⟩ := hat
  obtain ⟨R₂, hR₂⟩ := List.head?_eq_some_iff.mp (sc.ds.symm.trans hds)
  have hring := sc.assembly.ring
  have hlist : Q ++ ds :: (R₂ ++ [h]) = Q₁ ++ ds :: (R ++ [h₁]) := by
    have heq := hring.list.symm.trans hr.list
    rw [hR₂] at heq
    simpa using heq
  have hnodup : (Q ++ ds :: (R₂ ++ [h])).Nodup := by
    have hall := hring.nodup
    rw [hR₂, List.append_cons _ h] at hall
    simpa using (List.nodup_append.mp hall).1
  have hparts := List.nodup_append.mp hnodup
  have hbefore : ds ∉ Q := fun hmem => hparts.2.2 ds hmem ds List.mem_cons_self rfl
  have hbehind : ds ∉ R₂ ++ [h] := (List.nodup_cons.mp hparts.2.1).1
  obtain ⟨rfl, -, hrest⟩ := (List.append_cons_inj_of_notMem hbefore hbehind).mp hlist
  obtain ⟨rfl, -⟩ := List.append_inj' hrest rfl
  exact ⟨rfl, hR₂⟩

theorem Waiting.next {W X : List RxBuf} {bf : RxBuf} (hw : Waiting s W X)
    (hrecord : s.scRxbuf[W.length]? = some bf) : ∃ X', X = bf :: X' := by
  rw [hw.list, List.getElem?_append_right (le_refl _), Nat.sub_self] at hrecord
  cases X with
  | nil => cases hrecord
  | cons x X =>
      obtain rfl := Option.some.inj hrecord
      exact ⟨X, rfl⟩

/-- A filled descriptor is one of the filled ones. -/
theorem Assembly.filled_first (as : Assembly s h Q C U W X F) (hCU : C ++ U = ds :: R)
    (hdone : (s.desc ds).rxDone = true) : ∃ C', C = ds :: C' ∧ R = C' ++ U := by
  cases C with
  | nil =>
      rw [List.nil_append] at hCU
      have hpend := (as.pending ds (hCU ▸ List.mem_cons_self)).1
      rw [hdone] at hpend
      cases hpend
  | cons c C =>
      obtain ⟨rfl, rfl⟩ := List.cons.inj hCU
      exact ⟨C, rfl, rfl⟩

theorem Scanned.scansOn {c : Scan} {Q : List DescId} {r : Round (Scan × RxState)}
    (hat : At c s Q ds R) (hsc : ScansOn c s) (hscan : Scanned s c Q ds R r) :
    r.Sat (fun a => ScansOn a.1 a.2) Assembled := by
  obtain ⟨h, Q', C, U, W, X, F, sc⟩ := hsc
  obtain ⟨rfl, hCU⟩ := sc.at_eq hat
  have as := sc.assembly
  cases hscan with
  | dropped long =>
      have hlt := as.length_lt
      rw [sc.cnt] at long
      omega
  | waits => exact ⟨h, _, U, W, X, F, as.reset⟩
  | noRecord => trivial
  | @busy bf _ hrecord hdone =>
      rw [sc.bf] at hrecord
      obtain ⟨X', rfl⟩ := as.records.next hrecord
      have hfree := (as.records.free bf List.mem_cons_self).1
      rw [hdone] at hfree
      cases hfree
  | @segment bf b d R' short hrecord hfree hb hrest hdone hmore =>
      rw [sc.bf] at hrecord
      obtain ⟨X', rfl⟩ := as.records.next hrecord
      obtain ⟨C', rfl, rfl⟩ := as.filled_first hCU hdone
      have hn := note_noted s W.length ds b
      obtain ⟨has, hnoted⟩ := as.note hb
      have hmore' : ((note s W.length ds b).desc ds).rxMore = true := by rwa [hn.desc]
      have hsum := as.sum_lt
      rw [sc.bf]
      refine ⟨h, Q ++ [ds], C', U, W, _, F, has.shift (hnoted.trans (by rw [hn.desc])) hmore',
        rfl, ?_, ?_, ?_⟩
      · rw [List.length_append, List.length_singleton]
        exact congrArg (· + 1) sc.cnt
      · rw [List.map_append, List.sum_append] at hsum
        rw [hn.desc, List.map_append, List.sum_append]
        show (c.frameLen + (s.desc ds).dataLen) % 65536 = _
        rw [sc.frameLen]
        exact Nat.mod_eq_of_lt hsum
      · rw [hrest]
        rfl
  | @finished bf b d nds R' s' N h' _ hrecord hfree hb hrest hlink hpassed hmore turned kept =>
      have hdone : (s.desc ds).rxDone = true := by
        by_contra hnot
        simp [inProgress, hnot] at hpassed
      rw [sc.bf] at hrecord
      obtain ⟨X', rfl⟩ := as.records.next hrecord
      obtain ⟨C', rfl, rfl⟩ := as.filled_first hCU hdone
      have hn := note_noted s W.length ds b
      obtain ⟨has, hnoted⟩ := as.note hb
      have hsum := as.sum_lt
      rw [sc.bf] at turned kept ⊢
      rw [← hn.pool] at kept
      rw [← hn.onRing (l := Q ++ [ds])] at turned ⊢
      have hlink' : ((note s W.length ds b).desc ds).dsLink = some nds := by rwa [hn.desc]
      have hpassed' : inProgress (note s W.length ds b) ds nds = false := by
        rw [inProgress, hn.desc, hn.rxdp]
        exact hpassed
      have hlen : (c.frameLen + (s.desc ds).dataLen) % 65536 =
          ((Q ++ [ds]).map fun d => ((note s W.length ds b).desc d).dataLen).sum := by
        rw [List.map_append, List.sum_append] at hsum
        rw [hn.desc, List.map_append, List.sum_append, sc.frameLen]
        exact Nat.mod_eq_of_lt hsum
      have hfinish := has.finish (hnoted.trans (by rw [hn.desc])) (by rwa [hn.desc]) turned kept
        (has.hardware_past hlink' hpassed') hlen
      refine ⟨h', [], C', U ++ N, _, X', _, hfinish, ?_, rfl, rfl, ?_⟩
      · rw [List.length_append, List.length_singleton]
      · rw [← List.append_assoc, hrest]
        rfl

/-! ## Runs -/

/-- After the start: the hardware does not run ahead of the scan by more than the longest packet,
and an interrupt finds the first record free or nothing to scan. -/
def Flows : RxState → Event → Prop
  | s, .receive seg => Fits s.cfg (openFrame Segment.more s.received) seg
  | s, .interrupt _ => (∀ bf ∈ s.scRxbuf.head?, bf.done = false) ∨
    ∀ ds ∈ s.scRxdesc.head?, (s.desc ds).dsLink = none
  | _, .advance => True
  | _, .tasklet _ => True
  | _, .complete _ => True
  | _, _ => False

instance (s : RxState) (e : Event) : Decidable (Flows s e) :=
  match e with
  | .receive seg =>
    inferInstanceAs (Decidable (Fits s.cfg (openFrame Segment.more s.received) seg))
  | .interrupt _ => inferInstanceAs (Decidable ((∀ bf ∈ s.scRxbuf.head?, bf.done = false) ∨
      ∀ ds ∈ s.scRxdesc.head?, (s.desc ds).dsLink = none))
  | .advance | .tasklet _ | .complete _ => .isTrue trivial
  | .startRecv | .stopRecv | .flushRecv => .isFalse id

theorem scanLoop_link_none {n : ℕ} (hr : Ring s l h) (hl : l ≠ [])
    (hlink : ∀ ds ∈ s.scRxdesc.head?, (s.desc ds).dsLink = none)
    (hs : athUapsdProcesstriggers n s = some s') : s' = s := by
  obtain ⟨ds, R, rfl⟩ := List.exists_cons_of_ne_nil hl
  have hhead : s.scRxdesc.head? = some ds := by
    rw [hr.list]
    rfl
  have hthree := s.cfg.three_le_bufs
  have hshort : ¬ 0 + 1 = s.cfg.numrxbufs - 1 := by omega
  have hround : scanRound (.start s) s = .stop s := by
    simp only [scanRound, Scan.start, hhead, if_neg hshort, hlink ds hhead]
  cases n with
  | zero => cases hs
  | succ n =>
      rw [athUapsdProcesstriggers, scanLoop, hround] at hs
      exact (Option.some.inj hs).symm

theorem Assembled.interrupt {n : ℕ} (ha : Assembled s) (he : Flows s (.interrupt n))
    (hs : athUapsdProcesstriggers n s = some s') : Assembled s' := by
  obtain ⟨h, C, U, W, X, F, as⟩ := ha
  rcases he with hfree | hlink
  · have hW : W = [] := by
      cases W with
      | nil => rfl
      | cons w W =>
          have hhead : s.scRxbuf.head? = some w := by
            rw [as.records.list]
            rfl
          have hnot := hfree w hhead
          rw [(as.records.waiting w List.mem_cons_self).1] at hnot
          cases hnot
    subst hW
    have hstart : Scans (.start s) s h [] C U [] X F := by
      refine ⟨as, rfl, rfl, rfl, ?_⟩
      show s.scRxdesc.head? = _
      rw [as.ring.list]
      cases hCU : C ++ U with
      | nil => exact absurd hCU as.nonempty
      | cons d R => rfl
    exact (scanLoop_rule (P := ScansOn) (O := Assembled)
      (fun hat hsc hscan => hscan.scansOn hat hsc) n (as.ring.at_start as.nonempty)
      ⟨h, [], C, U, [], X, F, hstart⟩ hs).1
  · obtain rfl := scanLoop_link_none as.ring as.nonempty hlink hs
    exact ⟨h, C, U, W, X, F, as⟩

theorem Assembled.step {e : Event} (ha : Assembled s) (he : Flows s e) (hs : step e s = some s') :
    Assembled s' := by
  cases e with
  | startRecv => exact he.elim
  | stopRecv => exact he.elim
  | flushRecv => exact he.elim
  | receive seg =>
      obtain ⟨h, C, U, W, X, F, as⟩ := ha
      obtain ⟨C', U', as'⟩ := as.receive he hs
      exact ⟨h, C', U', W, X, F, as'⟩
  | advance =>
      obtain ⟨h, C, U, W, X, F, as⟩ := ha
      exact ⟨h, C, U, W, X, F, as.advance hs⟩
  | interrupt rounds => exact ha.interrupt he hs
  | tasklet rounds =>
      refine tasklet_rule (P := Assembled) ?_ rounds ha hs
      rintro s bf rest skb hbuf hdone hskb ⟨h, C, U, W, X, F, as⟩
      obtain ⟨W', X', as'⟩ := as.handOver hbuf hdone hskb
      exact ⟨h, C, U, W', X', F, as'⟩
  | complete i =>
      obtain ⟨h, C, U, W, X, F, as⟩ := ha
      obtain ⟨h', U', as'⟩ := as.complete hs
      exact ⟨h', C, U', W, X, F, as'⟩

/-- The first start arms empty descriptors. -/
theorem assembled_startrecv {cfg : Config} (hs : athStartrecv (attach cfg) = some s) :
    Assembled s := by
  have hattached : Attached (attach cfg) := .inl ⟨cfg, rfl⟩
  have ha := (accounted_attach cfg).startrecv hattached hs
  obtain ⟨p, rest, s₁, B, h', -, hB, hst, rfl⟩ := hattached.startrecv hs
  have hkept := hst.kept fun _ _ => rfl
  have hc := hkept.chained ⟨fun hne => absurd rfl hne, List.isChain_nil⟩
  refine ⟨h', [], B, [], List.replicate cfg.numrxdescs {}, [], ?_⟩
  constructor
  case ring => exact hst.ring.congr rfl rfl rfl rfl rfl fun _ => ⟨rfl, rfl, rfl⟩
  case nonempty => exact hB
  case chained => exact ⟨hc.rxlink, hc.links⟩
  case completed => simp
  case pending => exact hkept.pending (U := []) (by simp) (by simp)
  case hardware =>
    obtain ⟨d, B', rfl⟩ := List.exists_cons_of_ne_nil hB
    exact ⟨d, rfl, .inr rfl⟩
  case noted => simp
  case unread => simp
  case sized => simp
  case nodup =>
    rw [ha.buffers]
    exact Multiset.nodup_range _
  case records => exact (bounded_attach cfg).waiting.congr hst.scRxbuf
  case frames => simp
  case handed => exact congrArg (· ++ []) hst.handed
  case received => exact hst.received
  case short =>
    show Framed Segment.more (Fits s₁.cfg) s₁.received
    rw [hst.received]
    exact framed_nil _

/-- The frames that wait in the records. -/
def waitingFrames (s : RxState) : List Handed := (s.scRxbuf.filter (·.done)).map (handedOf s)

/-- The segments that are on the ring. -/
def ringSegments (s : RxState) : List Segment :=
  (s.scRxdesc.dropLast.filter fun ds => (s.desc ds).rxDone).map (segmentOf s)

/-- The ring is as the hardware follows it, and no frame is lost or out of order. -/
structure InOrder (s : RxState) : Prop where
  lists : (s.scRxdesc ++ s.scRxdescIdle).Perm (List.range s.cfg.numrxdescs)
  held : s.scRxdescHeld = s.scRxdesc.getLast?
  armed : ∀ ds < s.cfg.numrxdescs, (s.desc ds).dsNbuf ≠ none ↔ ds ∈ s.scRxdesc.dropLast
  linked : s.scRxdesc.dropLast.IsChain fun ds ds' => (s.desc ds).dsLink = some ds'
  last : ∀ ds ∈ s.scRxdesc.dropLast.getLast?, (s.desc ds).dsLink = none
  handed : (frames Segment.more s.received).map Handed.ofFrame =
    s.handed ++ waitingFrames s ++ (frames Segment.more (ringSegments s)).map Handed.ofFrame

theorem Waiting.waitingFrames (hw : Waiting s W X) : waitingFrames s = W.map (handedOf s) := by
  have hW : W.filter (·.done) = W := List.filter_eq_self.mpr fun bf hbf => (hw.waiting bf hbf).1
  have hX : X.filter (·.done) = [] := by
    rw [List.filter_eq_nil_iff]
    intro bf hbf
    rw [(hw.free bf hbf).1]
    exact Bool.false_ne_true
  rw [Rx.waitingFrames, hw.list, List.filter_append, hW, hX, List.append_nil]

theorem Assembly.ringSegments (as : Assembly s h [] C U W X F) :
    ringSegments s = C.map (segmentOf s) := by
  have hC : C.filter (fun ds => (s.desc ds).rxDone) = C :=
    List.filter_eq_self.mpr fun d hd => as.completed d hd
  have hU : U.filter (fun ds => (s.desc ds).rxDone) = [] := by
    rw [List.filter_eq_nil_iff]
    intro d hd
    rw [(as.pending d hd).1]
    exact Bool.false_ne_true
  rw [Rx.ringSegments, as.ring.list, List.dropLast_concat, List.nil_append, List.filter_append,
    hC, hU, List.append_nil]

theorem Assembly.inOrder (as : Assembly s h [] C U W X F) : InOrder s where
  lists := by
    rw [as.ring.list, List.append_assoc]
    exact as.ring.perm
  held := by
    rw [as.ring.list, List.getLast?_concat]
    exact as.ring.held
  armed := by
    intro ds hds
    rw [as.ring.list, List.dropLast_concat]
    constructor
    · intro hne
      have hmem := as.ring.perm.mem_iff.mpr (List.mem_range.mpr hds)
      exact (List.mem_append.mp hmem).resolve_right fun hout => hne (as.ring.empty ds hout)
    · intro hmem
      obtain ⟨b, hb, -⟩ := as.ring.loaded ds hmem
      rw [hb]
      exact Option.some_ne_none b
  linked := by
    rw [as.ring.list, List.dropLast_concat]
    exact as.chained.links
  last := by
    rw [as.ring.list, List.dropLast_concat]
    exact as.ring.last
  handed := by
    have hreceived : s.received = F.flatten ++ Rx.ringSegments s := by
      rw [as.ringSegments]
      exact as.received
    rw [hreceived, frames_flatten_append as.frames, List.map_append, as.records.waitingFrames,
      as.handed]

/-- After the start the ring stays in order, and every frame is handed over once, whole and in the
order of reception. -/
theorem frames_in_order {cfg : Config} {s₀ : RxState} (hstart : athStartrecv (attach cfg) = some s₀)
    (hs : receive.StepsWhere Flows s₀ s) : InOrder s := by
  have ha : Assembled s := by
    induction hs with
    | refl => exact assembled_startrecv hstart
    | tail _ last ih =>
        obtain ⟨e, he, hstep⟩ := last
        exact ih.step he hstep
  obtain ⟨h, C, U, W, X, F, as⟩ := ha
  exact as.inOrder

theorem frames_in_order_run : ∃ s : RxState, s.handed = [⟨[1, 2], 2⟩, ⟨[3, 4, 5], 3⟩] ∧
    InOrder s := by
  obtain ⟨s₀, hstart⟩ : ∃ s₀, athStartrecv (attach smallConfig) = some s₀ := ⟨_, rfl⟩
  obtain ⟨s, steps, hhanded⟩ := Machine.exists_of_runWhere receive.Init step Flows
    (P := fun s => s.handed = [⟨[1, 2], 2⟩, ⟨[3, 4, 5], 3⟩]) (s := s₀)
    [.receive shortFrame, .advance, .receive ⟨[3], true⟩, .advance, .interrupt 9, .tasklet 9,
      .complete 0, .receive ⟨[4, 5], false⟩, .advance, .interrupt 9, .tasklet 9] (by
      cases hstart
      decide +kernel)
  exact ⟨s, hhanded, frames_in_order hstart steps⟩

/-- The events of the receive path after its start. -/
def AfterStart : Event → Prop
  | .startRecv | .stopRecv | .flushRecv => False
  | .receive _ | .advance | .interrupt _ | .tasklet _ | .complete _ => True

instance : DecidablePred AfterStart
  | .startRecv | .stopRecv | .flushRecv => .isFalse id
  | .receive _ | .advance | .interrupt _ | .tasklet _ | .complete _ => .isTrue trivial

/-- An interrupt that comes before the tasklet has run takes what it finds for a packet too long,
and drops the frame. -/
theorem early_interrupt_drops_frame :
    ¬ ∀ cfg s₀ s, athStartrecv (attach cfg) = some s₀ →
      receive.StepsWhere (fun _ e => AfterStart e) s₀ s → InOrder s := by
  intro hall
  obtain ⟨s₀, hstart⟩ : ∃ s₀, athStartrecv (attach smallConfig) = some s₀ := ⟨_, rfl⟩
  obtain ⟨s, steps, hlost⟩ := Machine.exists_of_runWhere receive.Init step
    (fun _ e => AfterStart e)
    (P := fun s => (frames Segment.more s.received).map Handed.ofFrame ≠
      s.handed ++ waitingFrames s ++ (frames Segment.more (ringSegments s)).map Handed.ofFrame)
    (s := s₀)
    [.receive shortFrame, .advance, .interrupt 9, .receive shortFrame, .advance, .interrupt 20]
    (by
      cases hstart
      decide +kernel)
  exact hlost (hall smallConfig s₀ s hstart steps).handed

end Ath9kHtc.Rx
