import Ath9kHtc.Rx.Conservation

/-!
# The receive handlers return

The frames in the records wait for the tasklet in order, each with a buffer at least, and a round
of the scan that goes on makes progress.
-/

namespace Ath9kHtc.Rx

variable {s s' : RxState} {l Q R : List DescId} {ds : DescId} {h : DescId}

/-! ## Loops that return -/

/-- A round that goes on meets `P`, and there is no fault. -/
def Round.Ok {α : Type} (P : α → Prop) : Round α → Prop
  | .more a => P a
  | .stop _ => True
  | .fault => False

/-- A scan whose rounds keep `P` and make a measure smaller returns. -/
theorem scanLoop_total {P : Scan → RxState → Prop} (measure : Scan → RxState → ℕ)
    (hround : ∀ {s c Q ds R r}, At c s Q ds R → P c s → Scanned s c Q ds R r →
      r.Ok fun a => P a.1 a.2 ∧ measure a.1 a.2 < measure c s)
    (m : ℕ) : ∀ {c s}, measure c s = m → (∃ Q ds R, At c s Q ds R) → P c s →
      ∃ n s', scanLoop n c s = some s' := by
  induction m using Nat.strong_induction_on with
  | h m ih =>
      intro c s hm hat hP
      obtain ⟨Q, ds, R, hat⟩ := hat
      have hscan : Scanned s c Q ds R (scanRound c s) := by
        obtain ⟨⟨h, hr⟩, hds, hhead⟩ := hat
        exact scanRound_spec hr hhead hds
      have hnext := hscan.at_next hat
      have hok := hround hat hP hscan
      cases hcase : scanRound c s with
      | more a =>
          rw [hcase] at hnext hok
          obtain ⟨n, s', hrun⟩ := ih _ (hm ▸ hok.2) rfl hnext hok.1
          refine ⟨n + 1, s', ?_⟩
          rw [scanLoop, hcase]
          exact hrun
      | stop s' =>
          refine ⟨1, s', ?_⟩
          rw [scanLoop, hcase]
      | fault =>
          rw [hcase] at hok
          exact hok.elim

/-! ## The records -/

/-- The records `W` hold frames that wait for the tasklet, and the others are free. -/
structure Waiting (s : RxState) (W U : List RxBuf) : Prop where
  list : s.scRxbuf = W ++ U
  waiting : ∀ bf ∈ W, bf.done = true ∧ ∃ frags, bf.bfSkb = some frags ∧ frags ≠ []
  free : ∀ bf ∈ U, bf.done = false ∧ bf.bfSkb = none

variable {W U : List RxBuf}

theorem Waiting.length_le (hw : Waiting s W U) : W.length ≤ (inRecords s).length := by
  have hframes : ∀ V : List RxBuf,
      (∀ bf ∈ V, bf.done = true ∧ ∃ frags, bf.bfSkb = some frags ∧ frags ≠ []) →
      V.length ≤ (V.flatMap fun bf => bf.bfSkb.getD []).length := by
    intro V hV
    induction V with
    | nil => exact le_refl 0
    | cons bf V ih =>
        obtain ⟨-, frags, hskb, hne⟩ := hV bf List.mem_cons_self
        have hpos : 0 < frags.length := List.length_pos_of_ne_nil hne
        have hrest := ih fun bf hbf => hV bf (List.mem_cons_of_mem _ hbf)
        rw [List.flatMap_cons, hskb, List.length_append, List.length_cons]
        show _ ≤ frags.length + _
        omega
  refine (hframes W hw.waiting).trans ?_
  rw [inRecords, hw.list, List.flatMap_append, List.length_append]
  exact Nat.le_add_right _ _

theorem Waiting.congr (hw : Waiting s W U) (hbuf : s'.scRxbuf = s.scRxbuf) : Waiting s' W U :=
  ⟨hbuf.trans hw.list, hw.waiting, hw.free⟩

theorem Waiting.recordsEmpty (hw : Waiting s W U) : RecordsEmpty s := by
  intro bf hbf hdone
  rw [hw.list] at hbf
  rcases List.mem_append.mp hbf with hbf | hbf
  · rw [(hw.waiting bf hbf).1] at hdone
    cases hdone
  · exact (hw.free bf hbf).2

theorem modify_append {α : Type} (f : α → α) (V : List α) (u : α) (U : List α) :
    (V ++ u :: U).modify V.length f = V ++ f u :: U := by
  induction V with
  | nil => rfl
  | cons v V ih => rw [List.cons_append, List.length_cons, List.modify_succ_cons, ih,
      List.cons_append]

/-- The note of a segment in the first free record. -/
theorem Waiting.note {u : RxBuf} (hw : Waiting s W (u :: U)) (ds : DescId) (b : BufId) :
    Waiting (note s W.length ds b) W
      ({ u with rsDatalen := (s.desc ds).dataLen, rsMore := (s.desc ds).rxMore } :: U) where
  list := by rw [note_scRxbuf, hw.list, modify_append]
  waiting := hw.waiting
  free := by
    intro bf hbf
    rcases List.mem_cons.mp hbf with rfl | hbf
    · exact hw.free u List.mem_cons_self
    · exact hw.free bf (List.mem_cons_of_mem _ hbf)

/-- A frame in the first free record. -/
theorem Waiting.recordFrame {u : RxBuf} {frags : List BufId} (hw : Waiting s W (u :: U))
    (len : ℕ) (hfrags : frags ≠ []) : Waiting (recordFrame s W.length len frags)
      (W ++ [{ u with rsDatalen := len, bfSkb := some frags, done := true }]) U where
  list := by
    show (s.scRxbuf.modify W.length _) = _
    rw [hw.list, modify_append, List.append_assoc]
    rfl
  waiting := by
    intro bf hbf
    rcases List.mem_append.mp hbf with hbf | hbf
    · exact hw.waiting bf hbf
    · rw [List.mem_singleton.mp hbf]
      exact ⟨rfl, frags, rfl, hfrags⟩
  free := fun bf hbf => hw.free bf (List.mem_cons_of_mem _ hbf)

/-- The tasklet takes the first frame. -/
theorem Waiting.handOver {bf : RxBuf} {rest : List RxBuf} (hw : Waiting s W U)
    (skb : List BufId) (hbuf : s.scRxbuf = bf :: rest) (hdone : bf.done = true) :
    ∃ W', W = bf :: W' ∧
      Waiting (handOver s bf rest skb) W' (U ++ [{ bf with bfSkb := none, done := false }]) := by
  have hlist := hw.list
  rw [hbuf] at hlist
  cases W with
  | nil =>
      rw [List.nil_append] at hlist
      have hfree := (hw.free bf (hlist ▸ List.mem_cons_self)).1
      rw [hdone] at hfree
      cases hfree
  | cons w W =>
      obtain ⟨rfl, rfl⟩ := List.cons.inj hlist
      refine ⟨W, rfl, ?_, fun x hx => hw.waiting x (List.mem_cons_of_mem _ hx), ?_⟩
      · show (W ++ U) ++ _ = _
        rw [List.append_assoc]
      · intro x hx
        rcases List.mem_append.mp hx with hx | hx
        · exact hw.free x hx
        · rw [List.mem_singleton.mp hx]
          exact ⟨rfl, rfl⟩

/-! ## The scan makes progress -/

/-- There are as many records as descriptors, and at most as many buffers. -/
structure Bounded (s : RxState) (W U : List RxBuf) : Prop where
  waiting : Waiting s W U
  records : s.scRxbuf.length = s.cfg.numrxdescs
  buffers : (buffers s).card ≤ s.cfg.numrxdescs

/-- The buffers that are not on their way to the host. -/
def atHand (s : RxState) : ℕ := s.pool.length + (onDescs s).length

theorem card_buffers (s : RxState) :
    (buffers s).card = atHand s + (inRecords s).length + s.inTransfer.flatten.length := by
  simp only [buffers, Multiset.card_add, Multiset.coe_card, atHand]

theorem Ring.length_onDescs (hr : Ring s l h) : (onDescs s).length = l.length := by
  rw [← hr.length_onRing]
  exact congrArg Multiset.card hr.coe_onDescs

theorem Turned.atHand {l' : List DescId} {h' : DescId} {out : List BufId} (hr : Ring s l h)
    (t : Turned s s' l l' h' out) : atHand s' + out.length = atHand s := by
  have hcard := congrArg Multiset.card t.bufs
  simp only [Multiset.card_add, Multiset.coe_card] at hcard
  rw [Rx.atHand, Rx.atHand, t.ring.length_onDescs, hr.length_onDescs, ← t.ring.length_onRing,
    ← hr.length_onRing]
  exact hcard

/-- Some record is free while a descriptor is armed. -/
theorem Bounded.free_record (hb : Bounded s W U) (hr : Ring s l h) (hl : l ≠ []) : U ≠ [] := by
  rintro rfl
  have hlen := hb.records
  rw [hb.waiting.list, List.append_nil] at hlen
  have hcard := hb.buffers
  have hle := hb.waiting.length_le
  have hpos : 0 < (onDescs s).length := by
    rw [hr.length_onDescs]
    exact List.length_pos_of_ne_nil hl
  rw [card_buffers, atHand] at hcard
  omega

/-- The scan has a record for the next frame, or finds the first one taken. -/
structure Scanning (c : Scan) (s : RxState) (W U : List RxBuf) : Prop where
  bounded : Bounded s W U
  record : c.bf = W.length ∨ c.bf = 0 ∧ W ≠ []
  cnt : c.cnt + 1 ≤ s.cfg.numrxbufs - 1

theorem Bounded.scanning_start (hb : Bounded s W U) : Scanning (.start s) s W U := by
  refine ⟨hb, ?_, ?_⟩
  · by_cases hW : W = []
    · exact .inl (by rw [hW]; rfl)
    · exact .inr ⟨rfl, hW⟩
  · have hthree := s.cfg.three_le_bufs
    show 0 + 1 ≤ s.cfg.numrxbufs - 1
    omega

def scanMeasure (c : Scan) (s : RxState) : ℕ :=
  atHand s * s.cfg.numrxbufs + (s.cfg.numrxbufs - 1 - c.cnt)

/-- A free record is the next one. -/
theorem Scanning.next_record {c : Scan} {bf : RxBuf} (hs : Scanning c s W U)
    (hrecord : s.scRxbuf[c.bf]? = some bf) (hfree : bf.done = false) :
    c.bf = W.length ∧ ∃ U', U = bf :: U' := by
  have hlist := hs.bounded.waiting.list
  rcases hs.record with hbf | ⟨hzero, hne⟩
  · refine ⟨hbf, ?_⟩
    rw [hlist, hbf, List.getElem?_append_right (le_refl _), Nat.sub_self] at hrecord
    cases U with
    | nil => cases hrecord
    | cons u U' =>
        obtain rfl := Option.some.inj hrecord
        exact ⟨U', rfl⟩
  · obtain ⟨w, W', rfl⟩ := List.exists_cons_of_ne_nil hne
    rw [hlist, hzero] at hrecord
    obtain rfl := Option.some.inj hrecord
    have hdone := (hs.bounded.waiting.waiting w List.mem_cons_self).1
    rw [hfree] at hdone
    cases hdone

theorem Bounded.note {u : RxBuf} (hb : Bounded s W (u :: U)) (ds : DescId) (b : BufId) :
    Bounded (note s W.length ds b) W
      ({ u with rsDatalen := (s.desc ds).dataLen, rsMore := (s.desc ds).rxMore } :: U) where
  waiting := hb.waiting.note ds b
  records := by
    rw [note_scRxbuf, List.length_modify, (note_noted ..).cfg]
    exact hb.records
  buffers := by
    have hrecord : s.scRxbuf[W.length]? = some u := by
      rw [hb.waiting.list, List.getElem?_append_right (le_refl _), Nat.sub_self]
      rfl
    rw [buffers_note hrecord, (note_noted ..).cfg]
    exact hb.buffers

theorem Bounded.turned {l' : List DescId} {h' : DescId} {out : List BufId} (hb : Bounded s W U)
    (hr : Ring s l h) (t : Turned s s' l l' h' out) : Bounded s' W U where
  waiting := hb.waiting.congr t.scRxbuf
  records := by
    rw [t.scRxbuf, t.cfg]
    exact hb.records
  buffers := by
    have hcard := congrArg Multiset.card (t.buffers hr)
    rw [Multiset.card_add] at hcard
    have hle := hb.buffers
    rw [t.cfg]
    omega

theorem onRing_ne_nil {b : BufId} (hb : (s.desc ds).dsNbuf = some b) :
    onRing s (Q ++ [ds]) ≠ [] := by
  rw [onRing_append, onRing_cons hb]
  exact List.append_ne_nil_of_right_ne_nil _ (List.cons_ne_nil b _)

/-- The buffers taken off the ring go into the first free record. -/
theorem Bounded.recordFrame {u : RxBuf} {l' : List DescId} {h' : DescId} {s₀ : RxState}
    {frags : List BufId} (hb : Bounded s W (u :: U)) (t : Turned s₀ s l l' h' frags)
    (hr : Ring s₀ l h) (hle : (Rx.buffers s₀).card ≤ s₀.cfg.numrxdescs) (hfrags : frags ≠ [])
    (len : ℕ) : Bounded (recordFrame s W.length len frags)
      (W ++ [{ u with rsDatalen := len, bfSkb := some frags, done := true }]) U where
  waiting := hb.waiting.recordFrame len hfrags
  records := (List.length_modify ..).trans hb.records
  buffers := by
    have hrecord : s.scRxbuf[W.length]? = some u := by
      rw [hb.waiting.list, List.getElem?_append_right (le_refl _), Nat.sub_self]
      rfl
    have hnone := (hb.waiting.free u List.mem_cons_self).2
    rw [buffers_recordFrame hrecord hnone, t.buffers hr]
    exact hle.trans_eq (congrArg Config.numrxdescs t.cfg).symm

section

variable {c : Scan} {r : Round (Scan × RxState)} (hat : At c s Q ds R)
  (hs : Scanning c s W U) (hscan : Scanned s c Q ds R r)

include hat hs hscan

theorem Scanned.scanning :
    r.Sat (fun a => ∃ W U, Scanning a.1 a.2 W U) (fun s => ∃ W U, Bounded s W U) := by
  obtain ⟨⟨h, hr⟩, -, -⟩ := hat
  cases hscan with
  | dropped _ turned => exact ⟨W, U, hs.bounded.turned hr turned⟩
  | waits => exact ⟨W, U, hs.bounded⟩
  | noRecord => trivial
  | busy short =>
      have hcnt := hs.cnt
      exact ⟨W, U, hs.bounded, hs.record, show c.cnt + 1 + 1 ≤ s.cfg.numrxbufs - 1 by omega⟩
  | @segment bf b d R' short hrecord hfree =>
      have hcnt := hs.cnt
      obtain ⟨hbf, U', rfl⟩ := hs.next_record hrecord hfree
      rw [hbf]
      refine ⟨W, _, hs.bounded.note ds b, .inl rfl, ?_⟩
      rw [(note_noted ..).cfg]
      show c.cnt + 1 + 1 ≤ s.cfg.numrxbufs - 1
      omega
  | @finished bf b d nds R' s' F h' _ hrecord hfree hnbuf _ _ _ _ turned =>
      obtain ⟨hbf, U', rfl⟩ := hs.next_record hrecord hfree
      rw [hbf] at turned ⊢
      have hring := (note_noted s W.length ds b).ring hr
      have hbounded := (hs.bounded.note ds b).turned hring turned
      refine ⟨_, _, hbounded.recordFrame turned hring (hs.bounded.note ds b).buffers
        (onRing_ne_nil hnbuf) _, .inl ?_, ?_⟩
      · rw [List.length_append, List.length_singleton]
      · show 0 + 1 ≤ s'.cfg.numrxbufs - 1
        have hthree := s'.cfg.three_le_bufs
        omega

/-- A round that goes on takes buffers off the ring, or gets nearer to the longest packet. -/
theorem Scanned.progress : r.Ok fun a => scanMeasure a.1 a.2 < scanMeasure c s := by
  obtain ⟨⟨h, hr⟩, -, -⟩ := hat
  have hcnt := hs.cnt
  have hthree := s.cfg.three_le_bufs
  cases hscan with
  | dropped => trivial
  | waits => trivial
  | noRecord _ hrecord =>
      have hU := hs.bounded.free_record hr (by simp)
      rw [hs.bounded.waiting.list, List.getElem?_eq_none_iff, List.length_append] at hrecord
      have hpos := List.length_pos_of_ne_nil hU
      have hbf := hs.record
      show False
      omega
  | busy =>
      show atHand s * s.cfg.numrxbufs + (s.cfg.numrxbufs - 1 - (c.cnt + 1)) < scanMeasure c s
      rw [scanMeasure]
      omega
  | @segment bf b =>
      have hn := note_noted s c.bf ds b
      show atHand (note s c.bf ds b) * (note s c.bf ds b).cfg.numrxbufs +
        ((note s c.bf ds b).cfg.numrxbufs - 1 - (c.cnt + 1)) < scanMeasure c s
      rw [scanMeasure, atHand, hn.pool, hn.onDescs, hn.cfg, atHand]
      omega
  | @finished bf b d nds R' s' F h' _ _ _ hnbuf _ _ _ _ turned =>
      have hn := note_noted s c.bf ds b
      have hless := turned.atHand (hn.ring hr)
      have hpos := List.length_pos_of_ne_nil (onRing_ne_nil (s := s) (Q := Q) hnbuf)
      rw [atHand.eq_1 (note s c.bf ds b), hn.pool, hn.onDescs] at hless
      show atHand s' * s'.cfg.numrxbufs + (s'.cfg.numrxbufs - 1 - 0) < scanMeasure c s
      rw [scanMeasure, turned.cfg, hn.cfg, atHand.eq_1 s, ← hless, Nat.add_mul]
      have hmul : 1 * s.cfg.numrxbufs ≤
          (onRing s (Q ++ [ds])).length * s.cfg.numrxbufs := Nat.mul_le_mul_right _ hpos
      omega

end

/-! ## Runs -/

/-- A flush finds no frame in a record. -/
def FlushesIdle : RxState → Event → Prop
  | s, .flushRecv => ∀ bf ∈ s.scRxbuf, bf.bfSkb = none
  | _, _ => True

instance (s : RxState) (e : Event) : Decidable (FlushesIdle s e) :=
  match e with
  | .flushRecv => inferInstanceAs (Decidable (∀ bf ∈ s.scRxbuf, bf.bfSkb = none))
  | .startRecv | .stopRecv | .receive _ | .advance | .interrupt _ | .tasklet _ | .complete _ =>
    .isTrue trivial

theorem bounded_attach (cfg : Config) :
    Bounded (attach cfg) [] (List.replicate cfg.numrxdescs {}) where
  waiting := by
    refine ⟨rfl, by simp, fun bf hbf => ?_⟩
    rw [List.eq_of_mem_replicate hbf]
    exact ⟨rfl, rfl⟩
  records := List.length_replicate
  buffers := by
    rw [(accounted_attach cfg).buffers, Multiset.card_range]
    exact le_refl _

theorem Bounded.accounted (hb : Bounded s W U) : Accounted s.cfg (Rx.buffers s) s :=
  ⟨rfl, rfl, hb.waiting.recordsEmpty⟩

/-- The records have not changed, and no buffer has come. -/
theorem Bounded.congr {all : Multiset BufId} (hb : Bounded s W U) (ha : Accounted s.cfg all s')
    (hle : all.card ≤ (Rx.buffers s).card) (hbuf : s'.scRxbuf = s.scRxbuf) : Bounded s' W U where
  waiting := hb.waiting.congr hbuf
  records := by
    rw [hbuf, ha.config]
    exact hb.records
  buffers := by
    rw [ha.buffers, ha.config]
    exact hle.trans hb.buffers

theorem Bounded.handOver {bf : RxBuf} {rest : List RxBuf} {skb : List BufId}
    (hb : Bounded s W U) (hbuf : s.scRxbuf = bf :: rest) (hdone : bf.done = true)
    (hskb : bf.bfSkb = some skb) :
    ∃ W' U', W = bf :: W' ∧ Bounded (handOver s bf rest skb) W' U' := by
  obtain ⟨W', rfl, hw⟩ := hb.waiting.handOver skb hbuf hdone
  refine ⟨W', _, rfl, hw, ?_, ?_⟩
  · refine Eq.trans ?_ hb.records
    rw [hbuf]
    exact List.length_append
  · rw [(hb.accounted.handOver hbuf hskb).buffers]
    exact hb.buffers

theorem Bounded.step {e : Event} (hb : Bounded s W U) (hattached : Attached s)
    (he : FlushesIdle s e) (hs : step e s = some s') : ∃ W U, Bounded s' W U := by
  by_cases hstart : e = .startRecv
  · subst hstart
    have ha := hb.accounted.startrecv hattached hs
    obtain ⟨p, rest, s₁, B, h', -, -, hst, rfl⟩ := hattached.startrecv hs
    exact ⟨W, U, hb.congr ha (le_refl _) hst.scRxbuf⟩
  rcases hattached with ⟨cfg', rfl⟩ | hr
  · obtain rfl := step_attach hs hstart
    exact ⟨W, U, hb⟩
  cases e with
  | startRecv => exact absurd rfl hstart
  | stopRecv =>
      have ha := hb.accounted.step (e := .stopRecv) (.inr hr) trivial hs
      obtain rfl := Option.some.inj hs
      exact ⟨W, U, hb.congr ha (le_refl _) rfl⟩
  | flushRecv =>
      have ha := hb.accounted.step (e := .flushRecv) (.inr hr) he hs
      refine ⟨W, U, hb.congr ha (le_refl _) ?_⟩
      rcases athFlushrecvTgt_cases hs with rfl | rfl
      · rfl
      · refine (List.map_congr_left fun bf hbf => ?_).trans (List.map_id _)
        show { bf with bfSkb := none } = bf
        rw [← he bf hbf]
  | receive seg =>
      have ha := hb.accounted.step (e := .receive seg) (.inr hr) trivial hs
      obtain ⟨ds, b, -, -, -, rfl⟩ := hwReceive_cases hs
      exact ⟨W, U, hb.congr ha (le_refl _) rfl⟩
  | advance =>
      have ha := hb.accounted.step (e := .advance) (.inr hr) trivial hs
      obtain ⟨ds, next, -, -, -, rfl⟩ := hwAdvance_cases hs
      exact ⟨W, U, hb.congr ha (le_refl _) rfl⟩
  | interrupt rounds =>
      obtain ⟨l, h, hr, hl⟩ := hr
      refine (scanLoop_rule (P := fun c s => ∃ W U, Scanning c s W U)
        (O := fun s => ∃ W U, Bounded s W U) ?_ rounds (hr.at_start hl) ?_ hs).1
      · rintro s c Q ds R r hat ⟨W, U, hscanning⟩ hscan
        exact hscan.scanning hat hscanning
      · exact ⟨W, U, hb.scanning_start⟩
  | tasklet rounds =>
      refine tasklet_rule (P := fun s => ∃ W U, Bounded s W U) ?_ rounds ⟨W, U, hb⟩ hs
      rintro s bf rest skb hbuf hdone hskb ⟨W, U, hb⟩
      obtain ⟨W', U', -, hb'⟩ := hb.handOver hbuf hdone hskb
      exact ⟨W', U', hb'⟩
  | complete i =>
      obtain ⟨l, h, hr, hl⟩ := hr
      obtain ⟨frags, hi, -⟩ := Option.map_eq_some_iff.mp hs
      obtain ⟨rest, ha, hrest⟩ := hb.accounted.complete hr hi hs
      obtain ⟨F, h', hfilled⟩ := hr.complete hi hs
      refine ⟨W, U, hb.congr ha ?_ hfilled.scRxbuf⟩
      rw [← hrest, Multiset.card_add]
      exact Nat.le_add_right _ _

/-- The tasklet returns once it has handed the frames over that wait. -/
theorem Bounded.tasklet_returns (W : List RxBuf) : ∀ {s : RxState} {U : List RxBuf},
    Bounded s W U → ∃ n s', athTgtRxTasklet n s = some s' := by
  induction W with
  | nil =>
      intro s U hb
      refine ⟨1, s, ?_⟩
      have hlist := hb.waiting.list
      cases U with
      | nil => simp only [athTgtRxTasklet, taskletRound, hlist, List.append_nil]
      | cons u U =>
          have hfree : ¬ u.done = true := by
            rw [(hb.waiting.free u List.mem_cons_self).1]
            exact Bool.false_ne_true
          simp only [athTgtRxTasklet, taskletRound, hlist, List.nil_append, if_neg hfree]
  | cons bf W ih =>
      intro s U hb
      obtain ⟨hdone, skb, hskb, -⟩ := hb.waiting.waiting bf List.mem_cons_self
      obtain ⟨W', U', hW, hb'⟩ := hb.handOver hb.waiting.list hdone hskb
      obtain rfl := (List.cons.inj hW).2
      obtain ⟨n, s', hrun⟩ := ih hb'
      refine ⟨n + 1, s', ?_⟩
      rw [athTgtRxTasklet, taskletRound_handOver hb.waiting.list hdone hskb]
      exact hrun

theorem Bounded.scan_returns (hb : Bounded s W U) (hattached : Attached s) :
    ∃ n s', athUapsdProcesstriggers n s = some s' := by
  rcases hattached with ⟨cfg, rfl⟩ | ⟨l, h, hr, hl⟩
  · refine ⟨1, attach cfg, ?_⟩
    rw [athUapsdProcesstriggers, scanLoop, scanRound_attach]
  · refine scanLoop_total (P := fun c s => ∃ W U, Scanning c s W U) scanMeasure ?_ _ rfl (hr.at_start hl)
      ⟨W, U, hb.scanning_start⟩
    rintro s c Q ds R r hat ⟨W, U, hscanning⟩ hscan
    have hkeep := hscan.scanning hat hscanning
    have hless := hscan.progress hat hscanning
    cases r with
    | more a => exact ⟨hkeep, hless⟩
    | stop s => trivial
    | fault => exact hless

/-- Both handlers return, whatever has happened, and neither meets a null record. -/
theorem rx_handlers_return (hs : receive.ReachableWhere FlushesIdle s) :
    (∃ n s', athTgtRxTasklet n s = some s') ∧ ∃ n s', athUapsdProcesstriggers n s = some s' := by
  have hinv : Attached s ∧ ∃ W U, Bounded s W U := by
    refine hs.invariant (P := fun s => Attached s ∧ ∃ W U, Bounded s W U) ?_ ?_
    · rintro _ ⟨cfg, rfl⟩
      exact ⟨.inl ⟨cfg, rfl⟩, [], _, bounded_attach cfg⟩
    · rintro s e s' ⟨hattached, W, U, hb⟩ he hstep
      exact ⟨hattached.step hstep, hb.step hattached he hstep⟩
  obtain ⟨hattached, W, U, hb⟩ := hinv
  exact ⟨hb.tasklet_returns W, hb.scan_returns hattached⟩

theorem rx_handlers_return_run : ∃ s : RxState, s.scRxdescIdle = [1] ∧
    (∃ n s', athTgtRxTasklet n s = some s') ∧ ∃ n s', athUapsdProcesstriggers n s = some s' := by
  obtain ⟨s, steps, hidle⟩ := Machine.exists_of_runWhere receive.Init step FlushesIdle
    (P := fun s => s.scRxdescIdle = [1]) (s := attach smallConfig)
    [.flushRecv, .startRecv, .receive shortFrame, .advance, .receive shortFrame, .advance,
      .interrupt 9] (by decide +kernel)
  exact ⟨s, hidle, rx_handlers_return ⟨_, ⟨smallConfig, rfl⟩, steps⟩⟩

/-- A record that is done without a frame is looked at for ever. -/
theorem tasklet_spins {bf : RxBuf} {rest : List RxBuf} (hbuf : s.scRxbuf = bf :: rest)
    (hdone : bf.done = true) (hskb : bf.bfSkb = none) (n : ℕ) : athTgtRxTasklet n s = none := by
  induction n with
  | zero => rfl
  | succ n ih =>
      simp only [athTgtRxTasklet, taskletRound, hbuf, if_pos hdone, hskb]
      exact ih

/-- A flush takes the frame of a record but leaves it done. -/
theorem flush_wedges_tasklet :
    ¬ ∀ s, receive.Reachable s → (∃ n s', athTgtRxTasklet n s = some s') ∧
      ∃ n s', athUapsdProcesstriggers n s = some s' := by
  intro hall
  obtain ⟨s, steps, hhead⟩ := Machine.exists_of_runWhere receive.Init step (fun _ _ => True)
    (P := fun s => ∃ bf ∈ s.scRxbuf.head?, bf.done = true ∧ bf.bfSkb = none)
    (s := attach smallConfig)
    [.startRecv, .receive shortFrame, .advance, .interrupt 9, .flushRecv] (by decide +kernel)
  obtain ⟨bf, hbf, hdone, hskb⟩ := hhead
  obtain ⟨rest, hbuf⟩ := List.head?_eq_some_iff.mp hbf
  obtain ⟨⟨n, s', hrun⟩, -⟩ := hall s ⟨_, ⟨smallConfig, rfl⟩, steps⟩
  rw [tasklet_spins hbuf hdone hskb n] at hrun
  cases hrun

end Ath9kHtc.Rx
