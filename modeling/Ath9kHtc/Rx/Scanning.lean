import Ath9kHtc.Rx.Refill

/-!
# The scan of the ring

What a round of `ath_uapsd_processtriggers` can do, said once.
-/

namespace Ath9kHtc.Rx

variable {s s' : RxState} {l R F : List DescId} {h q ds : DescId} {b : BufId} {pool : List BufId}

/-- The rounds over a part of the ring at its beginning. -/
theorem Ring.recycleRun {take : DescId → Taking → Option Taking} {o : BufId → List BufId}
    {p : BufId → List BufId → List BufId} {P : List DescId} (hr : Ring s (P ++ R) h)
    (ht : Takes take o p) (hP : q ∈ P.head?) (hds : ds ∈ P.getLast?)
    (hR : R ≠ [] ∨ ∀ b bs, p b bs ≠ []) :
    ∃ s' F h', recycleRun take ds s.scRxdesc.length q ([], s) = some ((onRing s P).flatMap o, s') ∧
      Turned s s' (P ++ R) (R ++ F) h' ((onRing s P).flatMap o) ∧
      ((∀ b bs, ∀ x ∈ p b bs, x ∈ bs) →
        Kept s s' s.pool (P ++ R) R F ∧ ∀ b ∈ s'.pool, b ∈ s.pool) := by
  obtain ⟨Q, rfl⟩ := List.head?_eq_some_iff.mp hP
  refine recycleRun_spec ht Q _ q h s R [] hr hR hds ?_
  rw [hr.list]
  simp only [List.cons_append, List.length_cons, List.length_append]
  omega

/-- The note of a descriptor the hardware is done with, in its buffer and in the record. -/
def note (s : RxState) (i : ℕ) (ds : DescId) (b : BufId) : RxState :=
  modRxbuf
    (if (s.nbuf b).len = 0 then s.modNbuf b fun n => { n with len := (s.desc ds).dataLen } else s)
    i fun bf => { bf with rsDatalen := (s.desc ds).dataLen, rsMore := (s.desc ds).rxMore }

/-- What a note leaves alone. -/
structure Noted (s s' : RxState) : Prop where
  cfg : s'.cfg = s.cfg
  desc : s'.desc = s.desc
  list : s'.scRxdesc = s.scRxdesc
  idle : s'.scRxdescIdle = s.scRxdescIdle
  held : s'.scRxdescHeld = s.scRxdescHeld
  rxlink : s'.scRxlink = s.scRxlink
  pool : s'.pool = s.pool
  inTransfer : s'.inTransfer = s.inTransfer
  rxdp : s'.rxdp = s.rxdp
  received : s'.received = s.received
  handed : s'.handed = s.handed

theorem note_noted (s : RxState) (i : ℕ) (ds : DescId) (b : BufId) : Noted s (note s i ds b) := by
  rw [note]
  split <;> exact ⟨rfl, rfl, rfl, rfl, rfl, rfl, rfl, rfl, rfl, rfl, rfl⟩

theorem note_scRxbuf (s : RxState) (i : ℕ) (ds : DescId) (b : BufId) :
    (note s i ds b).scRxbuf = s.scRxbuf.modify i fun bf =>
      { bf with rsDatalen := (s.desc ds).dataLen, rsMore := (s.desc ds).rxMore } := by
  rw [note]
  split <;> rfl

theorem Noted.ring (hn : Noted s s') (hr : Ring s l h) : Ring s' l h :=
  hr.congr hn.cfg hn.list hn.idle hn.held hn.rxlink fun _ => by
    rw [hn.desc]
    exact ⟨rfl, rfl, rfl⟩

theorem Noted.onRing (hn : Noted s s') : onRing s' l = onRing s l :=
  onRing_congr fun _ _ => by rw [hn.desc]

/-- The record of a frame that is complete. -/
def recordFrame (s : RxState) (i len : ℕ) (frags : List BufId) : RxState :=
  modRxbuf s i fun bf => { bf with rsDatalen := len, bfSkb := some frags, done := true }

/-- What a round at the descriptor `ds` of the ring can do, where `Q` are the descriptors of the
frame before it and `R` those behind it. -/
inductive Scanned (s : RxState) (c : Scan) (Q : List DescId) (ds : DescId) (R : List DescId) :
    Round (Scan × RxState) → Prop
  | dropped {s' : RxState} {F : List DescId} {h' : DescId}
      (long : c.cnt + 1 = s.cfg.numrxbufs - 1)
      (turned : Turned s s' (Q ++ ds :: R) (R ++ F) h' []) : Scanned s c Q ds R (.stop s')
  | waits (short : c.cnt + 1 ≠ s.cfg.numrxbufs - 1) : Scanned s c Q ds R (.stop s)
  | noRecord (short : c.cnt + 1 ≠ s.cfg.numrxbufs - 1) (record : s.scRxbuf[c.bf]? = none) :
      Scanned s c Q ds R .fault
  | busy {bf : RxBuf} (short : c.cnt + 1 ≠ s.cfg.numrxbufs - 1)
      (record : s.scRxbuf[c.bf]? = some bf) (done : bf.done = true) :
      Scanned s c Q ds R (.more ({ c with cnt := c.cnt + 1 }, s))
  | segment {bf : RxBuf} {b : BufId} {d : DescId} {R' : List DescId}
      (short : c.cnt + 1 ≠ s.cfg.numrxbufs - 1)
      (record : s.scRxbuf[c.bf]? = some bf) (free : bf.done = false)
      (nbuf : (s.desc ds).dsNbuf = some b) (rest : R = d :: R')
      (done : (s.desc ds).rxDone = true) (more : (s.desc ds).rxMore = true) :
      Scanned s c Q ds R (.more
        ({ c with
            cnt := c.cnt + 1
            ds := some d
            frameLen := (c.frameLen + (s.desc ds).dataLen) % 65536 }, note s c.bf ds b))
  | finished {bf : RxBuf} {b : BufId} {d nds : DescId} {R' : List DescId} {s' : RxState}
      {F : List DescId} {h' : DescId}
      (short : c.cnt + 1 ≠ s.cfg.numrxbufs - 1)
      (record : s.scRxbuf[c.bf]? = some bf) (free : bf.done = false)
      (nbuf : (s.desc ds).dsNbuf = some b) (rest : R = d :: R')
      (link : (s.desc ds).dsLink = some nds) (passed : inProgress s ds nds = false)
      (more : (s.desc ds).rxMore = false)
      (turned : Turned (note s c.bf ds b) s' (Q ++ ds :: R) (R ++ F) h'
        (onRing s (Q ++ [ds])))
      (kept : Kept (note s c.bf ds b) s' s.pool (Q ++ ds :: R) R F) :
      Scanned s c Q ds R (.more
        ({ cnt := 0, ds := some d, dsHead := some d, frameLen := 0, bf := c.bf + 1 },
          recordFrame s' c.bf ((c.frameLen + (s.desc ds).dataLen) % 65536) (onRing s (Q ++ [ds]))))

theorem scanDone_eq {c : Scan} (hb : (s.desc ds).dsNbuf = some b) : scanDone s c ds =
    if (s.desc ds).rxMore then
      .more ({ c with
        cnt := c.cnt + 1
        ds := (note s c.bf ds b).next ds
        frameLen := (c.frameLen + (s.desc ds).dataLen) % 65536 }, note s c.bf ds b)
    else
      finishFrame (note s c.bf ds b) c ds ((c.frameLen + (s.desc ds).dataLen) % 65536) := by
  simp only [scanDone, putData, hb, Option.map_some]
  rfl

theorem Ring.next_eq {Q : List DescId} {d : DescId} (hr : Ring s (Q ++ ds :: d :: R) h) :
    s.next ds = some d := by
  refine Rx.next_eq (A := Q) (B := d :: R ++ [h]) (by rw [hr.list]; simp) ?_
  intro hmem
  have hnodup := (List.nodup_append.mp hr.nodup).1
  exact (List.nodup_append.mp hnodup).2.2 ds hmem ds List.mem_cons_self rfl

theorem Ring.rest_ne_nil {Q : List DescId} {d : DescId} (hr : Ring s (Q ++ ds :: R) h)
    (hlink : (s.desc ds).dsLink = some d) : R ≠ [] := by
  rintro rfl
  rw [hr.last ds (List.getLast?_concat)] at hlink
  cases hlink

section

variable {c : Scan} {Q : List DescId} (hr : Ring s (Q ++ ds :: R) h)
  (hhead : c.dsHead = (Q ++ [ds]).head?)

include hr hhead

theorem dropLong_spec : ∃ s' F h', dropLong s c ds = .stop s' ∧
    Turned s s' (Q ++ ds :: R) (R ++ F) h' [] := by
  obtain ⟨head, hsome⟩ : ∃ head, (Q ++ [ds]).head? = some head := by
    cases Q <;> exact ⟨_, rfl⟩
  rw [List.append_cons] at hr
  obtain ⟨s', F, h', hrun, hturned, -⟩ := hr.recycleRun dropNbuf_takes hsome
    (List.getLast?_concat) (.inr fun b bs => List.cons_ne_nil b bs)
  have hnil : (onRing s (Q ++ [ds])).flatMap (fun _ => ([] : List BufId)) = [] := by
    simp
  rw [hnil] at hrun hturned
  refine ⟨s', F, h', ?_, ?_⟩
  · simp only [dropLong, hhead, hsome, hrun]
  · rw [List.append_cons]
    exact hturned

theorem finishFrame_spec (hR : R ≠ []) (len : ℕ) : ∃ d R' s' F h', R = d :: R' ∧
    finishFrame s c ds len = .more
      ({ cnt := 0, ds := some d, dsHead := some d, frameLen := 0, bf := c.bf + 1 },
        recordFrame s' c.bf len (onRing s (Q ++ [ds]))) ∧
    Turned s s' (Q ++ ds :: R) (R ++ F) h' (onRing s (Q ++ [ds])) ∧
    Kept s s' s.pool (Q ++ ds :: R) R F := by
  obtain ⟨head, hsome⟩ : ∃ head, (Q ++ [ds]).head? = some head := by
    cases Q <;> exact ⟨_, rfl⟩
  obtain ⟨d, R', rfl⟩ := List.exists_cons_of_ne_nil hR
  have hnext : s.next ds = some d := hr.next_eq
  rw [List.append_cons] at hr
  obtain ⟨s', F, h', hrun, hturned, hkept⟩ := hr.recycleRun queueNbuf_takes hsome
    (List.getLast?_concat) (.inl hR)
  obtain ⟨hkept, -⟩ := hkept fun _ _ _ hx => hx
  rw [List.flatMap_singleton'] at hrun hturned
  refine ⟨d, R', s', F, h', rfl, ?_, ?_, ?_⟩
  · simp only [finishFrame, hhead, hsome, hrun, hnext]
    rfl
  · rw [List.append_cons Q]
    exact hturned
  · rw [List.append_cons Q]
    exact hkept

theorem scanRound_spec (hds : c.ds = some ds) : Scanned s c Q ds R (scanRound c s) := by
  by_cases hlong : c.cnt + 1 = s.cfg.numrxbufs - 1
  · obtain ⟨s', F, h', hdrop, hturned⟩ := dropLong_spec hr hhead
    have heq : scanRound c s = .stop s' := by
      simp only [scanRound, hds, if_pos hlong, hdrop]
    rw [heq]
    exact .dropped hlong hturned
  cases hlink : (s.desc ds).dsLink with
  | none =>
      have heq : scanRound c s = .stop s := by
        simp only [scanRound, hds, if_neg hlong, hlink]
      rw [heq]
      exact .waits hlong
  | some nds =>
      cases hrecord : s.scRxbuf[c.bf]? with
      | none =>
          have heq : scanRound c s = .fault := by
            simp only [scanRound, hds, if_neg hlong, hlink, hrecord]
          rw [heq]
          exact .noRecord hlong hrecord
      | some bf =>
          by_cases hbusy : bf.done = true
          · have heq : scanRound c s = .more ({ c with cnt := c.cnt + 1 }, s) := by
              simp only [scanRound, hds, if_neg hlong, hlink, hrecord, if_pos hbusy]
            rw [heq]
            exact .busy hlong hrecord hbusy
          by_cases hwait : inProgress s ds nds = true
          · have heq : scanRound c s = .stop s := by
              simp only [scanRound, hds, if_neg hlong, hlink, hrecord, if_neg hbusy, if_pos hwait]
            rw [heq]
            exact .waits hlong
          have hR : R ≠ [] := hr.rest_ne_nil hlink
          have hdone : (s.desc ds).rxDone = true := by
            by_contra hnot
            exact hwait (by simp [inProgress, hnot])
          obtain ⟨b, hb, -⟩ := hr.loaded ds (by simp)
          have heq : scanRound c s = scanDone s c ds := by
            simp only [scanRound, hds, if_neg hlong, hlink, hrecord, if_neg hbusy, if_neg hwait]
          rw [heq, scanDone_eq hb]
          split
          · rename_i hmore
            obtain ⟨d, R', rfl⟩ := List.exists_cons_of_ne_nil hR
            have hn := note_noted s c.bf ds b
            rw [(hn.ring hr).next_eq]
            exact .segment hlong hrecord (by simpa using hbusy) hb rfl hdone hmore
          · rename_i hmore
            have hn := note_noted s c.bf ds b
            obtain ⟨d, R', s', F, h', rfl, hfinish, hturned, hkept⟩ := finishFrame_spec (hn.ring hr)
              hhead hR ((c.frameLen + (s.desc ds).dataLen) % 65536)
            rw [hfinish]
            rw [hn.onRing] at hturned ⊢
            rw [hn.pool] at hkept
            exact .finished hlong hrecord (by simpa using hbusy) hb rfl hlink (by simpa using hwait)
              (by simpa using hmore) hturned hkept

end

/-! ## The loop -/

/-- Some descriptors are armed. -/
def Running (s : RxState) : Prop := ∃ l h, Ring s l h ∧ l ≠ []

/-- The scan is at an armed descriptor. -/
def At (c : Scan) (s : RxState) (Q : List DescId) (ds : DescId) (R : List DescId) : Prop :=
  (∃ h, Ring s (Q ++ ds :: R) h) ∧ c.ds = some ds ∧ c.dsHead = (Q ++ [ds]).head?

/-- A round that goes on meets `P`, a round that is the last one `O`. -/
def Round.Sat {α : Type} (P : α → Prop) (O : RxState → Prop) : Round α → Prop
  | .more a => P a
  | .stop s => O s
  | .fault => True

theorem Scanned.at_next {c : Scan} {Q : List DescId} {r : Round (Scan × RxState)}
    (hat : At c s Q ds R) (hs : Scanned s c Q ds R r) :
    r.Sat (fun a => ∃ Q ds R, At a.1 a.2 Q ds R) Running := by
  obtain ⟨⟨h, hr⟩, hds, hhead⟩ := hat
  cases hs with
  | dropped _ turned => exact ⟨_, _, turned.ring, turned.nonempty⟩
  | waits => exact ⟨_, h, hr, by simp⟩
  | noRecord => trivial
  | busy => exact ⟨Q, ds, R, ⟨h, hr⟩, hds, hhead⟩
  | @segment bf b d R' _ _ _ _ hrest =>
      subst hrest
      refine ⟨Q ++ [ds], d, R', ⟨h, ?_⟩, rfl, ?_⟩
      · rw [List.append_assoc]
        exact (note_noted s c.bf ds b).ring hr
      · show c.dsHead = _
        rw [hhead]
        cases Q <;> rfl
  | @finished bf b d nds R' s' F h' _ _ _ _ hrest _ _ _ turned =>
      subst hrest
      refine ⟨[], d, R' ++ F, ⟨h', ?_⟩, rfl, rfl⟩
      exact turned.ring.congr rfl rfl rfl rfl rfl fun _ => ⟨rfl, rfl, rfl⟩

/-- What every round keeps holds at the end of the loop. -/
theorem scanLoop_rule {P : Scan → RxState → Prop} {O : RxState → Prop}
    (hround : ∀ {s c Q ds R r}, At c s Q ds R → P c s → Scanned s c Q ds R r →
      r.Sat (fun a => P a.1 a.2) O)
    (n : ℕ) : ∀ {c s s'}, (∃ Q ds R, At c s Q ds R) → P c s → scanLoop n c s = some s' →
      O s' ∧ Running s' := by
  induction n with
  | zero => simp [scanLoop]
  | succ n ih =>
      intro c s s' hat hP hrun
      obtain ⟨Q, ds, R, hat⟩ := hat
      have hscan : Scanned s c Q ds R (scanRound c s) := by
        obtain ⟨⟨h, hr⟩, hds, hhead⟩ := hat
        exact scanRound_spec hr hhead hds
      have hnext := hscan.at_next hat
      have hP' := hround hat hP hscan
      rw [scanLoop] at hrun
      cases hcase : scanRound c s with
      | more a =>
          rw [hcase] at hrun hnext hP'
          exact ih hnext hP' hrun
      | stop s'' =>
          rw [hcase] at hrun hnext hP'
          obtain rfl := Option.some.inj hrun
          exact ⟨hP', hnext⟩
      | fault =>
          rw [hcase] at hrun
          cases hrun

theorem Ring.at_start {l : List DescId} (hr : Ring s l h) (hl : l ≠ []) :
    ∃ Q ds R, At (.start s) s Q ds R := by
  obtain ⟨ds, R, rfl⟩ := List.exists_cons_of_ne_nil hl
  have hfirst : s.scRxdesc.head? = some ds := by
    rw [hr.list]
    rfl
  exact ⟨[], ds, R, ⟨h, hr⟩, hfirst, hfirst⟩

/-! ## The tasklet -/

/-- The frame of the first record goes to the host. -/
def handOver (s : RxState) (bf : RxBuf) (rest : List RxBuf) (skb : List BufId) : RxState :=
  { s with
    scRxbuf := rest ++ [{ bf with bfSkb := none, done := false }]
    inTransfer := s.inTransfer ++ [skb]
    handed := s.handed ++ [⟨s.frameData skb, bf.rsDatalen⟩] }

theorem taskletRound_handOver {bf : RxBuf} {rest : List RxBuf} {skb : List BufId}
    (hbuf : s.scRxbuf = bf :: rest) (hdone : bf.done = true) (hskb : bf.bfSkb = some skb) :
    taskletRound s = .more (handOver s bf rest skb) := by
  simp only [taskletRound, hbuf, if_pos hdone, hskb]
  rfl

/-- What handing a frame over keeps holds when the tasklet returns. -/
theorem tasklet_rule {P : RxState → Prop}
    (hhand : ∀ {s bf rest skb}, s.scRxbuf = bf :: rest → bf.done = true → bf.bfSkb = some skb →
      P s → P (handOver s bf rest skb))
    (n : ℕ) : ∀ {s s'}, P s → athTgtRxTasklet n s = some s' → P s' := by
  induction n with
  | zero => simp [athTgtRxTasklet]
  | succ n ih =>
      intro s s' hP hrun
      rw [athTgtRxTasklet] at hrun
      cases hbuf : s.scRxbuf with
      | nil =>
          simp only [taskletRound, hbuf] at hrun
          obtain rfl := Option.some.inj hrun
          exact hP
      | cons bf rest =>
          by_cases hdone : bf.done = true
          · cases hskb : bf.bfSkb with
            | none =>
                simp only [taskletRound, hbuf, if_pos hdone, hskb] at hrun
                exact ih hP hrun
            | some skb =>
                rw [taskletRound_handOver hbuf hdone hskb] at hrun
                exact ih (hhand hbuf hdone hskb hP) hrun
          · simp only [taskletRound, hbuf, if_neg hdone] at hrun
            obtain rfl := Option.some.inj hrun
            exact hP

/-! ## Completions and starts -/

theorem Ring.complete {l : List DescId} {i : ℕ} {frags : List BufId} (hr : Ring s l h)
    (hi : s.inTransfer[i]? = some frags) (hs : complete s i = some s') :
    ∃ F h', Refilled { s with inTransfer := s.inTransfer.eraseIdx i } s' l F h'
      (frags.take s.scRxdescIdle.length) := by
  rw [Rx.complete, hi, Option.map_some, Option.some.injEq] at hs
  subst hs
  exact rxCompleteLoop_spec _ frags _ l h
    (hr.congr rfl rfl rfl rfl rfl fun _ => ⟨rfl, rfl, rfl⟩) rfl

/-- All descriptors on `sc_rxdesc` but the last have buffers. -/
theorem Ring.starting {l rest : List DescId} {p : DescId} (hr : Ring s l h)
    (hlist : l ++ [h] = p :: rest) :
    Starting { s with scRxlink := none, scRxdescHeld := some p } [] p rest where
  list := by
    rw [List.nil_append, ← hlist]
    exact hr.list
  held := rfl
  perm := by
    rw [List.nil_append, ← hlist, List.append_assoc]
    exact hr.perm
  loaded := by simp
  waiting := by
    intro d hd
    rw [← hlist] at hd
    rcases List.mem_append.mp hd with hd | hd
    · exact .inr (hr.loaded d hd)
    · obtain rfl := List.mem_singleton.mp hd
      exact .inl (hr.empty d List.mem_cons_self)
  final := by
    intro d hd
    rw [← hlist, List.getLast?_concat, Option.mem_some_iff] at hd
    rw [← hd]
    exact hr.empty h List.mem_cons_self
  idle := fun d hd => hr.empty d (List.mem_cons_of_mem _ hd)
  enough := by
    have hl : l.countP (fun d => (s.desc d).dsNbuf.isNone) = 0 := by
      rw [List.countP_eq_zero]
      intro d hd
      obtain ⟨b, hb, -⟩ := hr.loaded d hd
      rw [hb]
      exact Bool.false_ne_true
    rw [← hlist, List.countP_append]
    refine le_of_eq_of_le (congrArg (· + _) hl) ?_
    rw [zero_add]
    exact List.countP_le_length.trans (Nat.le_add_left 1 _)
  last := by simp
  rxlink := rfl

/-- Nothing on `sc_rxdesc` has a buffer at first. -/
theorem starting_attach (cfg : Config) : ∃ p rest,
    (attach cfg).scRxdesc = p :: rest ∧ rest ≠ [] ∧
      Starting { attach cfg with scRxlink := none, scRxdescHeld := some p } [] p rest := by
  obtain ⟨n, hn⟩ := Nat.exists_eq_add_of_le' cfg.two_le_descs
  have hrange : List.range cfg.numrxdescs = 0 :: (List.range (n + 1)).map Nat.succ := by
    rw [hn, List.range_succ_eq_map]
  refine ⟨0, (List.range (n + 1)).map Nat.succ, hrange, ?_, ?_⟩
  · simp
  constructor
  case list => exact hrange
  case held => rfl
  case perm =>
    rw [List.nil_append]
    refine List.Perm.of_eq ?_
    exact (List.append_nil _).trans hrange.symm
  case loaded => simp
  case waiting => exact fun d _ => .inl rfl
  case final => exact fun d _ => rfl
  case idle => exact fun d _ => rfl
  case enough =>
    refine List.countP_le_length.trans ?_
    show _ ≤ (List.range cfg.numrxdescs).reverse.length + 1
    rw [List.length_reverse, List.length_range, hn]
    simp
  case last => simp
  case rxlink => rfl

/-! ## Every step leaves descriptors armed -/

/-- Before the first start nothing is on a descriptor; afterwards some descriptors are armed. -/
def Attached (s : RxState) : Prop := (∃ cfg, s = attach cfg) ∨ Running s

theorem scanRound_attach (cfg : Config) :
    scanRound (.start (attach cfg)) (attach cfg) = .stop (attach cfg) := by
  obtain ⟨n, hn⟩ := Nat.exists_eq_add_of_le' cfg.two_le_descs
  have hbufs := cfg.three_le_bufs
  have hhead : (attach cfg).scRxdesc.head? = some 0 := by
    show (List.range cfg.numrxdescs).head? = some 0
    rw [hn, List.range_succ_eq_map]
    rfl
  have hshort : ¬ 0 + 1 = (attach cfg).cfg.numrxbufs - 1 := by
    show ¬ 0 + 1 = cfg.numrxbufs - 1
    omega
  have hlink : ((attach cfg).desc 0).dsLink = some 1 := by
    show (if 0 + 1 < cfg.numrxdescs then some (0 + 1) else none) = some 1
    rw [hn]
    rfl
  have hrecord : (attach cfg).scRxbuf[0]? = some ({} : RxBuf) := by
    show (List.replicate cfg.numrxdescs ({} : RxBuf))[0]? = some ({} : RxBuf)
    rw [hn]
    rfl
  have hwait : inProgress (attach cfg) 0 1 = true := rfl
  simp only [scanRound, Scan.start, hhead, if_neg hshort, hlink, hrecord, if_pos hwait]
  rfl

/-- Nothing happens before the first start. -/
theorem step_attach {cfg : Config} {e : Event} (hs : step e (attach cfg) = some s')
    (he : e ≠ .startRecv) : s' = attach cfg := by
  obtain ⟨n, hn⟩ := Nat.exists_eq_add_of_le' cfg.two_le_descs
  have hbuf : (attach cfg).scRxbuf = ({} : RxBuf) :: List.replicate (n + 1) {} := by
    show List.replicate cfg.numrxdescs ({} : RxBuf) = _
    rw [hn]
    rfl
  cases e with
  | startRecv => exact absurd rfl he
  | stopRecv => exact (Option.some.inj hs).symm
  | flushRecv =>
      have hnone : (attach cfg).scRxbuf.any (fun bf => bf.bfSkb.isSome) = false := by
        rw [List.any_eq_false]
        intro bf hbf
        rw [List.eq_of_mem_replicate hbf]
        exact Bool.false_ne_true
      rw [step, athFlushrecvTgt, hnone] at hs
      exact (Option.some.inj hs).symm
  | receive seg => cases hs
  | advance => cases hs
  | interrupt rounds =>
      cases rounds with
      | zero => cases hs
      | succ rounds =>
          rw [step, athUapsdProcesstriggers, scanLoop, scanRound_attach] at hs
          exact (Option.some.inj hs).symm
  | tasklet rounds =>
      cases rounds with
      | zero => cases hs
      | succ rounds =>
          rw [step, athTgtRxTasklet] at hs
          simp only [taskletRound, hbuf] at hs
          exact (Option.some.inj hs).symm
  | complete i => cases hs

theorem Running.congr (hr : Running s) (hcfg : s'.cfg = s.cfg) (hlist : s'.scRxdesc = s.scRxdesc)
    (hidle : s'.scRxdescIdle = s.scRxdescIdle) (hheld : s'.scRxdescHeld = s.scRxdescHeld)
    (hlink : s'.scRxlink = s.scRxlink) (hdesc : ∀ d, (s'.desc d).dsNbuf = (s.desc d).dsNbuf ∧
      (s'.desc d).dsData = (s.desc d).dsData ∧ (s'.desc d).dsLink = (s.desc d).dsLink) :
    Running s' := by
  obtain ⟨l, h, hr, hl⟩ := hr
  exact ⟨l, h, hr.congr hcfg hlist hidle hheld hlink hdesc, hl⟩

/-- The descriptor the hardware is at is filled. -/
def filled (s : RxState) (ds : DescId) (b : BufId) (seg : Segment) : RxState :=
  let s := s.modNbuf b fun n => { n with mem := seg.bytes ++ n.mem.drop seg.bytes.length }
  let s := s.modDesc ds fun d =>
    { d with rxDone := true, dataLen := seg.bytes.length, rxMore := seg.more }
  { s with received := s.received ++ [seg] }

theorem hwReceive_cases {seg : Segment} (hs : hwReceive s seg = some s') :
    ∃ ds b, s.rxdp = some ds ∧ (s.desc ds).dsData = some b ∧ (s.desc ds).rxDone = false ∧
      s' = filled s ds b seg := by
  obtain ⟨ds, hds, hs⟩ := Option.bind_eq_some_iff.mp hs
  obtain ⟨b, hb, hs⟩ := Option.bind_eq_some_iff.mp hs
  split at hs
  · rename_i hcond
    exact ⟨ds, b, hds, hb, hcond.2.1, (Option.some.inj hs).symm⟩
  · cases hs

theorem filled_desc (s : RxState) (ds d : DescId) (b : BufId) (seg : Segment) :
    (filled s ds b seg).desc d = if d = ds then
      { s.desc d with rxDone := true, dataLen := seg.bytes.length, rxMore := seg.more }
    else s.desc d := by
  by_cases heq : d = ds
  · subst heq
    rw [if_pos rfl]
    exact Function.update_self ..
  · rw [if_neg heq]
    exact Function.update_of_ne heq ..

theorem hwAdvance_cases (hs : hwAdvance s = some s') :
    ∃ ds next, s.rxdp = some ds ∧ (s.desc ds).rxDone = true ∧ (s.desc ds).dsLink = some next ∧
      s' = { s with rxdp := some next } := by
  obtain ⟨ds, hds, hs⟩ := Option.bind_eq_some_iff.mp hs
  split at hs
  · rename_i hcond
    obtain ⟨next, hnext, hs⟩ := Option.map_eq_some_iff.mp hs
    exact ⟨ds, next, hds, hcond.2, hnext, hs.symm⟩
  · cases hs

theorem athFlushrecvTgt_cases (hs : athFlushrecvTgt s = some s') : s' = s ∨
    s' = { s with scRxbuf := s.scRxbuf.map fun bf => { bf with bfSkb := none } } := by
  rw [athFlushrecvTgt] at hs
  split at hs
  · right
    rw [bufPoolFreeBuf] at hs
    split at hs
    · exact (Option.some.inj hs).symm
    · cases hs
  · exact .inl (Option.some.inj hs).symm

/-- The interrupt keeps the ring. -/
theorem Running.interrupt {n : ℕ} (hr : Running s)
    (hs : athUapsdProcesstriggers n s = some s') : Running s' := by
  obtain ⟨l, h, hr, hl⟩ := hr
  exact (scanLoop_rule (P := fun _ _ => True) (O := fun _ => True)
    (fun {_ _ _ _ _ r} _ _ _ => by cases r <;> trivial) n (hr.at_start hl) trivial hs).2

/-- A start arms all the descriptors on `sc_rxdesc` but the last. -/
theorem Attached.startrecv (ha : Attached s) (hs : athStartrecv s = some s') :
    ∃ p rest s₁ B h', s.scRxdesc = p :: rest ∧ B ≠ [] ∧
      Started { s with scRxlink := none, scRxdescHeld := some p } s₁ [] p rest B h' ∧
      s' = { s₁ with rxdp := B.head? } := by
  obtain ⟨p, rest, hlist, hrest, hst⟩ : ∃ p rest, s.scRxdesc = p :: rest ∧ rest ≠ [] ∧
      Starting { s with scRxlink := none, scRxdescHeld := some p } [] p rest := by
    rcases ha with ⟨cfg, rfl⟩ | ⟨l, h, hr, hl⟩
    · exact starting_attach cfg
    · obtain ⟨p, rest, rfl⟩ := List.exists_cons_of_ne_nil hl
      exact ⟨p, rest ++ [h], hr.list, by simp, hr.starting rfl⟩
  obtain ⟨s₁, B, h', hstart, hB, hst⟩ := athStartrecv_spec hlist hrest hst
  rw [hstart] at hs
  exact ⟨p, rest, s₁, B, h', hlist, hB, hst, (Option.some.inj hs).symm⟩

theorem Attached.running (ha : Attached s) (hs : athStartrecv s = some s') : Running s' := by
  obtain ⟨p, rest, s₁, B, h', -, hB, hst, rfl⟩ := ha.startrecv hs
  exact ⟨B, h', hst.ring.congr rfl rfl rfl rfl rfl fun _ => ⟨rfl, rfl, rfl⟩, hB⟩

theorem Running.step {e : Event} (hr : Running s) (hs : step e s = some s') : Running s' := by
  cases e with
  | startRecv => exact Attached.running (.inr hr) hs
  | stopRecv =>
      obtain rfl := Option.some.inj hs
      obtain ⟨l, h, hr, hl⟩ := hr
      exact ⟨l, h, ⟨hr.list, hr.held, hr.perm, hr.loaded, hr.empty, hr.last, .inl rfl⟩, hl⟩
  | flushRecv =>
      rcases athFlushrecvTgt_cases hs with rfl | rfl
      · exact hr
      · exact hr.congr rfl rfl rfl rfl rfl fun _ => ⟨rfl, rfl, rfl⟩
  | receive seg =>
      obtain ⟨ds, b, -, -, -, rfl⟩ := hwReceive_cases hs
      refine hr.congr rfl rfl rfl rfl rfl fun d => ?_
      rw [filled_desc]
      split <;> exact ⟨rfl, rfl, rfl⟩
  | advance =>
      obtain ⟨ds, next, -, -, -, rfl⟩ := hwAdvance_cases hs
      exact hr.congr rfl rfl rfl rfl rfl fun _ => ⟨rfl, rfl, rfl⟩
  | interrupt rounds => exact hr.interrupt hs
  | tasklet rounds =>
      refine tasklet_rule (fun _ _ _ hr => ?_) rounds hr hs
      exact hr.congr rfl rfl rfl rfl rfl fun _ => ⟨rfl, rfl, rfl⟩
  | complete i =>
      obtain ⟨l, h, hr, hl⟩ := hr
      obtain ⟨frags, hi, -⟩ := Option.map_eq_some_iff.mp hs
      obtain ⟨F, h', hfilled⟩ := hr.complete hi hs
      exact ⟨l ++ F, h', hfilled.ring, List.append_ne_nil_of_left_ne_nil hl F⟩

theorem Attached.step {e : Event} (ha : Attached s) (hs : step e s = some s') : Attached s' := by
  by_cases he : e = .startRecv
  · subst he
    exact .inr (ha.running hs)
  · rcases ha with ⟨cfg, rfl⟩ | hr
    · exact .inl ⟨cfg, step_attach hs he⟩
    · exact .inr (hr.step hs)

theorem attached_of_reachable {ok : RxState → Event → Prop} (hs : receive.ReachableWhere ok s) :
    Attached s := by
  refine hs.invariant ?_ fun s e s' ha _ hstep => ha.step hstep
  rintro _ ⟨cfg, rfl⟩
  exact .inl ⟨cfg, rfl⟩

end Ath9kHtc.Rx
