import Ath9kHtc.Tx.Steering

/-!
# The transmit path follows the controller

Every step of the transmit path takes the scheduling of the TIDs through actions of the
controller.  When it resumes a TID, ends a cleanup or initialises a TID is said by the risks of
the step.
-/

namespace Ath9kHtc.Tx

variable {G : Control → ControlAct → Prop} {s s' s'' : TxState} {k : TidId} {q : QueueId}
  {bf : BufId} {stat : TxStat}

/-! ## The completion of an element -/

/-- The last frame a cleanup counts completes, and it is not part of an aggregate. -/
structure LandsOne (s : TxState) (bf : BufId) (k : TidId) : Prop where
  cleanup : (s.tid k).cleanupInprogres = true
  kind : (s.buf bf).bfComp = some .normal ∨
    (s.buf bf).bfComp = some .aggr ∧ (s.buf bf).bfIsaggr = false
  last : aInt8 ((s.tid k).incomp - 1) = 0

/-- The last frame a cleanup counts is a subframe of the aggregate that completes. -/
structure LandsWithin (s : TxState) (bf : BufId) (k : TidId) : Prop where
  comp : (s.buf bf).bfComp = some .aggr
  aggr : (s.buf bf).bfIsaggr = true
  cleanup : (s.tid k).cleanupInprogres = true
  last : ∃ i < (s.subframes bf).length, aInt8 ((s.tid k).incomp - (i + 1 : ℕ)) = 0

/-- What the completion of an element may do to the scheduling of its TID, beside what is
plain. -/
inductive ControlRisk (s : TxState) (bf : BufId) (stat : TxStat) (k : TidId) :
    Control → ControlAct → Prop
  | init : LandsOne s bf k → (s.tid k).reinitializeFlag = true →
      ControlRisk s bf stat k (s.control.act (.land k)) (.init k)
  | finish : LandsOne s bf k → (s.tid k).reinitializeFlag = false →
      ControlRisk s bf stat k (s.control.act (.land k)) (.finish k)
  | finished : LandsOne s bf k → (s.tid k).reinitializeFlag = false →
      ControlRisk s bf stat k ((s.control.act (.land k)).act (.finish k)) (.resume k)
  | finishAggr {c : Control} : LandsWithin s bf k →
      (c.tid k).reinit = (s.tid k).reinitializeFlag → ControlRisk s bf stat k c (.finish k)
  | finishedAggr {c : Control} : LandsWithin s bf k →
      (c.tid k).reinit = (s.tid k).reinitializeFlag → (c.tid k).cleanup = false →
      ControlRisk s bf stat k c (.resume k)
  | resume : (s.buf bf).bfComp = some .bar → stat.tsStatus &&& halTxerrXretry = 0 →
      ControlRisk s bf stat k s.control (.resume k)
  | teardown {c : Control} : (s.buf bf).bfComp = some .bar →
      stat.tsStatus &&& halTxerrXretry ≠ 0 → owlmaxBarRetries ≤ (s.buf bf).bfRetries →
      (c.tid k).cleanup = false → ControlRisk s bf stat k c (.resume k)

theorem ctl_cleanupBaw (n : ℕ) (tid : Tid) : (cleanupBaw n tid).ctl = tid.ctl ∨
    ∃ i, (cleanupBaw n tid).ctl = { tid.ctl with incomp := i, cleanup := true } := by
  induction n generalizing tid with
  | zero => exact .inl rfl
  | succ n ih =>
    rw [cleanupBaw]
    split
    · exact .inl rfl
    · split
      · rcases ih (incrBaw (countIncomp tid)) with h | ⟨i, h⟩
        · exact .inr ⟨_, h⟩
        · exact .inr ⟨i, h⟩
      · exact ih (incrBaw tid)

namespace Steered

variable (hsafe : ∀ c a, ControlAct.Plain a → G c a)

include hsafe

theorem cleanupBaw (hpaused : (s.tid k).paused = true) (n : ℕ) :
    Steered G s (s.modTid k (Tx.cleanupBaw n)) := by
  rcases ctl_cleanupBaw n (s.tid k) with h | ⟨i, h⟩
  · exact (Quiet.modTid _ h).steered
  · refine of_act (hsafe _ (.count k i) trivial) hpaused ?_ rfl
    exact TxState.control_modTid _ (fun t => { t with incomp := i, cleanup := true }) h

theorem athTgtTxCleanup {discardAll : Bool}
    (hresume : ∀ c, (c.tid k).cleanup = false → G c (.resume k))
    (h : athTgtTxCleanup s k discardAll = some s') : Steered G s s' := by
  obtain ⟨s₁, hclean, h⟩ := Option.bind_eq_some_iff.mp h
  obtain ⟨n, hsheds⟩ := Sheds.cleanupBufQ hclean
  dsimp only at h
  have hpause := athAggrPauseTid hsafe (s := s₁) (k := k)
  have hpaused : ((Tx.athAggrPauseTid s₁ k).tid k).paused = true := by
    rw [Tx.athAggrPauseTid, TxState.modTid_tid_self]
  have hcounted := cleanupBaw hsafe hpaused athTidMaxBufs
  refine ((hsheds.steered (hsafe _ _ trivial)).trans hpause).trans (hcounted.trans ?_)
  split at h
  · obtain rfl := Option.some_inj.mp h
    exact (Quiet.refl _).steered
  · exact athAggrResumeTid hsafe (hresume _ (Bool.eq_false_iff.mpr ‹¬_›)) h

theorem owlTgtTidCleanup (hc : (s.tid k).cleanupInprogres = true)
    (hinit : aInt8 ((s.tid k).incomp - 1) = 0 → (s.tid k).reinitializeFlag = true →
      G (s.control.act (.land k)) (.init k))
    (hfinish : aInt8 ((s.tid k).incomp - 1) = 0 → (s.tid k).reinitializeFlag = false →
      G (s.control.act (.land k)) (.finish k) ∧
        G ((s.control.act (.land k)).act (.finish k)) (.resume k))
    (h : owlTgtTidCleanup s k = some s') : Steered G s s' := by
  rw [Tx.owlTgtTidCleanup] at h
  dsimp only at h
  have hland : Steered G s
      (s.modTid k fun tid => { tid with incomp := aInt8 (tid.incomp - 1) }) :=
    of_act (hsafe _ (.land k) trivial) hc
      (TxState.control_modTid _ (fun t => { t with incomp := aInt8 (t.incomp - 1) }) rfl) rfl
  have hlanded : (s.modTid k fun tid => { tid with incomp := aInt8 (tid.incomp - 1) }).control =
      s.control.act (.land k) :=
    TxState.control_modTid _ (fun t => { t with incomp := aInt8 (t.incomp - 1) }) rfl
  have hincomp : ((s.modTid k fun tid => { tid with incomp := aInt8 (tid.incomp - 1) }).tid
      k).incomp = aInt8 ((s.tid k).incomp - 1) := by
    rw [TxState.modTid_tid_self]
  rw [hincomp] at h
  split at h
  · obtain rfl := Option.some_inj.mp h
    exact hland
  · have hzero : aInt8 ((s.tid k).incomp - 1) = 0 := not_not.mp ‹_›
    have hreinit : (((s.modTid k fun tid => { tid with incomp := aInt8 (tid.incomp - 1) }).modTid k
        fun tid => { tid with cleanupInprogres := false }).tid k).reinitializeFlag =
          (s.tid k).reinitializeFlag := by
      rw [TxState.modTid_tid_self, TxState.modTid_tid_self]
    rw [hreinit] at h
    refine hland.trans ?_
    generalize hs₁ : (s.modTid k fun tid => { tid with incomp := aInt8 (tid.incomp - 1) }) = s₁
      at h hlanded hincomp
    split at h
    · obtain rfl := Option.some_inj.mp h
      rw [modTid_modTid]
      refine of_act (a := .init k) ?_ trivial ?_ rfl
      · rw [hlanded]
        exact hinit hzero ‹_›
      · exact TxState.control_modTid _ (fun t => { t with
          waiting := 0, paused := false, sched := false, cleanup := false, reinit := false }) rfl
    · have hreinit : (s.tid k).reinitializeFlag = false := by
        simpa using ‹¬(s.tid k).reinitializeFlag = true›
      obtain ⟨hfin, hres⟩ := hfinish hzero hreinit
      have hcontrol : (s₁.modTid k fun tid => { tid with cleanupInprogres := false }).control =
          s₁.control.act (.finish k) :=
        TxState.control_modTid _ (fun t => { t with cleanup := false }) rfl
      have hfinished : Steered G s₁
          (s₁.modTid k fun tid => { tid with cleanupInprogres := false }) := by
        refine of_act (a := .finish k) (hlanded ▸ hfin) ⟨?_, ?_⟩ hcontrol rfl
        · rw [hlanded, Control.act, Control.modTid_tid_self]
          exact hc
        · rw [hlanded, Control.act, Control.modTid_tid_self]
          exact hzero
      refine hfinished.trans (athAggrResumeTid hsafe ?_ h)
      rw [hcontrol, hlanded]
      exact hres

/-! ## Block-ack requests -/

theorem athTgtDelbaSend (hresume : ∀ c, (c.tid k).cleanup = false → G c (.resume k))
    (h : athTgtDelbaSend s k = some s') : Steered G s s' := by
  obtain ⟨s₁, hclean, rfl⟩ := Option.map_eq_some_iff.mp h
  exact (after (.modTid _ rfl) (athTgtTxCleanup hsafe hresume hclean)).quiet (.emit _)

theorem athBarTx (h : athBarTx s k bf = some s') : Steered G s s' := by
  rw [Tx.athBarTx] at h
  dsimp only at h
  split at h
  · cases h
  · rename_i skb skbs _
    obtain rfl := Option.some_inj.mp h
    refine (athAggrPauseTid hsafe (k := k)).quiet ?_
    refine Quiet.trans ?_ .athTgtTxqAddUcast
    refine Quiet.trans ?_ .athFilltxdesc
    refine Quiet.trans (.modNbuf skb _) (.modBuf _ fun _ hcomp => ?_)
    cases hcomp

theorem athBarRetry (hresume : owlmaxBarRetries ≤ (s.buf bf).bfRetries →
      ∀ c, (c.tid k).cleanup = false → G c (.resume k))
    (h : athBarRetry s k bf = some s') : Steered G s s' := by
  rw [Tx.athBarRetry] at h
  split at h
  · obtain ⟨s₁, hdelba, h⟩ := Option.bind_eq_some_iff.mp h
    obtain ⟨s₂, hdrain, h⟩ := Option.bind_eq_some_iff.mp h
    have hdelba := athTgtDelbaSend hsafe (hresume ‹_›) hdelba
    have hdrain := (Sheds.athTgtTidDrain hdrain).steered (hsafe _ _ trivial)
    refine (hdelba.trans hdrain).quiet (Quiet.trans (.modBuf _ fun _ hcomp => ?_) (.athBufComp h))
    cases hcomp
  · obtain ⟨⟨b, s₁⟩, htoggle, h⟩ := Option.bind_eq_some_iff.mp h
    obtain ⟨s₂, hretry, rfl⟩ := Option.map_eq_some_iff.mp h
    have htoggle : Quiet s s₁ := by
      split at htoggle
      · exact .athBufToggle htoggle
      · obtain ⟨-, rfl⟩ := Prod.mk.inj (Option.some_inj.mp htoggle)
        exact .refl s
    exact (((htoggle.trans (.modDs _ _)).trans (.athTxSetRetry hretry)).trans
      .athTgtTxqAddUcast).steered

theorem athBarTxComp (hresume : (s.ds (s.buf bf).bfLastds).dsTxstat.tsStatus &&& halTxerrXretry = 0 →
      G s.control (.resume k))
    (hteardown : (s.ds (s.buf bf).bfLastds).dsTxstat.tsStatus &&& halTxerrXretry ≠ 0 →
      owlmaxBarRetries ≤ (s.buf bf).bfRetries →
      ∀ c, (c.tid k).cleanup = false → G c (.resume k))
    (h : athBarTxComp s k bf = some s') : Steered G s s' := by
  rw [Tx.athBarTxComp] at h
  split at h
  · exact athBarRetry hsafe (hteardown ‹_›) h
  · obtain ⟨s₁, hres, h⟩ := Option.bind_eq_some_iff.mp h
    refine (athAggrResumeTid hsafe (hresume (not_not.mp ‹_›)) hres).quiet
      (Quiet.trans (.modBuf _ fun _ hcomp => ?_) (.athBufComp h))
    cases hcomp

/-! ## Data frames -/

theorem athTgtTxCompNormal
    (hinit : LandsOne s bf k → (s.tid k).reinitializeFlag = true →
      G (s.control.act (.land k)) (.init k))
    (hfinish : LandsOne s bf k → (s.tid k).reinitializeFlag = false →
      G (s.control.act (.land k)) (.finish k) ∧
        G ((s.control.act (.land k)).act (.finish k)) (.resume k))
    (hcomp : (s.buf bf).bfComp = some .normal)
    (h : athTgtTxCompNormal s k bf = some s') : Steered G s s' := by
  obtain ⟨s₁, hclean, h⟩ := Option.bind_eq_some_iff.mp h
  have hsteered : Steered G s s₁ := by
    split at hclean
    · rename_i hc
      exact owlTgtTidCleanup hsafe hc (fun hlast => hinit ⟨hc, .inl hcomp, hlast⟩)
        (fun hlast => hfinish ⟨hc, .inl hcomp, hlast⟩) hclean
    · obtain rfl := Option.some_inj.mp hclean
      exact (Quiet.refl s).steered
  exact hsteered.quiet ((Quiet.athTxUcComp _).trans (.athTxFreebuf h))

omit hsafe in
theorem bfNext_athTxFreebuf (h : athTxFreebuf s bf = some s') (b : BufId) :
    (s'.buf b).bfNext = none ∨ (s'.buf b).bfNext = (s.buf b).bfNext := by
  rw [Tx.athTxFreebuf] at h
  obtain ⟨⟨tmp, s₁⟩, htoggle, rfl⟩ := Option.map_eq_some_iff.mp h
  obtain ⟨-, hs₁⟩ := athBufToggle_false htoggle
  have hinserted : ((scTxbufInsertTail (s₁.modBuf tmp fun b =>
      { b with bfRetries := 0, bfIsretried := false }) tmp).buf b).bfNext =
        (s₁.buf b).bfNext := by
    rw [scTxbufInsertTail]
    dsimp only
    rcases eq_or_ne b tmp with rfl | hne
    · rw [TxState.modBuf_buf_self]
    · rw [TxState.modBuf_buf_of_ne _ _ _ hne]
  rw [hinserted, hs₁]
  dsimp only
  rcases eq_or_ne b bf with rfl | hne
  · rw [TxState.modBuf_buf_self]
    exact .inl rfl
  · rw [TxState.modBuf_buf_of_ne _ _ _ hne, Tx.athTgtSkbFree, TxState.modBuf_buf_of_ne _ _ _ hne]
    exact .inr rfl

omit hsafe in
theorem aInt8_sub_one (x : Int) (i : ℕ) :
    aInt8 (aInt8 (x - 1) - (i + 1 : ℕ)) = aInt8 (x - (i + 1 + 1 : ℕ)) := by
  unfold aInt8
  omega

/-- The loop over an aggregate visits no more than its subframes. -/
theorem compCleanupLoop {rcs : Fin 4 → RcSeries} {fuel : ℕ} {o : Option BufId}
    (hc : (s.tid k).cleanupInprogres = true)
    (hfinish : ∀ c : Control, ∀ i < (walk (fun b => (s.buf b).bfNext) fuel o).length,
      aInt8 ((s.tid k).incomp - (i + 1 : ℕ)) = 0 →
      (c.tid k).reinit = (s.tid k).reinitializeFlag →
      G c (.finish k) ∧ ((c.tid k).cleanup = false → G c (.resume k)))
    (h : compCleanupLoop k stat rcs fuel o s = some s') : Steered G s s' := by
  induction fuel generalizing s o with
  | zero =>
    cases o with
    | none =>
        obtain rfl := Option.some_inj.mp h
        exact (Quiet.refl s).steered
    | some bf => cases h
  | succ fuel ih =>
    cases o with
    | none =>
        obtain rfl := Option.some_inj.mp h
        exact (Quiet.refl s).steered
    | some bf =>
        rw [Tx.compCleanupLoop] at h
        obtain ⟨s₁, hfree, h⟩ := Option.bind_eq_some_iff.mp h
        dsimp only at h
        have hquiet : Quiet s s₁ := (Quiet.athTxStatusUpdateAggr _ _ _).trans (.athTxFreebuf hfree)
        have htid : s₁.tid = s.tid := by
          rw [athTxFreebuf_tid hfree]
          exact (spares_athTxStatusUpdateAggr s bf stat (some rcs) false 0).tid
        have hnext : ∀ b, (s₁.buf b).bfNext = none ∨ (s₁.buf b).bfNext = (s.buf b).bfNext := by
          intro b
          have hbuf : (athTxStatusUpdateAggr s bf stat (some rcs) false).buf = s.buf :=
            congrArg Ledger.buf (ledger_athTxStatusUpdateAggr s bf stat (some rcs) false)
          have := bfNext_athTxFreebuf hfree b
          rwa [hbuf] at this
        have hland : Steered G s₁
            (s₁.modTid k fun tid => { tid with incomp := aInt8 (tid.incomp - 1) }) := by
          refine of_act (hsafe _ (.land k) trivial) ?_
            (TxState.control_modTid _ (fun t => { t with incomp := aInt8 (t.incomp - 1) }) rfl) rfl
          show (s₁.tid k).cleanupInprogres = true
          rw [htid]
          exact hc
        have hlanded : (s₁.modTid k fun tid => { tid with incomp := aInt8 (tid.incomp - 1) }).tid k =
            { s.tid k with incomp := aInt8 ((s.tid k).incomp - 1) } := by
          rw [TxState.modTid_tid_self, htid]
        refine (after hquiet hland).trans ?_
        generalize hs₂ : (s₁.modTid k fun tid => { tid with incomp := aInt8 (tid.incomp - 1) }) = s₂
          at h hlanded
        have hbuf : s₂.buf = s₁.buf := by
          rw [← hs₂]
          rfl
        rw [hlanded] at h
        dsimp only at h
        split at h
        · rename_i hzero
          have hboth := fun c => hfinish c 0 (Nat.succ_pos _) hzero
          have hcontrol : (s₂.modTid k fun tid => { tid with cleanupInprogres := false }).control =
              s₂.control.act (.finish k) :=
            TxState.control_modTid _ (fun t => { t with cleanup := false }) rfl
          have hreinit : (s₂.control.tid k).reinit = (s.tid k).reinitializeFlag := by
            show (s₂.tid k).reinitializeFlag = _
            rw [hlanded]
          have hfin : Steered G s₂
              (s₂.modTid k fun tid => { tid with cleanupInprogres := false }) := by
            refine of_act (hboth _ hreinit).1 ⟨?_, ?_⟩ hcontrol rfl
            · show (s₂.tid k).cleanupInprogres = true
              rw [hlanded]
              exact hc
            · show (s₂.tid k).incomp = 0
              rw [hlanded]
              exact hzero
          refine hfin.trans (athAggrResumeTid hsafe ((hboth _ ?_).2 ?_) h)
          · rw [hcontrol, Control.act, Control.modTid_tid_self]
            exact hreinit
          · rw [hcontrol, Control.act, Control.modTid_tid_self]
        · refine ih ?_ (fun c i hi hzero hreinit => hfinish c (i + 1) ?_ ?_ ?_) h
          · rw [hlanded]
            exact hc
          · rw [walk, List.length_cons]
            refine Nat.succ_lt_succ (hi.trans_le (length_walk_le ?_))
            rw [hbuf]
            exact hnext
          · rw [hlanded] at hzero
            rw [← aInt8_sub_one]
            exact hzero
          · rw [hreinit, hlanded]

theorem athTxCompCleanup
    (hinit : LandsOne s bf k → (s.tid k).reinitializeFlag = true →
      G (s.control.act (.land k)) (.init k))
    (hfinish : LandsOne s bf k → (s.tid k).reinitializeFlag = false →
      G (s.control.act (.land k)) (.finish k) ∧
        G ((s.control.act (.land k)).act (.finish k)) (.resume k))
    (hwithin : LandsWithin s bf k → ∀ c : Control,
      (c.tid k).reinit = (s.tid k).reinitializeFlag →
        G c (.finish k) ∧ ((c.tid k).cleanup = false → G c (.resume k)))
    (hcomp : (s.buf bf).bfComp = some .aggr) (hc : (s.tid k).cleanupInprogres = true)
    (h : athTxCompCleanup s k bf = some s') : Steered G s s' := by
  rw [Tx.athTxCompCleanup] at h
  split at h
  · rename_i haggr
    obtain ⟨s₁, hloop, rfl⟩ := Option.map_eq_some_iff.mp h
    refine (compCleanupLoop hsafe hc (fun c i hi hzero hreinit => ?_) hloop).quiet (.emit _)
    exact hwithin ⟨hcomp, haggr, hc, i, hi, hzero⟩ c hreinit
  · rename_i haggr
    have haggr : (s.buf bf).bfIsaggr = false := Bool.eq_false_iff.mpr haggr
    obtain ⟨s₁, hfree, h⟩ := Option.bind_eq_some_iff.mp h
    have hquiet : Quiet s s₁ := Quiet.athTxStatusUpdate.trans (.athTxFreebuf hfree)
    have htid : s₁.tid = s.tid := by
      rw [athTxFreebuf_tid hfree]
      exact (spares_athTxStatusUpdate s bf 0).tid
    rw [if_pos (htid ▸ hc)] at h
    refine after hquiet (owlTgtTidCleanup hsafe (htid ▸ hc) ?_ ?_ h)
    · rw [htid, hquiet.control]
      exact fun hlast => hinit ⟨hc, .inr ⟨hcomp, haggr⟩, hlast⟩
    · rw [htid, hquiet.control]
      exact fun hlast => hfinish ⟨hc, .inr ⟨hcomp, haggr⟩, hlast⟩

omit hsafe in
theorem quiet_athTxRetrySubframe {acc : CompAcc} {out : CompAcc × TxState}
    (h : athTxRetrySubframe s bf acc = some out) : Quiet s out.2 := by
  obtain ⟨k, -, h⟩ := Option.bind_eq_some_iff.mp h
  split at h
  · have hupdate : Quiet s (athTxStatusUpdateAggr (s.modTid k fun tid =>
        athTxUpdateBaw tid (seqnoFromBfSeqno (s.buf bf).bfSeqno)) bf
          (s.ds (s.buf bf).bfLastds).dsTxstat none false) :=
      (Quiet.athTxUpdateBaw _).trans (.athTxStatusUpdateAggr _ _ _)
    dsimp only at h
    split at h
    · obtain rfl := Option.some_inj.mp h
      exact hupdate
    · obtain ⟨s₁, hfree, rfl⟩ := Option.map_eq_some_iff.mp h
      exact hupdate.trans (.athTxFreebuf hfree)
  · obtain ⟨⟨b, s₁⟩, htoggle, h⟩ := Option.bind_eq_some_iff.mp h
    obtain ⟨s₂, hretry, rfl⟩ := Option.map_eq_some_iff.mp h
    refine Quiet.trans ?_ (.athTxSetRetry hretry)
    split at htoggle
    · exact .athBufToggle htoggle
    · obtain ⟨-, rfl⟩ := Prod.mk.inj (Option.some_inj.mp htoggle)
      exact .modBuf _ id

omit hsafe in
theorem quiet_ackSubframe {rcs : Fin 4 → RcSeries} (h : ackSubframe s k bf stat rcs = some s') :
    Quiet s s' :=
  ((Quiet.athTxUpdateBaw _).trans (.athTxStatusUpdateAggr _ _ _)).trans (.athTxFreebuf h)

omit hsafe in
theorem quiet_compAggrLoop {rcs : Fin 4 → RcSeries} {acked : TxBuf → Bool} {fuel : ℕ}
    {o : Option BufId} {acc : CompAcc} {out : CompAcc × TxState}
    (h : compAggrLoop k stat rcs acked fuel o acc s = some out) : Quiet s out.2 := by
  induction fuel generalizing s o acc with
  | zero =>
    cases o with
    | none =>
        obtain rfl := Option.some_inj.mp h
        exact .refl s
    | some bf => cases h
  | succ fuel ih =>
    cases o with
    | none =>
        obtain rfl := Option.some_inj.mp h
        exact .refl s
    | some bf =>
        rw [Tx.compAggrLoop] at h
        dsimp only at h
        split at h
        · obtain ⟨s₁, hack, h⟩ := Option.bind_eq_some_iff.mp h
          exact (quiet_ackSubframe hack).trans (ih h)
        · obtain ⟨⟨acc', s₁⟩, hretry, h⟩ := Option.bind_eq_some_iff.mp h
          exact (quiet_athTxRetrySubframe hretry).trans (ih h)

theorem prepend (bfQ : List BufId) (hq : q = tidToActxq k.2) :
    Steered G s (athTgtTxEnqueue (prependBufQ s k bfQ) q k) := by
  refine push hsafe (n := bfQ.length) ?_ hq
  rw [Tid.ctl, List.length_append, Nat.add_comm]
  rfl

theorem finishAggr {acc : CompAcc} (hq : q = tidToActxq k.2)
    (h : finishAggr s k q acc = some s') : Steered G s s' := by
  obtain ⟨s₁, hbar, rfl⟩ := Option.map_eq_some_iff.mp h
  have hbar : Steered G s s₁ := by
    split at hbar
    · obtain rfl := Option.some_inj.mp hbar
      exact (Quiet.refl s).steered
    · exact athBarTx hsafe hbar
  split
  · exact hbar
  · exact hbar.trans (prepend hsafe _ hq)

theorem athTxCompAggrError (hq : (s.buf bf).bfTxq = tidToActxq k.2)
    (h : athTxCompAggrError s k bf = some s') : Steered G s s' := by
  obtain ⟨⟨acc, s₁⟩, hloop, h⟩ := Option.bind_eq_some_iff.mp h
  exact after ((quiet_compAggrLoop hloop).trans (.emit _)) (finishAggr hsafe hq h)

theorem athTxRetryUnaggr (hq : (s.buf bf).bfTxq = tidToActxq k.2)
    (h : athTxRetryUnaggr s k bf = some s') : Steered G s s' := by
  rw [Tx.athTxRetryUnaggr] at h
  dsimp only at h
  split at h
  · exact after ((Quiet.athTxUpdateBaw _).trans .athTxStatusUpdate) (athBarTx hsafe h)
  · obtain ⟨⟨b, s₁⟩, htoggle, h⟩ := Option.bind_eq_some_iff.mp h
    obtain ⟨s₂, hretry, rfl⟩ := Option.map_eq_some_iff.mp h
    refine after (Quiet.trans ?_ (.athTxSetRetry hretry)) (prepend hsafe _ hq)
    split at htoggle
    · exact .athBufToggle htoggle
    · obtain ⟨-, rfl⟩ := Prod.mk.inj (Option.some_inj.mp htoggle)
      exact .refl s

theorem athTxCompUnaggr (hq : (s.buf bf).bfTxq = tidToActxq k.2)
    (h : athTxCompUnaggr s k bf = some s') : Steered G s s' := by
  rw [Tx.athTxCompUnaggr] at h
  dsimp only at h
  split at h
  · exact after (.emit _) (athTxRetryUnaggr hsafe hq h)
  · exact ((((Quiet.emit _).trans (.athTxUpdateBaw _)).trans .athTxStatusUpdate).trans
      (.athTxFreebuf h)).steered

theorem athTgtTxCompAggr
    (hinit : LandsOne s bf k → (s.tid k).reinitializeFlag = true →
      G (s.control.act (.land k)) (.init k))
    (hfinish : LandsOne s bf k → (s.tid k).reinitializeFlag = false →
      G (s.control.act (.land k)) (.finish k) ∧
        G ((s.control.act (.land k)).act (.finish k)) (.resume k))
    (hwithin : LandsWithin s bf k → ∀ c : Control,
      (c.tid k).reinit = (s.tid k).reinitializeFlag →
        G c (.finish k) ∧ ((c.tid k).cleanup = false → G c (.resume k)))
    (hcomp : (s.buf bf).bfComp = some .aggr) (hq : (s.buf bf).bfTxq = tidToActxq k.2)
    (h : athTgtTxCompAggr s k bf = some s') : Steered G s s' := by
  rw [Tx.athTgtTxCompAggr] at h
  dsimp only at h
  split at h
  · exact athTxCompCleanup hsafe hinit hfinish hwithin hcomp ‹_› h
  · split at h
    · cases h
    · split at h
      · exact athTxCompUnaggr hsafe hq h
      · split at h
        · exact athTxCompAggrError hsafe hq h
        · split at h
          · exact athTxCompAggrError hsafe hq h
          · obtain ⟨⟨acc, s₁⟩, hloop, h⟩ := Option.bind_eq_some_iff.mp h
            exact after ((quiet_compAggrLoop hloop).trans (.emit _)) (finishAggr hsafe hq h)

end Steered

/-! ## One round of a hardware queue -/

theorem completeBuf_steered (hsafe : ∀ c a, ControlAct.Plain a → G c a) (hrouted : s.Routed)
    (hrisk : ∀ k c a, keyOf (s.buf bf) = some k →
      ControlRisk s bf (s.ds (s.buf bf).bfLastds).dsTxstat k c a → G c a)
    (h : completeBuf s bf = some s') : Steered G s s' := by
  rw [completeBuf] at h
  split at h
  · exact (Quiet.athTxStatusUpdate.trans (.athBufComp h)).steered
  · rename_i hcomp
    obtain ⟨k, hkey, h⟩ := Option.bind_eq_some_iff.mp h
    have hkey : keyOf (s.buf bf) = some k := hkey
    exact .athTgtTxCompNormal hsafe (fun hl hr => hrisk k _ _ hkey (.init hl hr))
      (fun hl hr => ⟨hrisk k _ _ hkey (.finish hl hr), hrisk k _ _ hkey (.finished hl hr)⟩) hcomp h
  · rename_i hcomp
    obtain ⟨k, hkey, h⟩ := Option.bind_eq_some_iff.mp h
    have hkey : keyOf (s.buf bf) = some k := hkey
    have hq : (s.buf bf).bfTxq = tidToActxq k.2 := by
      rw [hrouted bf hcomp]
      obtain ⟨ni, -, hni⟩ := Option.map_eq_some_iff.mp hkey
      rw [← hni]
    exact .athTgtTxCompAggr hsafe (fun hl hr => hrisk k _ _ hkey (.init hl hr))
      (fun hl hr => ⟨hrisk k _ _ hkey (.finish hl hr), hrisk k _ _ hkey (.finished hl hr)⟩)
      (fun hl c hr => ⟨hrisk k _ _ hkey (.finishAggr hl hr),
        fun hc => hrisk k _ _ hkey (.finishedAggr hl hr hc)⟩) hcomp hq h
  · rename_i hcomp
    obtain ⟨k, hkey, h⟩ := Option.bind_eq_some_iff.mp h
    have hkey : keyOf (s.buf bf) = some k := hkey
    exact .athBarTxComp hsafe (fun hok => hrisk k _ _ hkey (.resume hcomp hok))
      (fun hfail hretries c hc => hrisk k _ _ hkey (.teardown hcomp hfail hretries hc)) h

/-- The risks of a completion are read off the buffers and the TIDs. -/
theorem ControlRisk.congr {c : Control} {a : ControlAct} (h : ControlRisk s' bf stat k c a)
    (hbuf : s'.buf = s.buf) (htid : s'.tid = s.tid) (hcfg : s'.cfg = s.cfg)
    (hcontrol : s'.control = s.control) : ControlRisk s bf stat k c a := by
  have hsub : s'.subframes bf = s.subframes bf := by
    rw [TxState.subframes, TxState.subframes, hbuf, hcfg]
  have hone : LandsOne s' bf k → LandsOne s bf k := by
    intro hl
    obtain ⟨hc, hkind, hlast⟩ := hl
    rw [htid] at hc hlast
    rw [hbuf] at hkind
    exact ⟨hc, hkind, hlast⟩
  have hwithin : LandsWithin s' bf k → LandsWithin s bf k := by
    intro hl
    obtain ⟨hcomp, haggr, hc, hlast⟩ := hl
    rw [hbuf] at hcomp haggr
    rw [htid] at hc
    rw [htid, hsub] at hlast
    exact ⟨hcomp, haggr, hc, hlast⟩
  cases h with
  | init hl hr =>
      rw [hcontrol]
      exact .init (hone hl) (htid ▸ hr)
  | finish hl hr =>
      rw [hcontrol]
      exact .finish (hone hl) (htid ▸ hr)
  | finished hl hr =>
      rw [hcontrol]
      exact .finished (hone hl) (htid ▸ hr)
  | finishAggr hl hr => exact .finishAggr (hwithin hl) (htid ▸ hr)
  | finishedAggr hl hr hc => exact .finishedAggr (hwithin hl) (htid ▸ hr) hc
  | resume hcomp hok =>
      rw [hcontrol]
      exact .resume (hbuf ▸ hcomp) hok
  | teardown hcomp hfail hretries hc =>
      exact .teardown (hbuf ▸ hcomp) hfail (hbuf ▸ hretries) hc

theorem processqRound_steered {state : TxqState} {answer : Option TxStat} {more : Bool}
    (hsafe : ∀ c a, ControlAct.Plain a → G c a) (hrouted : s.Routed)
    (hrisk : ∀ bf k c a, processed q state answer s = some bf → keyOf (s.buf bf) = some k →
      ControlRisk s bf (completedStat state answer s bf) k c a → G c a)
    (h : processqRound q state answer s = some (s', more)) : Steered G s s' := by
  rw [processqRound] at h
  cases hq : (s.txq q).axqQ with
  | nil =>
      rw [hq] at h
      obtain ⟨rfl, -⟩ := Prod.mk.inj (Option.some_inj.mp h)
      exact (Quiet.modTxq _ rfl).steered
  | cons bf es =>
      rw [hq] at h
      dsimp only at h
      split at h
      · obtain ⟨rfl, -⟩ := Prod.mk.inj (Option.some_inj.mp h)
        exact (Quiet.refl s).steered
      · rename_i hbusy
        have hproc : processed q state answer s = some bf := by
          rw [processed, if_neg hbusy, hq]
          rfl
        obtain ⟨s₁, hcomp, h⟩ := Option.bind_eq_some_iff.mp h
        obtain ⟨s₂, hsched, hpair⟩ := Option.map_eq_some_iff.mp h
        obtain ⟨rfl, -⟩ := Prod.mk.inj hpair
        set s₀ := txqRemoveHead (s.modDs (s.buf bf).bfLastds fun ds =>
            { ds with dsTxstat := procStatus state answer ds.dsTxstat }) q with hs₀
        have hquiet : Quiet s s₀ := (Quiet.modDs _ _).trans .txqRemoveHead
        have hstat : (s₀.ds (s₀.buf bf).bfLastds).dsTxstat = completedStat state answer s bf := by
          have hbuf : s₀.buf = s.buf := rfl
          rw [hbuf]
          show (Function.update s.ds _ _ _).dsTxstat = _
          rw [Function.update_self]
          rfl
        have hdone : Steered G s s₁ := by
          refine .after hquiet (completeBuf_steered hsafe (hquiet.routed hrouted) ?_ hcomp)
          intro k c a hkey hr
          rw [hstat] at hr
          exact hrisk bf k c a hproc hkey (hr.congr rfl rfl rfl hquiet.control)
        refine hdone.trans ?_
        split at hsched
        · exact .athTgtTxqSchedule hsafe hsched
        · obtain rfl := Option.some_inj.mp hsched
          exact (Quiet.refl _).steered

/-! ## Frames from the host -/

/-- A buffer that carries a frame of a TID to the queue of that TID. -/
structure Addressed (k : TidId) (b : TxBuf) : Prop where
  tidno : b.bfTidno = k.2
  txq : b.bfTxq = tidToActxq k.2

theorem Addressed.routed {b : TxBuf} (h : Addressed k b) : b.Routed := by
  intro _
  rw [h.txq, h.tidno]

theorem Quiet.athTgtTxSeqnoNormal {skb : SkbId} : Quiet s (athTgtTxSeqnoNormal s k bf skb) := by
  rw [Tx.athTgtTxSeqnoNormal]
  refine Quiet.trans ?_ (.modTid _ rfl)
  exact Quiet.trans (.modBuf _ id) (.modNbuf skb _)

theorem prepareBuf_quiet (s : TxState) (bf : BufId) (sc : Softc) (k : TidId) (dh : DataHdr)
    (skb : SkbId) :
    Quiet s (prepareBuf sc k dh skb bf s).tx ∧
      Addressed k ((prepareBuf sc k dh skb bf s).tx.buf bf) := by
  set s₁ := athTgtTxSeqnoNormal (s.modBuf bf (fillBuf k dh skb)) k bf skb with hs₁
  have hbuf₁ : s₁.buf bf = { fillBuf k dh skb (s.buf bf) with
      bfSeqno := ((s.modBuf bf (fillBuf k dh skb)).tid k).seqNext * 16 } := by
    rw [← s.modBuf_buf_self bf (fillBuf k dh skb)]
    exact (athTgtTxSeqnoNormal_filled (.refl _ k bf) skb).2
  have hfill : Quiet s (s.modBuf bf (fillBuf k dh skb)) := .modBuf _ fun _ _ => rfl
  have hquiet₁ : Quiet s s₁ := hfill.trans .athTgtTxSeqnoNormal
  set s₂ := s₁.modBuf bf (setupBuf (s₁.nbuf skb)) with hs₂
  have hbuf₂ : s₂.buf bf = setupBuf (s₁.nbuf skb) (s₁.buf bf) := TxState.modBuf_buf_self ..
  have hquiet₂ : Quiet s s₂ := hquiet₁.trans (.modBuf _ id)
  set sc₁ : Softc := { sc.modSta k.1 fun node =>
    { node with niTxseqmgmt := (node.niTxseqmgmt + 1) % ieee80211SeqMax } with tx := s₂ }
  have hencap : Quiet s₂ (encapFrame sc₁ k.1 skb dh.keytype).tx ∧
      (encapFrame sc₁ k.1 skb dh.keytype).tx.buf = s₂.buf := by
    rw [encapFrame]
    dsimp only
    split <;> exact ⟨⟨rfl, id⟩, rfl⟩
  have hprep : (prepareBuf sc k dh skb bf s).tx =
      athFilltxdesc (encapFrame sc₁ k.1 skb dh.keytype).tx bf := rfl
  rw [hprep]
  refine ⟨(hquiet₂.trans hencap.1).trans .athFilltxdesc, ?_⟩
  have hbuf₃ : (athFilltxdesc (encapFrame sc₁ k.1 skb dh.keytype).tx bf).buf bf =
      { s₂.buf bf with bfLastds := bf } := by
    show (TxState.modBuf _ bf _).buf bf = _
    rw [TxState.modBuf_buf_self]
    show ({ (encapFrame sc₁ k.1 skb dh.keytype).tx.buf bf with bfLastds := bf } : TxBuf) = _
    rw [hencap.2]
  rw [hbuf₃, hbuf₂, hbuf₁]
  exact ⟨rfl, rfl⟩

theorem sendPrepared_steered (hsafe : ∀ c a, ControlAct.Plain a → G c a)
    (haddr : Addressed k (s.buf bf)) (endpt : EndpointId) (dh : DataHdr) :
    Steered G s (sendPrepared s k endpt dh bf) := by
  rw [sendPrepared]
  set s₁ := s.modBuf bf fun b =>
    { b with bfEndpt := endpt, bfCookie := dh.cookie, vapIndex := dh.vapIndex } with hs₁
  have hquiet₁ : Quiet s s₁ := .modBuf _ id
  have haddr₁ : Addressed k (s₁.buf bf) := by
    rw [hs₁, TxState.modBuf_buf_self]
    exact ⟨haddr.tidno, haddr.txq⟩
  refine .after hquiet₁ ?_
  split
  · rw [athTgtHandleAggr]
    set s₂ := s₁.modBuf bf fun b => { b with bfComp := some .aggr } with hs₂
    have haddr₂ : Addressed k (s₂.buf bf) := by
      rw [hs₂, TxState.modBuf_buf_self]
      exact ⟨haddr₁.tidno, haddr₁.txq⟩
    have hquiet₂ : Quiet s₁ s₂ := .modBuf _ fun _ => (⟨haddr₁.tidno, haddr₁.txq⟩ :
      Addressed k { s₁.buf bf with bfComp := some .aggr }).routed
    refine .after hquiet₂ ?_
    split
    · refine .push hsafe (n := 1) ?_ ?_
      · rw [Tid.ctl, List.length_append]
        rfl
      · exact haddr₂.txq
    · exact ((Quiet.athTxAddtoBaw _).trans .athTgtTxSendNormal).steered
  · rw [athTgtHandleNormal]
    refine Quiet.steered (Quiet.trans ?_ .athTgtTxSendNormal)
    refine Quiet.trans (.modBuf _ fun _ hcomp => ?_) (.modTid (k := k) _ rfl)
    cases hcomp

theorem tgtHtcRecvMessageHandler_steered (hsafe : ∀ c a, ControlAct.Plain a → G c a)
    {sc sc' : Softc} {endpt : EndpointId} {skb : SkbId} {dh : DataHdr}
    (h : tgtHtcRecvMessageHandler sc endpt skb dh = some sc') : Steered G sc.tx sc'.tx := by
  obtain ⟨⟨prepared, sc₁⟩, hprep, rfl⟩ := Option.map_eq_some_iff.mp h
  obtain ⟨found, -, hprep⟩ := Option.bind_eq_some_iff.mp hprep
  cases found with
  | none =>
      obtain ⟨rfl, rfl⟩ := Prod.mk.inj (Option.some_inj.mp hprep)
      exact (Quiet.emit _).steered
  | some ni =>
      dsimp only at hprep
      split at hprep
      · split at hprep
        · obtain ⟨rfl, rfl⟩ := Prod.mk.inj (Option.some_inj.mp hprep)
          exact (Quiet.emit _).steered
        · obtain ⟨⟨bf, s₁⟩, halloc, hpair⟩ := Option.map_eq_some_iff.mp hprep
          obtain ⟨rfl, rfl⟩ := Prod.mk.inj hpair
          obtain ⟨hquiet, haddr⟩ := prepareBuf_quiet s₁ bf sc (ni, ⟨dh.tidno, ‹_›⟩) dh skb
          exact .after ((Quiet.athTxBufAlloc halloc).trans hquiet)
            (sendPrepared_steered hsafe haddr endpt dh)
      · cases hprep

theorem sendMgtBuf_quiet (sc : Softc) (ni : NodeId) (endpt : EndpointId) (skb : SkbId) (mh : MgtHdr) :
    Quiet sc.tx (sendMgtBuf sc ni endpt skb mh bf).tx := by
  rw [sendMgtBuf]
  refine Quiet.trans ?_ (.athTgtTxqaddbuf _)
  refine Quiet.trans ?_ .athFilltxdesc
  exact Quiet.trans (.modBuf _ id) (.modNbuf skb _)

theorem athTgtSendMgt_quiet {sc sc' : Softc} {endpt : EndpointId} {skb : SkbId} {mh : MgtHdr}
    (h : athTgtSendMgt sc endpt skb mh = some sc') : Quiet sc.tx sc'.tx := by
  rw [athTgtSendMgt] at h
  split at h
  · obtain rfl := Option.some_inj.mp h
    exact .emit _
  · dsimp only at h
    rename_i bf rest _
    obtain ⟨found, -, rfl⟩ := Option.map_eq_some_iff.mp h
    have hfreed : Quiet sc.tx { sc.tx with scTxbuf := rest } := .of_eq rfl rfl rfl
    cases found with
    | none => exact hfreed.trans (.emit _)
    | some ni =>
        exact hfreed.trans
          (sendMgtBuf_quiet { sc with tx := { sc.tx with scTxbuf := rest } } ni endpt skb mh)

/-! ## The machine -/

variable {sc sc' : Softc} {e : Event}

/-- What an event may do to the scheduling beside what is plain. -/
inductive StepRisk (sc : Softc) : Event → Control → ControlAct → Prop
  | complete {q : QueueId} {state : TxqState} {answer : Option TxStat} {bf : BufId} {k : TidId}
      {c : Control} {a : ControlAct} : processed q state answer sc.tx = some bf →
      keyOf (sc.tx.buf bf) = some k →
      ControlRisk sc.tx bf (completedStat state answer sc.tx bf) k c a →
      StepRisk sc (.processq q state answer) c a
  | disable {k : TidId} {c : Control} : (sc.tx.tid k).aggrEnabled = true →
      (c.tid k).cleanup = false → StepRisk sc (.enableAggr k.1 k.2 false) c (.resume k)
  | create {cmd : NodeCmd} {k : TidId} {c : Control} : cmd.niNodeindex = k.1 →
      (sc.tx.tid k).cleanupInprogres = false → c.tid k = sc.tx.control.tid k →
      StepRisk sc (.nodeCreate cmd) c (.init k)

def Governed (sc : Softc) (e : Event) (c : Control) (a : ControlAct) : Prop :=
  a.Plain ∨ StepRisk sc e c a

theorem nodeInitTid_steered (hsafe : ∀ c a, ControlAct.Plain a → G c a)
    (hinit : (s.tid k).cleanupInprogres = false → G s.control (.init k)) :
    Steered G s (s.modTid k nodeInitTid) := by
  cases hc : (s.tid k).cleanupInprogres with
  | true =>
      refine .of_act (hsafe _ (.postpone k) trivial) hc ?_ rfl
      refine TxState.control_modTid _ (fun t => { t with reinit := true }) ?_
      rw [nodeInitTid, if_pos hc]
      rfl
  | false =>
      refine .of_act (hinit hc) trivial ?_ rfl
      refine TxState.control_modTid _ (fun t => { t with
        waiting := 0, paused := false, sched := false, cleanup := false, reinit := false }) ?_
      rw [nodeInitTid, if_neg (by rw [hc]; decide)]
      rfl

/-- The TIDs of a node are initialised one after the other. -/
theorem nodeInitTids_steered {ni : NodeId} {ts : List TidNo} (hnodup : ts.Nodup)
    (hsafe : ∀ c a, ControlAct.Plain a → G c a)
    (hinit : ∀ t ∈ ts, (s.tid (ni, t)).cleanupInprogres = false →
      ∀ c : Control, c.tid (ni, t) = s.control.tid (ni, t) → G c (.init (ni, t))) :
    Steered G s (nodeInitTids s ni ts) := by
  induction ts generalizing s with
  | nil => exact (Quiet.refl s).steered
  | cons t ts ih =>
    obtain ⟨hnot, hnodup⟩ := List.nodup_cons.mp hnodup
    have htid : ∀ t' ∈ ts, (s.modTid (ni, t) nodeInitTid).tid (ni, t') = s.tid (ni, t') :=
      fun t' ht' => s.modTid_tid_of_ne _ _ fun heq => hnot ((Prod.mk.inj heq).2 ▸ ht')
    have hfirst := nodeInitTid_steered (s := s) hsafe
      fun hc => hinit t List.mem_cons_self hc _ rfl
    refine hfirst.trans (ih hnodup fun t' ht' hc c hsame => ?_)
    refine hinit t' (List.mem_cons_of_mem _ ht') ?_ c ?_
    · rw [← htid t' ht']
      exact hc
    · rw [hsame]
      show (Tid.ctl _) = Tid.ctl _
      rw [htid t' ht']

theorem drainTidq_steered (hsafe : ∀ c a, ControlAct.Plain a → G c a)
    (h : drainTidq q s = some s') : Steered G s s' := by
  rw [Tx.drainTidq] at h
  split at h
  · rename_i k rest _ htidq
    have hdrain := Sheds.athTgtTidDrain h
    have hwaiting : ((tidqRemoveHead s q k).control.tid k).waiting =
        ((tidqRemoveHead s q k).tid k).bufQ.length := rfl
    refine ⟨?_, hdrain.routed⟩
    rw [hdrain.control, hwaiting, Nat.sub_self, control_tidqRemoveHead]
    refine Control.steps_one (a := .unlist q k) (hsafe _ _ trivial) ?_
    show ((s.txq q).axqTidq).head? = some k
    rw [htidq]
    rfl
  · cases h

theorem athEnableAggrTgt_steered (hsafe : ∀ c a, ControlAct.Plain a → G c a) {nodeindex tidno : ℕ}
    {enable : Bool}
    (hresume : ∀ k : TidId, nodeindex = k.1 → tidno = k.2 → enable = false →
      (sc.tx.tid k).aggrEnabled = true → ∀ c, (c.tid k).cleanup = false → G c (.resume k))
    (h : athEnableAggrTgt sc nodeindex tidno enable = some sc') : Steered G sc.tx sc'.tx := by
  rw [athEnableAggrTgt] at h
  split at h
  · split at h
    · dsimp only at h
      split at h
      · obtain rfl := Option.some_inj.mp h
        exact (Quiet.refl _).steered
      · split at h
        · obtain rfl := Option.some_inj.mp h
          have hon : ∀ k : TidId, Quiet sc.tx
              (sc.tx.modTid k fun tid => { tid with aggrEnabled := true }) :=
            fun k => .modTid _ rfl
          exact (hon _).steered
        · split at h
          · rename_i henable haggr
            obtain ⟨s₁, hclean, rfl⟩ := Option.map_eq_some_iff.mp h
            have hoff : ∀ k : TidId, Quiet sc.tx
                (sc.tx.modTid k fun tid => { tid with aggrEnabled := false }) :=
              fun k => .modTid _ rfl
            refine .after (hoff _) (.athTgtTxCleanup hsafe ?_ hclean)
            exact hresume _ rfl rfl (by simpa using henable) haggr
          · obtain rfl := Option.some_inj.mp h
            exact (Quiet.refl _).steered
    · obtain rfl := Option.some_inj.mp h
      exact (Quiet.refl _).steered
  · obtain rfl := Option.some_inj.mp h
    exact (Quiet.refl _).steered

theorem plain_governed (sc : Softc) (e : Event) (c : Control) (a : ControlAct) (h : a.Plain) :
    Governed sc e c a := .inl h

theorem step_steered (hrouted : sc.tx.Routed) (h : step e sc = some sc') :
    Steered (Governed sc e) sc.tx sc'.tx := by
  have hsafe := plain_governed sc e
  cases e with
  | recvData endpt dh frame =>
      have harrive : Quiet sc.tx (arrive sc frame).tx := ⟨rfl, id⟩
      exact .after harrive (tgtHtcRecvMessageHandler_steered hsafe h)
  | recvMgmt endpt mh frame =>
      have harrive : Quiet sc.tx (arrive sc frame).tx := ⟨rfl, id⟩
      exact (harrive.trans (athTgtSendMgt_quiet h)).steered
  | processq q state answer =>
      obtain ⟨⟨s₁, more⟩, hround, rfl⟩ := Option.map_eq_some_iff.mp h
      exact processqRound_steered hsafe hrouted
        (fun bf k c a hproc hkey hr => .inr (.complete hproc hkey hr)) hround
  | statusClear =>
      obtain rfl := Option.some_inj.mp h
      exact .of_eq rfl rfl rfl
  | statusSend =>
      obtain rfl := Option.some_inj.mp h
      exact Quiet.athTxStatusSend.steered
  | drainStart =>
      obtain rfl := Option.some_inj.mp h
      exact .of_eq rfl rfl rfl
  | drainTidq q =>
      obtain ⟨s₁, hdrain, rfl⟩ := Option.map_eq_some_iff.mp h
      exact drainTidq_steered hsafe hdrain
  | drainEnd =>
      obtain rfl := Option.some_inj.mp h
      exact .of_eq rfl rfl rfl
  | enableAggr nodeindex tidno enable =>
      refine athEnableAggrTgt_steered hsafe ?_ h
      rintro k rfl rfl rfl haggr c hc
      exact .inr (.disable haggr hc)
  | nodeCreate cmd =>
      change athNodeCreateTgt sc cmd = some sc' at h
      rw [athNodeCreateTgt] at h
      split at h
      · rename_i hni
        split at h
        · cases h
        · obtain rfl := Option.some_inj.mp h
          have hmax : Quiet sc.tx (setMaxampdu sc.tx ⟨cmd.niNodeindex, hni⟩ cmd.niMaxampdu) :=
            .of_eq rfl rfl rfl
          refine .after hmax ?_
          show Steered _ _ (owlTgtNodeInit _ _)
          rw [owlTgtNodeInit_eq]
          exact nodeInitTids_steered (List.nodup_finRange 8) hsafe
            fun t _ hc c hsame => .inr (.create rfl hc hsame)
      · cases h
  | nodeCleanup nodeIndex =>
      change athNodeCleanupTgt sc nodeIndex = some sc' at h
      rw [athNodeCleanupTgt] at h
      split at h
      · obtain rfl := Option.some_inj.mp h
        exact (Quiet.refl _).steered
      · cases h
  | nodeUpdate cmd =>
      change athNodeUpdateTgt sc cmd = some sc' at h
      rw [athNodeUpdateTgt] at h
      split at h
      · obtain rfl := Option.some_inj.mp h
        exact .of_eq rfl rfl rfl
      · cases h
  | icUpdate ampduLimit enableCoex =>
      obtain rfl := Option.some_inj.mp h
      exact .of_eq rfl rfl rfl

theorem routed_of_reachable {ok : Softc → Event → Prop} (h : transmit.ReachableWhere ok sc) :
    sc.tx.Routed := by
  refine h.invariant ?_ fun sc e sc' hrouted _ hstep => (step_steered hrouted hstep).routed hrouted
  rintro sc ⟨cfg, rateAnswers, -, rfl⟩ bf hcomp
  cases hcomp

/-- What holds of the scheduling at the start and what every governed action keeps holds in
every state reached. -/
theorem control_invariant {ok : Softc → Event → Prop} {P : Control → Prop}
    (h : transmit.ReachableWhere ok sc) (hinit : ∀ c, controller.Init c → P c)
    (hact : ∀ sc e c a, ok sc e → P sc.tx.control → P c → Governed sc e c a → c.Can a →
      P (c.act a)) : P sc.tx.control := by
  refine Machine.ReachableWhere.invariant (P := fun sc => P sc.tx.control)
    (h.strengthen fun _ => routed_of_reachable) ?_ ?_
  · rintro sc ⟨cfg, rateAnswers, -, rfl⟩
    exact hinit _ rfl
  · rintro sc e sc' hP ⟨hok, hrouted⟩ hstep
    exact Control.steps_invariant (step_steered hrouted hstep).moves hP
      fun c a hc hG hcan => hact sc e c a hok hP hc hG hcan

end Ath9kHtc.Tx
