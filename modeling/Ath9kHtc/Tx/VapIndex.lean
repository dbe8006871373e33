import Ath9kHtc.Tx.System

/-!
# The interface a buffer is marked with

`vap_index` of a transmit buffer is written by the handler of data frames only.  Everything else
leaves it as it is, also the toggle of a buffer, which does not copy it.
-/

namespace Ath9kHtc.Tx

variable {s s' s'' : TxState} {k : TidId} {q : QueueId} {bf : BufId}

/-- Every buffer is marked with the same interface as before. -/
def SameVap (s s' : TxState) : Prop := ∀ b, (s'.buf b).vapIndex = (s.buf b).vapIndex

namespace SameVap

theorem refl (s : TxState) : SameVap s s := fun _ => rfl

theorem trans (h : SameVap s s') (h' : SameVap s' s'') : SameVap s s'' :=
  fun b => (h' b).trans (h b)

theorem of_buf (h : s'.buf = s.buf) : SameVap s s' := by
  intro b
  rw [h]

theorem modBuf (f : TxBuf → TxBuf) (hf : (f (s.buf bf)).vapIndex = (s.buf bf).vapIndex) :
    SameVap s (s.modBuf bf f) := by
  intro b
  show (Function.update s.buf bf (f (s.buf bf)) b).vapIndex = _
  rcases eq_or_ne b bf with rfl | hne
  · rw [Function.update_self]
    exact hf
  · rw [Function.update_of_ne hne]

theorem modDs (b : BufId) (f : TxDesc → TxDesc) : SameVap s (s.modDs b f) := of_buf rfl

theorem modNbuf (skb : SkbId) (f : Nbuf → Nbuf) : SameVap s (s.modNbuf skb f) := of_buf rfl

theorem emit (o : Output) : SameVap s (s.emit o) := of_buf rfl

theorem modTid (f : Tid → Tid) : SameVap s (s.modTid k f) := of_buf rfl

theorem modTxq (f : Txq → Txq) : SameVap s (s.modTxq q f) := of_buf rfl

/-! ## Buffers -/

theorem athFilltxdesc : SameVap s (athFilltxdesc s bf) :=
  (modDs bf _).trans (modBuf _ rfl)

theorem toggleMove {tmp : BufId} (h : toggleMove s bf tmp = some s') : SameVap s s' := by
  rw [Tx.toggleMove] at h
  dsimp only at h
  split at h
  · obtain rfl := Option.some_inj.mp h
    refine SameVap.trans ?_ athFilltxdesc
    refine SameVap.trans ?_ (modBuf _ rfl)
    refine SameVap.trans ?_ (modBuf _ rfl)
    exact modBuf _ rfl
  · cases h

theorem athBufToggle {b : BufId} {retry : Bool} (h : athBufToggle s bf retry = some (b, s')) :
    SameVap s s' := by
  rw [Tx.athBufToggle] at h
  split at h
  · cases h
  · split at h
    · obtain ⟨s₁, hmove, hpair⟩ := Option.map_eq_some_iff.mp h
      obtain ⟨-, rfl⟩ := Prod.mk.inj hpair
      exact (toggleMove hmove).trans (of_buf rfl)
    · obtain ⟨-, rfl⟩ := Prod.mk.inj (Option.some_inj.mp h)
      exact of_buf rfl

theorem athTgtSkbFree : SameVap s (athTgtSkbFree s bf) := by
  rw [Tx.athTgtSkbFree]
  refine SameVap.trans ?_ (modBuf _ rfl)
  exact of_buf rfl

theorem athBufComp (h : athBufComp s bf = some s') : SameVap s s' := by
  rw [Tx.athBufComp] at h
  obtain ⟨⟨b, s₁⟩, htoggle, rfl⟩ := Option.map_eq_some_iff.mp h
  exact ((athTgtSkbFree.trans (modBuf _ rfl)).trans (athBufToggle htoggle)).trans (of_buf rfl)

theorem athTxFreebuf (h : athTxFreebuf s bf = some s') : SameVap s s' := by
  rw [Tx.athTxFreebuf] at h
  obtain ⟨⟨b, s₁⟩, htoggle, rfl⟩ := Option.map_eq_some_iff.mp h
  have hcleared : SameVap s₁ (s₁.modBuf b fun b =>
      { b with bfRetries := 0, bfIsretried := false }) := modBuf _ rfl
  have htoggled : SameVap s s₁ := (athTgtSkbFree.trans (modBuf _ rfl)).trans (athBufToggle htoggle)
  exact (htoggled.trans hcleared).trans (of_buf rfl)

theorem athTxBufAlloc (h : athTxBufAlloc s = some (bf, s')) : SameVap s s' := by
  rw [Tx.athTxBufAlloc] at h
  split at h
  · cases h
  · obtain ⟨rfl, rfl⟩ := Prod.mk.inj (Option.some_inj.mp h)
    have htaken : SameVap s { s with scTxbuf := ‹List BufId› } := of_buf rfl
    exact htaken.trans (modBuf _ rfl)

theorem athTxSetRetry (h : athTxSetRetry s bf = some s') : SameVap s s' := by
  rw [Tx.athTxSetRetry] at h
  obtain ⟨skb, -, rfl⟩ := Option.map_eq_some_iff.mp h
  exact (modBuf _ rfl).trans (modNbuf _ _)

/-- The buffer a retry goes on with, which may have been toggled. -/
theorem toggled {p : Prop} [Decidable p] {b : BufId} {s₀ : TxState} (hs₀ : SameVap s s₀)
    (h : (if p then Tx.athBufToggle s bf true else some (bf, s₀)) = some (b, s')) :
    SameVap s s' := by
  split at h
  · exact athBufToggle h
  · obtain ⟨-, rfl⟩ := Prod.mk.inj (Option.some_inj.mp h)
    exact hs₀

/-! ## Transmit status -/

theorem athTxStatusUpdate : SameVap s (athTxStatusUpdate s bf) := by
  rw [Tx.athTxStatusUpdate]
  split
  · exact refl s
  · split
    · exact refl s
    · exact of_buf rfl

theorem athTxStatusUpdateAggr (stat : TxStat) (rcs : Option (Fin 4 → RcSeries)) (txok : Bool) :
    SameVap s (athTxStatusUpdateAggr s bf stat rcs txok) := by
  rw [Tx.athTxStatusUpdateAggr]
  split
  · exact refl s
  · split
    · exact refl s
    · exact of_buf rfl

theorem sendTxStatus (i : Fin 2) : SameVap s (sendTxStatus s i) := by
  rw [Tx.sendTxStatus]
  dsimp only
  split
  · exact refl s
  · exact of_buf rfl

theorem athTxStatusSend : SameVap s (athTxStatusSend s) := by
  rw [Tx.athTxStatusSend]
  split
  · exact refl s
  · exact (sendTxStatus 0).trans (sendTxStatus 1)

theorem athTxUcComp (ni : NodeId) : SameVap s (athTxUcComp s bf ni) :=
  athTxStatusUpdate.trans (emit _)

/-! ## Hardware queues -/

theorem axqLinkTo (link : Option BufId) : SameVap s (axqLinkTo s link bf) := by
  unfold Tx.axqLinkTo
  split
  · exact refl s
  · exact modDs _ _

theorem logHanded : SameVap s (logHanded s bf) := by
  rw [Tx.logHanded]
  split
  · exact refl s
  · exact modTid _

theorem athTgtTxqAddUcast : SameVap s (athTgtTxqAddUcast s bf) := by
  rw [Tx.athTgtTxqAddUcast]
  exact SameVap.trans (axqLinkTo _) (modTxq _)

theorem athTgtTxqaddbuf (lastds : BufId) : SameVap s (athTgtTxqaddbuf s q bf lastds) := by
  rw [Tx.athTgtTxqaddbuf]
  exact SameVap.trans (axqLinkTo _) (modTxq _)

theorem athRateFindrate : SameVap s (athRateFindrate s).2 := of_buf rfl

theorem normalSeries : SameVap s (normalSeries s bf) := by
  rw [Tx.normalSeries]
  split
  · exact modBuf _ rfl
  · exact SameVap.trans athRateFindrate (modBuf _ rfl)

theorem athTgtTxSendNormal : SameVap s (athTgtTxSendNormal s bf) :=
  (logHanded.trans normalSeries).trans athTgtTxqAddUcast

theorem athTgtTxEnqueue : SameVap s (athTgtTxEnqueue s q k) := by
  rw [Tx.athTgtTxEnqueue]
  split
  · exact refl s
  · split
    · exact refl s
    · exact (modTid _).trans (modTxq _)

theorem requeueTid : SameVap s (requeueTid s q k) := by
  rw [Tx.requeueTid]
  split
  · exact refl s
  · exact athTgtTxEnqueue

theorem schedNormalLoop (fuel : ℕ) : SameVap s (schedNormalLoop k fuel s) := by
  induction fuel generalizing s with
  | zero => exact refl s
  | succ fuel ih =>
    rw [Tx.schedNormalLoop]
    split
    · exact refl s
    · rename_i bf _ _
      have hsent : SameVap s (Tx.athTgtTxSendNormal (bufQRemoveHead s k) bf) :=
        SameVap.trans (modTid _) athTgtTxSendNormal
      dsimp only
      split
      · exact hsent.trans ih
      · exact hsent

/-! ## Aggregates -/

theorem aggrRate (acc : AggrAcc) : SameVap s (aggrRate s k bf acc).2 := by
  rw [Tx.aggrRate]
  split
  · exact refl s
  · rw [athLookupRate]
    dsimp only
    exact SameVap.trans athRateFindrate (modBuf _ rfl)

theorem linkSubframe (prev : Option BufId) : SameVap s (linkSubframe s prev bf) := by
  unfold Tx.linkSubframe
  split
  · exact refl s
  · exact (modBuf _ rfl).trans (modDs _ _)

theorem aggrTake {acc : AggrAcc} (h : aggrTake s k bf acc = some s') : SameVap s s' := by
  rw [Tx.aggrTake] at h
  dsimp only at h
  split at h
  · obtain rfl := Option.some_inj.mp h
    refine SameVap.trans ?_ (linkSubframe _)
    refine SameVap.trans ?_ (modBuf _ rfl)
    refine SameVap.trans ?_ logHanded
    exact (modTid _).trans (modTid _)
  · cases h

theorem formAggrLoop {l : List BufId} {acc : AggrAcc} {out : AggrStatus × AggrAcc × TxState}
    (h : formAggrLoop k l acc s = some out) : SameVap s out.2.2 := by
  induction l generalizing acc s with
  | nil =>
    obtain rfl := Option.some_inj.mp h
    exact refl s
  | cons bf rest ih =>
    rw [Tx.formAggrLoop] at h
    split at h
    · dsimp only at h
      split at h
      · obtain rfl := Option.some_inj.mp h
        exact aggrRate acc
      · obtain ⟨s₁, htake, h⟩ := Option.bind_eq_some_iff.mp h
        exact ((aggrRate acc).trans (aggrTake htake)).trans (ih h)
    · obtain rfl := Option.some_inj.mp h
      exact refl s

theorem athTgtTxFormAggr {out : AggrStatus × List BufId × TxState}
    (h : athTgtTxFormAggr s k = some out) : SameVap s out.2.2 := by
  rw [Tx.athTgtTxFormAggr] at h
  split at h
  · cases h
  · rename_i first rest _
    obtain ⟨⟨status, acc, s₁⟩, hloop, rfl⟩ := Option.map_eq_some_iff.mp h
    have hformed : SameVap s s₁ := formAggrLoop hloop
    have hfirst : SameVap s₁ (s₁.modBuf first fun b =>
        { b with bfAl := acc.al, bfNframes := acc.nframes }) := modBuf _ rfl
    exact hformed.trans hfirst

theorem schedSingle : SameVap s (schedSingle s bf) :=
  ((modBuf _ rfl).trans (modDs _ _)).trans athTgtTxqAddUcast

theorem schedAggregate (bfLast : BufId) : SameVap s (schedAggregate s bf bfLast) := by
  rw [Tx.schedAggregate]
  refine SameVap.trans ?_ athTgtTxqAddUcast
  refine SameVap.trans ?_ (modBuf _ rfl)
  exact (modBuf _ rfl).trans (modDs _ _)

theorem schedAggrLoop {fuel : ℕ} (h : schedAggrLoop k fuel s = some s') : SameVap s s' := by
  induction fuel generalizing s with
  | zero =>
    obtain rfl := Option.some_inj.mp h
    exact refl s
  | succ fuel ih =>
    rw [Tx.schedAggrLoop] at h
    split at h
    · obtain rfl := Option.some_inj.mp h
      exact refl s
    · obtain ⟨⟨status, bfQ, s₁⟩, hform, h⟩ := Option.bind_eq_some_iff.mp h
      have hformed : SameVap s s₁ := athTgtTxFormAggr hform
      dsimp only at h
      split at h
      · obtain rfl := Option.some_inj.mp h
        exact hformed
      · rename_i bf more
        have hsent : SameVap s₁ (if (s₁.buf bf).bfNframes = 1 then Tx.schedSingle s₁ bf
            else Tx.schedAggregate s₁ bf ((bf :: more).getLastD bf)) := by
          split
          · exact schedSingle
          · exact schedAggregate _
        generalize (if (s₁.buf bf).bfNframes = 1 then Tx.schedSingle s₁ bf
          else Tx.schedAggregate s₁ bf ((bf :: more).getLastD bf)) = s₂ at h hsent
        split at h
        · exact (hformed.trans hsent).trans (ih h)
        · obtain rfl := Option.some_inj.mp h
          exact hformed.trans hsent

/-! ## Scheduling -/

theorem txqScheduleLoop {l : List TidId} (h : txqScheduleLoop q l s = some s') :
    SameVap s s' := by
  induction l generalizing s with
  | nil =>
    obtain rfl := Option.some_inj.mp h
    exact refl s
  | cons k rest ih =>
    have hhead : SameVap s (tidqRemoveHead s q k) := (modTxq _).trans (modTid _)
    rw [Tx.txqScheduleLoop] at h
    split at h
    · exact hhead.trans (ih h)
    · obtain ⟨s₁, hsend, rfl⟩ := Option.map_eq_some_iff.mp h
      refine hhead.trans (SameVap.trans ?_ requeueTid)
      split at hsend
      · exact schedAggrLoop hsend
      · obtain rfl := Option.some_inj.mp hsend
        exact schedNormalLoop _

theorem athTgtTxqSchedule (h : athTgtTxqSchedule s q = some s') : SameVap s s' :=
  txqScheduleLoop h

theorem athAggrResumeTid (h : athAggrResumeTid s k = some s') : SameVap s s' := by
  rw [Tx.athAggrResumeTid] at h
  dsimp only at h
  split at h
  · obtain rfl := Option.some_inj.mp h
    exact modTid _
  · exact (SameVap.trans (modTid _) athTgtTxEnqueue).trans (athTgtTxqSchedule h)

/-! ## Draining and cleaning up a TID -/

theorem tidDrainLoop {l : List BufId} (h : tidDrainLoop k l s = some s') : SameVap s s' := by
  induction l generalizing s with
  | nil =>
    obtain rfl := Option.some_inj.mp h
    exact refl s
  | cons bf rest ih =>
    obtain ⟨s₁, hfree, h⟩ := Option.bind_eq_some_iff.mp h
    exact (SameVap.trans (modTid _) (athTxFreebuf hfree)).trans (ih h)

theorem athTgtTidDrain (h : athTgtTidDrain s k = some s') : SameVap s s' := by
  obtain ⟨s₁, hloop, rfl⟩ := Option.map_eq_some_iff.mp h
  exact (tidDrainLoop hloop).trans (modTid _)

theorem cleanupBufQ {discardAll : Bool} {l : List BufId}
    (h : cleanupBufQ k discardAll l s = some s') : SameVap s s' := by
  induction l generalizing s with
  | nil =>
    obtain rfl := Option.some_inj.mp h
    exact refl s
  | cons bf rest ih =>
    rw [Tx.cleanupBufQ] at h
    split at h
    · split at h
      · cases h
      · rename_i first _ _
        obtain ⟨s₁, hfree, h⟩ := Option.bind_eq_some_iff.mp h
        have hdiscard : SameVap s (discardFromBaw (bufQRemoveHead s k) k first) := by
          rw [discardFromBaw]
          split
          · exact (modTid _).trans (modTid _)
          · exact modTid _
        exact (hdiscard.trans (athTxFreebuf hfree)).trans (ih h)
    · exact SameVap.trans (modBuf _ rfl) (ih h)

theorem athTgtTxCleanup {discardAll : Bool} (h : athTgtTxCleanup s k discardAll = some s') :
    SameVap s s' := by
  obtain ⟨s₁, hwalk, h⟩ := Option.bind_eq_some_iff.mp h
  have hpaused : SameVap s ((athAggrPauseTid s₁ k).modTid k (cleanupBaw athTidMaxBufs)) :=
    (cleanupBufQ hwalk).trans ((modTid _).trans (modTid _))
  dsimp only at h
  split at h
  · obtain rfl := Option.some_inj.mp h
    exact hpaused
  · exact hpaused.trans (athAggrResumeTid h)

theorem owlTgtTidCleanup (h : owlTgtTidCleanup s k = some s') : SameVap s s' := by
  rw [Tx.owlTgtTidCleanup] at h
  dsimp only at h
  split at h
  · obtain rfl := Option.some_inj.mp h
    exact modTid _
  · split at h
    · obtain rfl := Option.some_inj.mp h
      exact ((modTid _).trans (modTid _)).trans (modTid _)
    · exact ((modTid _).trans (modTid _)).trans (athAggrResumeTid h)

/-! ## Block-ack requests -/

theorem athTgtDelbaSend (h : athTgtDelbaSend s k = some s') : SameVap s s' := by
  obtain ⟨s₁, hclean, rfl⟩ := Option.map_eq_some_iff.mp h
  exact (SameVap.trans (modTid _) (athTgtTxCleanup hclean)).trans (emit _)

theorem athBarTx (h : athBarTx s k bf = some s') : SameVap s s' := by
  rw [Tx.athBarTx] at h
  dsimp only at h
  split at h
  · cases h
  · obtain rfl := Option.some_inj.mp h
    refine SameVap.trans ?_ athTgtTxqAddUcast
    refine SameVap.trans ?_ athFilltxdesc
    refine SameVap.trans ?_ (modBuf _ rfl)
    exact (modTid _).trans (modNbuf _ _)

theorem athBarRetry (h : athBarRetry s k bf = some s') : SameVap s s' := by
  rw [Tx.athBarRetry] at h
  split at h
  · obtain ⟨s₁, hdelba, h⟩ := Option.bind_eq_some_iff.mp h
    obtain ⟨s₂, hdrain, h⟩ := Option.bind_eq_some_iff.mp h
    have hended : SameVap s s₂ := (athTgtDelbaSend hdelba).trans (athTgtTidDrain hdrain)
    exact hended.trans ((modBuf _ rfl).trans (athBufComp h))
  · obtain ⟨⟨b, s₁⟩, htoggle, h⟩ := Option.bind_eq_some_iff.mp h
    obtain ⟨s₂, hretry, rfl⟩ := Option.map_eq_some_iff.mp h
    exact (((toggled (.refl s) htoggle).trans (modDs _ _)).trans (athTxSetRetry hretry)).trans
      athTgtTxqAddUcast

theorem athBarTxComp (h : athBarTxComp s k bf = some s') : SameVap s s' := by
  rw [Tx.athBarTxComp] at h
  split at h
  · exact athBarRetry h
  · obtain ⟨s₁, hres, h⟩ := Option.bind_eq_some_iff.mp h
    exact (athAggrResumeTid hres).trans ((modBuf _ rfl).trans (athBufComp h))

/-! ## Data frames -/

theorem athTgtTxCompNormal (h : athTgtTxCompNormal s k bf = some s') : SameVap s s' := by
  obtain ⟨s₁, hclean, h⟩ := Option.bind_eq_some_iff.mp h
  have hclean : SameVap s s₁ := by
    split at hclean
    · exact owlTgtTidCleanup hclean
    · obtain rfl := Option.some_inj.mp hclean
      exact refl s
  exact hclean.trans ((athTxUcComp _).trans (athTxFreebuf h))

theorem compCleanupLoop {stat : TxStat} {rcs : Fin 4 → RcSeries} {fuel : ℕ} {o : Option BufId}
    (h : compCleanupLoop k stat rcs fuel o s = some s') : SameVap s s' := by
  induction fuel generalizing s o with
  | zero =>
    cases o with
    | none =>
        obtain rfl := Option.some_inj.mp h
        exact refl s
    | some bf => cases h
  | succ fuel ih =>
    cases o with
    | none =>
        obtain rfl := Option.some_inj.mp h
        exact refl s
    | some bf =>
        rw [Tx.compCleanupLoop] at h
        obtain ⟨s₁, hfree, h⟩ := Option.bind_eq_some_iff.mp h
        have hcounted : SameVap s
            (s₁.modTid k fun tid => { tid with incomp := aInt8 (tid.incomp - 1) }) :=
          ((athTxStatusUpdateAggr _ _ _).trans (athTxFreebuf hfree)).trans (modTid _)
        dsimp only at h
        split at h
        · exact hcounted.trans (SameVap.trans (modTid _) (athAggrResumeTid h))
        · exact hcounted.trans (ih h)

theorem athTxCompCleanup (h : athTxCompCleanup s k bf = some s') : SameVap s s' := by
  rw [Tx.athTxCompCleanup] at h
  split at h
  · obtain ⟨s₁, hloop, rfl⟩ := Option.map_eq_some_iff.mp h
    exact (compCleanupLoop hloop).trans (emit _)
  · obtain ⟨s₁, hfree, h⟩ := Option.bind_eq_some_iff.mp h
    have hfreed : SameVap s s₁ := athTxStatusUpdate.trans (athTxFreebuf hfree)
    split at h
    · exact hfreed.trans (owlTgtTidCleanup h)
    · obtain rfl := Option.some_inj.mp h
      exact hfreed

theorem athTxRetrySubframe {acc : CompAcc} {out : CompAcc × TxState}
    (h : athTxRetrySubframe s bf acc = some out) : SameVap s out.2 := by
  obtain ⟨k, -, h⟩ := Option.bind_eq_some_iff.mp h
  split at h
  · have hupdate : SameVap s (Tx.athTxStatusUpdateAggr (s.modTid k fun tid =>
        athTxUpdateBaw tid (seqnoFromBfSeqno (s.buf bf).bfSeqno)) bf
          (s.ds (s.buf bf).bfLastds).dsTxstat none false) :=
      (modTid _).trans (athTxStatusUpdateAggr _ _ _)
    dsimp only at h
    split at h
    · obtain rfl := Option.some_inj.mp h
      exact hupdate
    · obtain ⟨s₁, hfree, rfl⟩ := Option.map_eq_some_iff.mp h
      exact hupdate.trans (athTxFreebuf hfree)
  · obtain ⟨⟨b, s₁⟩, htoggle, h⟩ := Option.bind_eq_some_iff.mp h
    obtain ⟨s₂, hretry, rfl⟩ := Option.map_eq_some_iff.mp h
    exact (toggled (modBuf _ rfl) htoggle).trans (athTxSetRetry hretry)

theorem compAggrLoop {stat : TxStat} {rcs : Fin 4 → RcSeries} {acked : TxBuf → Bool} {fuel : ℕ}
    {o : Option BufId} {acc : CompAcc} {out : CompAcc × TxState}
    (h : compAggrLoop k stat rcs acked fuel o acc s = some out) : SameVap s out.2 := by
  induction fuel generalizing s o acc with
  | zero =>
    cases o with
    | none =>
        obtain rfl := Option.some_inj.mp h
        exact refl s
    | some bf => cases h
  | succ fuel ih =>
    cases o with
    | none =>
        obtain rfl := Option.some_inj.mp h
        exact refl s
    | some bf =>
        rw [Tx.compAggrLoop] at h
        dsimp only at h
        split at h
        · obtain ⟨s₁, hack, h⟩ := Option.bind_eq_some_iff.mp h
          have hacked : SameVap s s₁ :=
            ((modTid _).trans (athTxStatusUpdateAggr _ _ _)).trans (athTxFreebuf hack)
          exact hacked.trans (ih h)
        · obtain ⟨⟨acc', s₁⟩, hretry, h⟩ := Option.bind_eq_some_iff.mp h
          exact (athTxRetrySubframe hretry).trans (ih h)

theorem prepend (bfQ : List BufId) :
    SameVap s (Tx.athTgtTxEnqueue (prependBufQ s k bfQ) q k) :=
  SameVap.trans (modTid _) athTgtTxEnqueue

theorem finishAggr {acc : CompAcc} (h : finishAggr s k q acc = some s') : SameVap s s' := by
  obtain ⟨s₁, hbar, rfl⟩ := Option.map_eq_some_iff.mp h
  have hbar : SameVap s s₁ := by
    split at hbar
    · obtain rfl := Option.some_inj.mp hbar
      exact refl s
    · exact athBarTx hbar
  split
  · exact hbar
  · exact hbar.trans (prepend _)

theorem athTxCompAggrError (h : athTxCompAggrError s k bf = some s') : SameVap s s' := by
  obtain ⟨⟨acc, s₁⟩, hloop, h⟩ := Option.bind_eq_some_iff.mp h
  exact ((compAggrLoop hloop).trans (emit _)).trans (finishAggr h)

theorem athTxRetryUnaggr (h : athTxRetryUnaggr s k bf = some s') : SameVap s s' := by
  rw [Tx.athTxRetryUnaggr] at h
  dsimp only at h
  split at h
  · exact (SameVap.trans (modTid _) athTxStatusUpdate).trans (athBarTx h)
  · obtain ⟨⟨b, s₁⟩, htoggle, h⟩ := Option.bind_eq_some_iff.mp h
    obtain ⟨s₂, hretry, rfl⟩ := Option.map_eq_some_iff.mp h
    exact ((toggled (.refl s) htoggle).trans (athTxSetRetry hretry)).trans (prepend _)

theorem athTxCompUnaggr (h : athTxCompUnaggr s k bf = some s') : SameVap s s' := by
  rw [Tx.athTxCompUnaggr] at h
  dsimp only at h
  split at h
  · exact (emit _).trans (athTxRetryUnaggr h)
  · exact (((emit _).trans (modTid _)).trans athTxStatusUpdate).trans (athTxFreebuf h)

theorem athTgtTxCompAggr (h : athTgtTxCompAggr s k bf = some s') : SameVap s s' := by
  rw [Tx.athTgtTxCompAggr] at h
  dsimp only at h
  split at h
  · exact athTxCompCleanup h
  · split at h
    · cases h
    · split at h
      · exact athTxCompUnaggr h
      · split at h
        · exact athTxCompAggrError h
        · split at h
          · exact athTxCompAggrError h
          · obtain ⟨⟨acc, s₁⟩, hloop, h⟩ := Option.bind_eq_some_iff.mp h
            exact ((compAggrLoop hloop).trans (emit _)).trans (finishAggr h)

/-! ## One round of a hardware queue -/

theorem completeBuf (h : completeBuf s bf = some s') : SameVap s s' := by
  rw [Tx.completeBuf] at h
  split at h
  · exact athTxStatusUpdate.trans (athBufComp h)
  · obtain ⟨k, -, h⟩ := Option.bind_eq_some_iff.mp h
    exact athTgtTxCompNormal h
  · obtain ⟨k, -, h⟩ := Option.bind_eq_some_iff.mp h
    exact athTgtTxCompAggr h
  · obtain ⟨k, -, h⟩ := Option.bind_eq_some_iff.mp h
    exact athBarTxComp h

theorem processqRound {state : TxqState} {answer : Option TxStat} {more : Bool}
    (h : processqRound q state answer s = some (s', more)) : SameVap s s' := by
  rw [Tx.processqRound] at h
  split at h
  · obtain ⟨rfl, -⟩ := Prod.mk.inj (Option.some_inj.mp h)
    exact modTxq _
  · split at h
    · obtain ⟨rfl, -⟩ := Prod.mk.inj (Option.some_inj.mp h)
      exact refl s
    · obtain ⟨s₁, hcomp, h⟩ := Option.bind_eq_some_iff.mp h
      obtain ⟨s₂, hsched, hpair⟩ := Option.map_eq_some_iff.mp h
      obtain ⟨rfl, -⟩ := Prod.mk.inj hpair
      have hcomp : SameVap s s₁ := ((modDs _ _).trans (modTxq _)).trans (completeBuf hcomp)
      refine hcomp.trans ?_
      split at hsched
      · exact athTgtTxqSchedule hsched
      · obtain rfl := Option.some_inj.mp hsched
        exact refl _

end SameVap

end Ath9kHtc.Tx
