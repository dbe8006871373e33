import Ath9kHtc.Tx.Load

/-!
# Scheduling does not fail

A TID with aggregation has frames of aggregation sessions in its queue only, so that the
scheduler finds what it asserts.  It moves frames and changes none of them.
-/

namespace Ath9kHtc.Tx

open TxBuf

variable {s s' s'' : TxState} {bf : BufId} {k k' : TidId} {q : QueueId} {n : ℕ}

/-- The queues of all TIDs hold frames of aggregation sessions. -/
def TxState.Aggregates (s : TxState) : Prop :=
  ∀ k, ∀ b ∈ (s.tid k).bufQ, (s.buf b).bfComp = some .aggr

/-- A function that takes frames off queues at most, and changes none. -/
structure Still (s s' : TxState) : Prop where
  out : s'.out = s.out
  held : s'.scTxbufHeld = s.scTxbufHeld
  buf : ∀ b, SameLoad (s.buf b) (s'.buf b)
  queued : ∀ k, ∀ b ∈ (s'.tid k).bufQ, b ∈ (s.tid k).bufQ

namespace Still

theorem refl (s : TxState) : Still s s := ⟨rfl, rfl, fun _ => .refl _, fun _ _ => id⟩

theorem trans (h : Still s s') (h' : Still s' s'') : Still s s'' :=
  ⟨h'.out.trans h.out, h'.held.trans h.held, fun b => (h.buf b).trans (h'.buf b),
    fun k b hb => h.queued k b (h'.queued k b hb)⟩

theorem aggregates (h : Still s s') (hs : s.Aggregates) : s'.Aggregates := by
  intro k b hb
  rw [(h.buf b).comp]
  exact hs k b (h.queued k b hb)

theorem eases (h : Still s s') : Eases 0 s s' := by
  refine ⟨fun hs => ⟨?_, fun b => (h.buf b).carries (hs.carries b), ?_⟩, fun _ => ?_⟩
  · obtain ⟨tmp, hheld, hidle⟩ := hs.held
    exact ⟨tmp, h.held.trans hheld, (h.buf tmp).comp.trans hidle⟩
  · refine hs.finite.subset fun b hb => ?_
    rw [Set.mem_ofPred_eq, ← (h.buf b).comp]
    exact hb
  · have hload : (fun b => (s'.buf b).load) = fun b => (s.buf b).load :=
      funext fun b => (h.buf b).load_eq
    rw [TxState.load, TxState.load, hload]
    exact le_refl _

/-- A change beside buffers and TIDs. -/
theorem of_eq (hbuf : s'.buf = s.buf) (hheld : s'.scTxbufHeld = s.scTxbufHeld)
    (htid : s'.tid = s.tid) (hout : s'.out = s.out) : Still s s' := by
  refine ⟨hout, hheld, fun b => ?_, fun k b hb => ?_⟩
  · rw [hbuf]
    exact .refl _
  · rwa [htid] at hb

theorem modBuf (f : TxBuf → TxBuf) (hf : SameLoad (s.buf bf) (f (s.buf bf))) :
    Still s (s.modBuf bf f) := by
  refine ⟨rfl, rfl, fun b => ?_, fun _ _ => id⟩
  rcases eq_or_ne b bf with rfl | hne
  · rw [TxState.modBuf_buf_self]
    exact hf
  · rw [TxState.modBuf_buf_of_ne _ _ _ hne]
    exact .refl _

theorem modTid (f : Tid → Tid) (hf : ∀ b ∈ (f (s.tid k)).bufQ, b ∈ (s.tid k).bufQ) :
    Still s (s.modTid k f) := by
  refine ⟨rfl, rfl, fun _ => .refl _, fun k' b hb => ?_⟩
  rcases eq_or_ne k' k with rfl | hne
  · rw [TxState.modTid_tid_self] at hb
    exact hf b hb
  · rwa [TxState.modTid_tid_of_ne _ _ _ hne] at hb

theorem modDs (b : BufId) (f : TxDesc → TxDesc) : Still s (s.modDs b f) := of_eq rfl rfl rfl rfl

theorem modTxq (f : Txq → Txq) : Still s (s.modTxq q f) := of_eq rfl rfl rfl rfl

/-! ## Hardware queues -/

theorem axqLinkTo (link : Option BufId) : Still s (axqLinkTo s link bf) := by
  unfold Tx.axqLinkTo
  split
  · exact .refl s
  · exact modDs _ _

theorem logHanded : Still s (logHanded s bf) := by
  rw [Tx.logHanded]
  split
  · exact .refl s
  · exact modTid _ fun _ => id

theorem athTgtTxqAddUcast : Still s (athTgtTxqAddUcast s bf) := by
  rw [Tx.athTgtTxqAddUcast]
  exact Still.trans (axqLinkTo _) (modTxq _)

theorem athRateFindrate : Still s (athRateFindrate s).2 := of_eq rfl rfl rfl rfl

theorem normalSeries : Still s (normalSeries s bf) := by
  rw [Tx.normalSeries]
  split
  · exact modBuf _ ⟨rfl, rfl, rfl, rfl⟩
  · exact Still.trans athRateFindrate (modBuf _ ⟨rfl, rfl, rfl, rfl⟩)

theorem athTgtTxSendNormal : Still s (athTgtTxSendNormal s bf) :=
  (logHanded.trans normalSeries).trans athTgtTxqAddUcast

theorem bufQRemoveHead : Still s (bufQRemoveHead s k) :=
  modTid _ fun _ => List.mem_of_mem_tail

theorem schedNormalLoop (n : ℕ) : Still s (schedNormalLoop k n s) := by
  induction n generalizing s with
  | zero => exact .refl s
  | succ n ih =>
    rw [Tx.schedNormalLoop]
    split
    · exact .refl s
    · rename_i bf _ _
      have hsent : Still s (Tx.athTgtTxSendNormal (Tx.bufQRemoveHead s k) bf) :=
        bufQRemoveHead.trans athTgtTxSendNormal
      dsimp only
      split
      · exact hsent.trans ih
      · exact hsent

theorem aggrRate (acc : AggrAcc) : Still s (aggrRate s k bf acc).2 := by
  rw [Tx.aggrRate]
  split
  · exact .refl s
  · show Still s (athLookupRate s k.1 bf).2
    rw [athLookupRate_snd]
    exact Still.trans athRateFindrate (modBuf _ ⟨rfl, rfl, rfl, rfl⟩)

theorem athTxAddtoBaw (b : TxBuf) : Still s (s.modTid k fun tid => athTxAddtoBaw tid b) := by
  refine modTid _ fun b' hb' => ?_
  rw [Tx.athTxAddtoBaw] at hb'
  split at hb' <;> exact hb'

theorem linkSubframe (prev : Option BufId) : Still s (linkSubframe s prev bf) := by
  unfold Tx.linkSubframe
  split
  · exact .refl s
  · exact Still.trans (modBuf _ ⟨rfl, rfl, rfl, rfl⟩) (modDs _ _)

theorem schedSingle : Still s (schedSingle s bf) := by
  rw [Tx.schedSingle]
  refine Still.trans ?_ athTgtTxqAddUcast
  exact Still.trans (modBuf _ ⟨rfl, rfl, rfl, rfl⟩) (modDs _ _)

theorem schedAggregate (bfLast : BufId) : Still s (schedAggregate s bf bfLast) := by
  rw [Tx.schedAggregate]
  refine Still.trans ?_ athTgtTxqAddUcast
  refine Still.trans ?_ (modBuf _ ⟨rfl, rfl, rfl, rfl⟩)
  exact Still.trans (modBuf _ ⟨rfl, rfl, rfl, rfl⟩) (modDs _ _)

theorem athTgtTxEnqueue : Still s (athTgtTxEnqueue s q k) := by
  rw [Tx.athTgtTxEnqueue]
  split
  · exact .refl s
  · split
    · exact .refl s
    · exact Still.trans (modTid _ fun _ => id) (modTxq _)

theorem tidqRemoveHead : Still s (tidqRemoveHead s q k) := by
  rw [Tx.tidqRemoveHead]
  exact Still.trans (modTxq _) (modTid _ fun _ => id)

theorem requeueTid : Still s (requeueTid s q k) := by
  rw [Tx.requeueTid]
  split
  · exact .refl s
  · exact athTgtTxEnqueue

end Still

/-! ## Aggregates -/

theorem aggrTake_total {acc : AggrAcc} (hcomp : (s.buf bf).bfComp = some .aggr) :
    ∃ s', aggrTake s k bf acc = some s' ∧ Still s s' := by
  rw [aggrTake, if_pos hcomp]
  refine ⟨_, rfl, ?_⟩
  have htaken := (Still.athTxAddtoBaw (s := s) (k := k) (s.buf bf)).trans
    (Still.bufQRemoveHead (k := k))
  have hlogged := htaken.trans (Still.logHanded : Still _ (logHanded _ bf))
  exact (hlogged.trans (.modBuf (fun b => { b with bfNdelim := aggrNdelim b % 256 })
    ⟨rfl, rfl, rfl, rfl⟩)).trans (.linkSubframe _)

theorem formAggrLoop_total {l : List BufId} {acc : AggrAcc}
    (hl : ∀ b ∈ l, (s.buf b).bfComp = some .aggr) :
    ∃ out, formAggrLoop k l acc s = some out ∧ Still s out.2.2 := by
  induction l generalizing s acc with
  | nil => exact ⟨_, rfl, .refl s⟩
  | cons bf rest ih =>
    rw [formAggrLoop]
    split
    · have hrate : Still s (aggrRate s k bf acc).2 := .aggrRate acc
      dsimp only
      split
      · exact ⟨_, rfl, hrate⟩
      · obtain ⟨s₁, htake : aggrTake _ k bf (aggrRate s k bf acc).1 = some s₁, hstill⟩ :=
          aggrTake_total ((hrate.buf bf).comp.trans (hl bf List.mem_cons_self))
        have hfirst := hrate.trans hstill
        have hrest : ∀ b ∈ rest, (s₁.buf b).bfComp = some .aggr := fun b hb =>
          (hfirst.buf b).comp.trans (hl b (List.mem_cons_of_mem _ hb))
        rw [htake, Option.bind_some]
        obtain ⟨out, hloop, hrest⟩ := ih hrest
        exact ⟨out, hloop, hfirst.trans hrest⟩
    · exact ⟨_, rfl, .refl s⟩

theorem athTgtTxFormAggr_total (h : s.Aggregates) (hne : (s.tid k).bufQ ≠ []) :
    ∃ out, athTgtTxFormAggr s k = some out ∧ Still s out.2.2 := by
  rw [athTgtTxFormAggr]
  split
  · exact absurd ‹_› hne
  · rename_i first rest hq
    have haggr : ∀ b ∈ first :: rest, (s.buf b).bfComp = some .aggr := fun b hb => h k b (hq ▸ hb)
    obtain ⟨⟨status, acc, s₁⟩, hloop : formAggrLoop k _ {} s = _, hstill⟩ := formAggrLoop_total haggr
    rw [hloop, Option.map_some]
    exact ⟨_, rfl, hstill.trans (.modBuf (fun b =>
      { b with bfAl := acc.al, bfNframes := acc.nframes }) ⟨rfl, rfl, rfl, rfl⟩)⟩

theorem schedAggrLoop_total (h : s.Aggregates) :
    ∃ s', schedAggrLoop k n s = some s' ∧ Still s s' := by
  induction n generalizing s with
  | zero => exact ⟨s, rfl, .refl s⟩
  | succ n ih =>
    rw [schedAggrLoop]
    split
    · exact ⟨s, rfl, .refl s⟩
    · rename_i hne
      obtain ⟨⟨status, bfQ, s₁⟩, hform, hstill⟩ := athTgtTxFormAggr_total h hne
      have hstill : Still s s₁ := hstill
      rw [hform, Option.bind_some]
      dsimp only
      split
      · exact ⟨s₁, rfl, hstill⟩
      · rename_i bf more
        have hsent : Still s₁ (if (s₁.buf bf).bfNframes = 1 then schedSingle s₁ bf
            else schedAggregate s₁ bf ((bf :: more).getLastD bf)) := by
          split
          · exact .schedSingle
          · exact .schedAggregate _
        generalize (if (s₁.buf bf).bfNframes = 1 then schedSingle s₁ bf
          else schedAggregate s₁ bf ((bf :: more).getLastD bf)) = s₂ at hsent ⊢
        have hstill := hstill.trans hsent
        split
        · obtain ⟨s', hloop, hrest⟩ := ih (hstill.aggregates h)
          exact ⟨s', hloop, hstill.trans hrest⟩
        · exact ⟨_, rfl, hstill⟩

/-! ## The scheduler -/

theorem txqScheduleLoop_total {l : List TidId} (h : s.Aggregates) :
    ∃ s', txqScheduleLoop q l s = some s' ∧ Still s s' := by
  induction l generalizing s with
  | nil => exact ⟨s, rfl, .refl s⟩
  | cons k rest ih =>
    have hremoved : Still s (tidqRemoveHead s q k) := .tidqRemoveHead
    rw [txqScheduleLoop]
    split
    · obtain ⟨s', hloop, hrest⟩ := ih (hremoved.aggregates h)
      exact ⟨s', hloop, hremoved.trans hrest⟩
    · obtain ⟨s₁, hsched, hstill⟩ : ∃ s₁, (if ((tidqRemoveHead s q k).tid k).aggrEnabled then
          athTgtTxSchedAggr (tidqRemoveHead s q k) k
          else some (athTgtTxSchedNormal (tidqRemoveHead s q k) k)) = some s₁ ∧
          Still (tidqRemoveHead s q k) s₁ := by
        split
        · exact schedAggrLoop_total (hremoved.aggregates h)
        · exact ⟨_, rfl, .schedNormalLoop _⟩
      rw [hsched, Option.map_some]
      exact ⟨_, rfl, (hremoved.trans hstill).trans .requeueTid⟩

theorem athTgtTxqSchedule_total (h : s.Aggregates) (q : QueueId) :
    ∃ s', athTgtTxqSchedule s q = some s' ∧ Still s s' :=
  txqScheduleLoop_total h

theorem athAggrResumeTid_total (h : s.Aggregates) (k : TidId) :
    ∃ s', athAggrResumeTid s k = some s' ∧ Still s s' := by
  have hresumed : Still s (s.modTid k fun tid => { tid with paused := false }) :=
    .modTid _ fun _ => id
  rw [athAggrResumeTid]
  dsimp only
  split
  · exact ⟨_, rfl, hresumed⟩
  · have hqueued := hresumed.trans (.athTgtTxEnqueue (q := tidToActxq k.2) (k := k))
    obtain ⟨s', hsched, hstill⟩ :=
      athTgtTxqSchedule_total (hqueued.aggregates h) (tidToActxq k.2)
    exact ⟨s', hsched, hqueued.trans hstill⟩

theorem owlTgtTidCleanup_total (h : s.Aggregates) (k : TidId) :
    ∃ s', owlTgtTidCleanup s k = some s' ∧ Still s s' := by
  rw [owlTgtTidCleanup_eq]
  split
  · exact ⟨_, rfl, .modTid _ fun _ => id⟩
  · split
    · exact ⟨_, rfl, .modTid _ fun b hb => absurd hb List.not_mem_nil⟩
    · have hstopped : Still s (s.modTid k fun tid => tid.countDown.stopCleanup) :=
        .modTid _ fun _ => id
      obtain ⟨s', hresume, hstill⟩ := athAggrResumeTid_total (hstopped.aggregates h) k
      exact ⟨s', hresume, hstopped.trans hstill⟩

end Ath9kHtc.Tx
