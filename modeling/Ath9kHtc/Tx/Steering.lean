import Ath9kHtc.Tx.Control
import Ath9kHtc.Tx.Refinement

/-!
# What the transmit functions do to the scheduling of TIDs

Most of them leave it alone.  The others take it through actions of the controller.
-/

namespace Ath9kHtc.Tx

variable {G : Control → ControlAct → Prop} {s s' s'' : TxState} {k : TidId} {q : QueueId}
  {bf : BufId}

/-- An aggregation frame is meant for the queue of its TID. -/
def TxBuf.Routed (b : TxBuf) : Prop :=
  b.bfComp = some .aggr → b.bfTxq = tidToActxq b.bfTidno

def TxState.Routed (s : TxState) : Prop := ∀ bf, (s.buf bf).Routed

/-- A function that leaves the scheduling alone. -/
structure Quiet (s s' : TxState) : Prop where
  control : s'.control = s.control
  routed : s.Routed → s'.Routed

/-- A function that takes the scheduling through actions. -/
structure Steered (G : Control → ControlAct → Prop) (s s' : TxState) : Prop where
  moves : controller.StepsWhere G s.control s'.control
  routed : s.Routed → s'.Routed

theorem TxState.control_modTid (f : Tid → Tid) (g : Ctl → Ctl)
    (h : (f (s.tid k)).ctl = g (s.tid k).ctl) :
    (s.modTid k f).control = s.control.modTid k g := by
  have htid : (fun k' => (Function.update s.tid k (f (s.tid k)) k').ctl) =
      Function.update (fun k' => (s.tid k').ctl) k (g (s.tid k).ctl) := by
    funext k'
    rcases eq_or_ne k' k with rfl | hne
    · rw [Function.update_self, Function.update_self, h]
    · rw [Function.update_of_ne hne, Function.update_of_ne hne]
  rw [control, modTid, htid]
  rfl

theorem Control.modTid_of_eq {c : Control} {f : Ctl → Ctl} (h : f (c.tid k) = c.tid k) :
    c.modTid k f = c := by
  rw [modTid, h, Function.update_eq_self]

theorem TxState.control_modTxq (f : Txq → Txq) :
    (s.modTxq q f).control = s.control.setTidq q (f (s.txq q)).axqTidq := by
  have htidq : (fun q' => (Function.update s.txq q (f (s.txq q)) q').axqTidq) =
      Function.update (fun q' => (s.txq q').axqTidq) q (f (s.txq q)).axqTidq := by
    funext q'
    rcases eq_or_ne q' q with rfl | hne
    · rw [Function.update_self, Function.update_self]
    · rw [Function.update_of_ne hne, Function.update_of_ne hne]
  rw [control, modTxq, htidq]
  rfl

namespace Quiet

theorem refl (s : TxState) : Quiet s s := ⟨rfl, id⟩

theorem trans (h : Quiet s s') (h' : Quiet s' s'') : Quiet s s'' :=
  ⟨h'.control.trans h.control, h'.routed ∘ h.routed⟩

theorem steered (h : Quiet s s') : Steered G s s' := by
  refine ⟨?_, h.routed⟩
  rw [h.control]

/-- A change beside buffers, TIDs and queues. -/
theorem of_eq (hbuf : s'.buf = s.buf) (htid : s'.tid = s.tid) (htxq : s'.txq = s.txq) :
    Quiet s s' := by
  constructor
  · rw [TxState.control, TxState.control, htid, htxq]
  · intro h
    rw [TxState.Routed, hbuf]
    exact h

theorem modBuf (f : TxBuf → TxBuf) (hf : (s.buf bf).Routed → (f (s.buf bf)).Routed) :
    Quiet s (s.modBuf bf f) := by
  refine ⟨rfl, fun h b => ?_⟩
  rcases eq_or_ne b bf with rfl | hne
  · rw [TxState.modBuf_buf_self]
    exact hf (h b)
  · rw [TxState.modBuf_buf_of_ne _ _ _ hne]
    exact h b

theorem modDs (b : BufId) (f : TxDesc → TxDesc) : Quiet s (s.modDs b f) := ⟨rfl, id⟩

theorem modNbuf (skb : SkbId) (f : Nbuf → Nbuf) : Quiet s (s.modNbuf skb f) := ⟨rfl, id⟩

theorem emit (o : Output) : Quiet s (s.emit o) := ⟨rfl, id⟩

theorem modTid (f : Tid → Tid) (hf : (f (s.tid k)).ctl = (s.tid k).ctl) :
    Quiet s (s.modTid k f) := by
  refine ⟨?_, id⟩
  rw [TxState.control_modTid f id hf]
  exact Control.modTid_of_eq rfl

theorem modTxq (f : Txq → Txq) (hf : (f (s.txq q)).axqTidq = (s.txq q).axqTidq) :
    Quiet s (s.modTxq q f) := by
  refine ⟨?_, id⟩
  rw [TxState.control_modTxq, hf, Control.setTidq]
  show (⟨_, Function.update s.control.tidq q (s.control.tidq q)⟩ : Control) = _
  rw [Function.update_eq_self]

/-! ## Buffers -/

theorem athFilltxdesc : Quiet s (athFilltxdesc s bf) :=
  (modDs bf _).trans (modBuf _ id)

theorem toggleMove {tmp : BufId} (h : toggleMove s bf tmp = some s') : Quiet s s' := by
  rw [Tx.toggleMove] at h
  dsimp only at h
  split at h
  · obtain rfl := Option.some_inj.mp h
    refine Quiet.trans ?_ athFilltxdesc
    have hempty : Quiet s (s.modBuf tmp fun b => { b with bfSkbhead := [] }) := modBuf _ id
    refine hempty.trans ⟨rfl, fun hs b => ?_⟩
    rcases eq_or_ne b bf with rfl | hne
    · rw [TxState.modBuf_buf_self]
      intro hcomp
      cases hcomp
    · rw [TxState.modBuf_buf_of_ne _ _ _ hne]
      rcases eq_or_ne b tmp with rfl | hne'
      · rw [TxState.modBuf_buf_self]
        exact hs bf
      · rw [TxState.modBuf_buf_of_ne _ _ _ hne']
        exact hs b
  · cases h

theorem athBufToggle {b : BufId} {retry : Bool} (h : athBufToggle s bf retry = some (b, s')) :
    Quiet s s' := by
  rw [Tx.athBufToggle] at h
  split at h
  · cases h
  · split at h
    · obtain ⟨s₁, hmove, hpair⟩ := Option.map_eq_some_iff.mp h
      obtain ⟨-, rfl⟩ := Prod.mk.inj hpair
      exact (toggleMove hmove).trans (of_eq rfl rfl rfl)
    · obtain ⟨-, rfl⟩ := Prod.mk.inj (Option.some_inj.mp h)
      exact of_eq rfl rfl rfl

theorem athTgtSkbFree : Quiet s (athTgtSkbFree s bf) := by
  rw [Tx.athTgtSkbFree]
  refine Quiet.trans ?_ (modBuf _ id)
  exact of_eq rfl rfl rfl

theorem athBufComp (h : athBufComp s bf = some s') : Quiet s s' := by
  rw [Tx.athBufComp] at h
  obtain ⟨⟨b, s₁⟩, htoggle, rfl⟩ := Option.map_eq_some_iff.mp h
  exact ((athTgtSkbFree.trans (modBuf _ id)).trans (athBufToggle htoggle)).trans
    (of_eq rfl rfl rfl)

theorem athTxFreebuf (h : athTxFreebuf s bf = some s') : Quiet s s' := by
  rw [Tx.athTxFreebuf] at h
  obtain ⟨⟨b, s₁⟩, htoggle, rfl⟩ := Option.map_eq_some_iff.mp h
  have hfreed : Quiet s ((Tx.athTgtSkbFree s bf).modBuf bf fun b =>
      { b with bfSkb := none, bfComp := none, bfNode := none, bfNext := none }) := by
    refine athTgtSkbFree.trans (modBuf _ fun _ hcomp => ?_)
    cases hcomp
  refine (hfreed.trans (athBufToggle htoggle)).trans ?_
  have hcleared : Quiet s₁ (s₁.modBuf b fun b =>
      { b with bfRetries := 0, bfIsretried := false }) := modBuf _ id
  exact hcleared.trans (of_eq rfl rfl rfl)

theorem athTxBufAlloc (h : athTxBufAlloc s = some (bf, s')) : Quiet s s' := by
  rw [Tx.athTxBufAlloc] at h
  split at h
  · cases h
  · obtain ⟨rfl, rfl⟩ := Prod.mk.inj (Option.some_inj.mp h)
    have htaken : Quiet s { s with scTxbuf := ‹List BufId› } := of_eq rfl rfl rfl
    refine htaken.trans (modBuf _ fun _ hcomp => ?_)
    cases hcomp

theorem athTxSetRetry (h : athTxSetRetry s bf = some s') : Quiet s s' := by
  rw [Tx.athTxSetRetry] at h
  obtain ⟨skb, -, rfl⟩ := Option.map_eq_some_iff.mp h
  exact (modBuf _ id).trans (modNbuf _ _)

theorem athTxStatusUpdate : Quiet s (athTxStatusUpdate s bf) := by
  rw [Tx.athTxStatusUpdate]
  split
  · exact .refl s
  · split
    · exact .refl s
    · exact of_eq rfl rfl rfl

theorem athTxStatusUpdateAggr (stat : TxStat) (rcs : Option (Fin 4 → RcSeries)) (txok : Bool) :
    Quiet s (athTxStatusUpdateAggr s bf stat rcs txok) := by
  rw [Tx.athTxStatusUpdateAggr]
  split
  · exact .refl s
  · split
    · exact .refl s
    · exact of_eq rfl rfl rfl

theorem sendTxStatus (i : Fin 2) : Quiet s (sendTxStatus s i) := by
  rw [Tx.sendTxStatus]
  dsimp only
  split
  · exact .refl s
  · exact of_eq rfl rfl rfl

theorem athTxStatusSend : Quiet s (athTxStatusSend s) := by
  rw [Tx.athTxStatusSend]
  split
  · exact .refl s
  · exact (sendTxStatus 0).trans (sendTxStatus 1)

theorem athTxUcComp (ni : NodeId) : Quiet s (athTxUcComp s bf ni) :=
  athTxStatusUpdate.trans (emit _)

/-! ## Hardware queues -/

theorem axqLinkTo (link : Option BufId) : Quiet s (axqLinkTo s link bf) := by
  unfold Tx.axqLinkTo
  split
  · exact .refl s
  · exact modDs _ _

theorem logHanded : Quiet s (logHanded s bf) := by
  rw [Tx.logHanded]
  split
  · exact .refl s
  · exact modTid _ rfl

theorem athTgtTxqAddUcast : Quiet s (athTgtTxqAddUcast s bf) := by
  rw [Tx.athTgtTxqAddUcast]
  exact Quiet.trans (axqLinkTo _) (modTxq _ rfl)

theorem athTgtTxqaddbuf (lastds : BufId) : Quiet s (athTgtTxqaddbuf s q bf lastds) := by
  rw [Tx.athTgtTxqaddbuf]
  exact Quiet.trans (axqLinkTo _) (modTxq _ rfl)

theorem athRateFindrate : Quiet s (athRateFindrate s).2 := of_eq rfl rfl rfl

theorem normalSeries : Quiet s (normalSeries s bf) := by
  rw [Tx.normalSeries]
  split
  · exact modBuf _ id
  · exact Quiet.trans athRateFindrate (modBuf _ id)

theorem athTgtTxSendNormal : Quiet s (athTgtTxSendNormal s bf) :=
  (logHanded.trans normalSeries).trans athTgtTxqAddUcast

theorem athLookupRate (ni : NodeId) : Quiet s (athLookupRate s ni bf).2 := by
  rw [Tx.athLookupRate]
  dsimp only
  exact Quiet.trans athRateFindrate (modBuf _ id)

theorem aggrRate (acc : AggrAcc) : Quiet s (aggrRate s k bf acc).2 := by
  rw [Tx.aggrRate]
  split
  · exact .refl s
  · exact athLookupRate k.1

theorem linkSubframe (prev : Option BufId) : Quiet s (linkSubframe s prev bf) := by
  unfold Tx.linkSubframe
  split
  · exact .refl s
  · exact (modBuf _ id).trans (modDs _ _)

theorem schedSingle : Quiet s (schedSingle s bf) := by
  rw [Tx.schedSingle]
  refine Quiet.trans ?_ athTgtTxqAddUcast
  exact Quiet.trans (modBuf _ id) (modDs _ _)

theorem schedAggregate (bfLast : BufId) : Quiet s (schedAggregate s bf bfLast) := by
  rw [Tx.schedAggregate]
  refine Quiet.trans ?_ athTgtTxqAddUcast
  refine Quiet.trans ?_ (modBuf _ id)
  exact Quiet.trans (modBuf _ id) (modDs _ _)

theorem txqRemoveHead : Quiet s (txqRemoveHead s q) := modTxq _ rfl

/-! ## The window -/

theorem ctl_slideBaw (n : ℕ) (tid : Tid) : (slideBaw n tid).ctl = tid.ctl := by
  induction n generalizing tid with
  | zero => rfl
  | succ n ih =>
    rw [slideBaw]
    split
    · exact ih _
    · rfl

theorem athTxUpdateBaw (seqno : ℕ) :
    Quiet s (s.modTid k fun tid => Tx.athTxUpdateBaw tid seqno) :=
  modTid _ (ctl_slideBaw _ _)

theorem ctl_athTxAddtoBaw (tid : Tid) (b : TxBuf) : (athTxAddtoBaw tid b).ctl = tid.ctl := by
  rw [athTxAddtoBaw]
  split <;> rfl

theorem athTxAddtoBaw (b : TxBuf) : Quiet s (s.modTid k fun tid => Tx.athTxAddtoBaw tid b) :=
  modTid _ (ctl_athTxAddtoBaw _ b)

end Quiet

namespace Control

variable {c : Control} {n m : ℕ}

@[simp] theorem setWaiting_tid_self :
    (c.setWaiting k n).tid k = { c.tid k with waiting := n } := Function.update_self ..

theorem setWaiting_setWaiting : (c.setWaiting k n).setWaiting k m = c.setWaiting k m := by
  rw [setWaiting, setWaiting, modTid, modTid, setWaiting, modTid]
  simp only [Function.update_self, Function.update_idem]

theorem setWaiting_self : c.setWaiting k (c.tid k).waiting = c := modTid_of_eq rfl

end Control

/-! ## Frames leave the queue of a TID -/

/-- A function that takes a number of frames off the queue of a TID. -/
structure Sheds (k : TidId) (n : ℕ) (s s' : TxState) : Prop where
  control : s'.control = s.control.setWaiting k ((s.control.tid k).waiting - n)
  routed : s.Routed → s'.Routed

namespace Sheds

variable {n m : ℕ}

theorem of_quiet (h : Quiet s s') : Sheds k 0 s s' := by
  refine ⟨?_, h.routed⟩
  rw [Nat.sub_zero, Control.setWaiting_self, h.control]

theorem trans (h : Sheds k n s s') (h' : Sheds k m s' s'') : Sheds k (n + m) s s'' := by
  refine ⟨?_, h'.routed ∘ h.routed⟩
  rw [h'.control, h.control, Control.setWaiting_setWaiting, Control.setWaiting_tid_self, Nat.sub_sub]

theorem quiet (h : Sheds k n s s') (h' : Quiet s' s'') : Sheds k n s s'' :=
  h.trans (of_quiet h')

theorem after (h : Quiet s s') (h' : Sheds k n s' s'') : Sheds k n s s'' := by
  have := (of_quiet (k := k) h).trans h'
  rwa [Nat.zero_add] at this

theorem steered (h : Sheds k n s s') (hG : G s.control (.shed k n)) : Steered G s s' := by
  refine ⟨?_, h.routed⟩
  rw [h.control]
  exact Control.steps_one hG trivial

theorem bufQRemoveHead : Sheds k 1 s (bufQRemoveHead s k) := by
  refine ⟨?_, id⟩
  rw [Tx.bufQRemoveHead, Control.setWaiting]
  refine TxState.control_modTid _ _ ?_
  rw [Tid.ctl, List.length_tail]
  rfl

theorem aggrTake {acc : AggrAcc} (h : aggrTake s k bf acc = some s') : Sheds k 1 s s' := by
  rw [Tx.aggrTake] at h
  dsimp only at h
  split at h
  · obtain rfl := Option.some_inj.mp h
    refine Sheds.quiet ?_ (.linkSubframe _)
    refine Sheds.quiet ?_ (.modBuf _ id)
    refine Sheds.quiet ?_ .logHanded
    exact .after (.athTxAddtoBaw _) bufQRemoveHead
  · cases h

theorem formAggrLoop {l : List BufId} {acc : AggrAcc} {out : AggrStatus × AggrAcc × TxState}
    (h : formAggrLoop k l acc s = some out) : ∃ n, Sheds k n s out.2.2 := by
  induction l generalizing acc s with
  | nil =>
    obtain rfl := Option.some_inj.mp h
    exact ⟨0, of_quiet (.refl s)⟩
  | cons bf rest ih =>
    rw [Tx.formAggrLoop] at h
    split at h
    · dsimp only at h
      split at h
      · obtain rfl := Option.some_inj.mp h
        exact ⟨0, of_quiet (.aggrRate acc)⟩
      · obtain ⟨s₁, htake, h⟩ := Option.bind_eq_some_iff.mp h
        obtain ⟨n, hrest⟩ := ih h
        exact ⟨1 + n, .after (.aggrRate acc) ((aggrTake htake).trans hrest)⟩
    · obtain rfl := Option.some_inj.mp h
      exact ⟨0, of_quiet (.refl s)⟩

theorem athTgtTxFormAggr {out : AggrStatus × List BufId × TxState}
    (h : athTgtTxFormAggr s k = some out) : ∃ n, Sheds k n s out.2.2 := by
  rw [Tx.athTgtTxFormAggr] at h
  split at h
  · cases h
  · rename_i first rest _
    obtain ⟨⟨status, acc, s₁⟩, hloop, rfl⟩ := Option.map_eq_some_iff.mp h
    obtain ⟨n, hs⟩ := formAggrLoop hloop
    have hfirst : Quiet s₁ (s₁.modBuf first fun b =>
        { b with bfAl := acc.al, bfNframes := acc.nframes }) := .modBuf _ id
    exact ⟨n, hs.quiet hfirst⟩

theorem schedAggrLoop {fuel : ℕ} (h : schedAggrLoop k fuel s = some s') :
    ∃ n, Sheds k n s s' := by
  induction fuel generalizing s with
  | zero =>
    obtain rfl := Option.some_inj.mp h
    exact ⟨0, of_quiet (.refl s)⟩
  | succ fuel ih =>
    rw [Tx.schedAggrLoop] at h
    split at h
    · obtain rfl := Option.some_inj.mp h
      exact ⟨0, of_quiet (.refl s)⟩
    · obtain ⟨⟨status, bfQ, s₁⟩, hform, h⟩ := Option.bind_eq_some_iff.mp h
      obtain ⟨n, hs⟩ := athTgtTxFormAggr hform
      have hs : Sheds k n s s₁ := hs
      dsimp only at h
      split at h
      · obtain rfl := Option.some_inj.mp h
        exact ⟨n, hs⟩
      · rename_i bf more
        have hsent : Quiet s₁ (if (s₁.buf bf).bfNframes = 1 then Tx.schedSingle s₁ bf
            else Tx.schedAggregate s₁ bf ((bf :: more).getLastD bf)) := by
          split
          · exact .schedSingle
          · exact .schedAggregate _
        generalize (if (s₁.buf bf).bfNframes = 1 then Tx.schedSingle s₁ bf
          else Tx.schedAggregate s₁ bf ((bf :: more).getLastD bf)) = s₂ at h hsent
        split at h
        · obtain ⟨m, hrest⟩ := ih h
          exact ⟨n + m, (hs.quiet hsent).trans hrest⟩
        · obtain rfl := Option.some_inj.mp h
          exact ⟨n, hs.quiet hsent⟩

theorem schedNormalLoop (fuel : ℕ) : ∃ n, Sheds k n s (schedNormalLoop k fuel s) := by
  induction fuel generalizing s with
  | zero => exact ⟨0, of_quiet (.refl s)⟩
  | succ fuel ih =>
    rw [Tx.schedNormalLoop]
    split
    · exact ⟨0, of_quiet (.refl s)⟩
    · rename_i bf _ _
      have hsent : Sheds k 1 s (athTgtTxSendNormal (Tx.bufQRemoveHead s k) bf) :=
        bufQRemoveHead.quiet .athTgtTxSendNormal
      dsimp only
      split
      · obtain ⟨n, hrest⟩ := ih
        exact ⟨1 + n, hsent.trans hrest⟩
      · exact ⟨1, hsent⟩

theorem tidDrainLoop {l : List BufId} (h : tidDrainLoop k l s = some s') :
    Sheds k l.length s s' := by
  induction l generalizing s with
  | nil =>
    obtain rfl := Option.some_inj.mp h
    exact of_quiet (.refl s)
  | cons bf rest ih =>
    obtain ⟨s₁, hfree, h⟩ := Option.bind_eq_some_iff.mp h
    rw [List.length_cons, Nat.add_comm]
    exact (bufQRemoveHead.quiet (.athTxFreebuf hfree)).trans (ih h)

theorem athTgtTidDrain (h : athTgtTidDrain s k = some s') :
    Sheds k (s.tid k).bufQ.length s s' := by
  obtain ⟨s₁, hloop, rfl⟩ := Option.map_eq_some_iff.mp h
  exact (tidDrainLoop hloop).quiet (.modTid _ rfl)

theorem cleanupBufQ {discardAll : Bool} {l : List BufId}
    (h : cleanupBufQ k discardAll l s = some s') : ∃ n, Sheds k n s s' := by
  induction l generalizing s with
  | nil =>
    obtain rfl := Option.some_inj.mp h
    exact ⟨0, of_quiet (.refl s)⟩
  | cons bf rest ih =>
    rw [Tx.cleanupBufQ] at h
    split at h
    · split at h
      · cases h
      · rename_i first _ _
        obtain ⟨s₁, hfree, h⟩ := Option.bind_eq_some_iff.mp h
        obtain ⟨n, hrest⟩ := ih h
        have hdiscard : Quiet (Tx.bufQRemoveHead s k)
            (discardFromBaw (Tx.bufQRemoveHead s k) k first) := by
          rw [discardFromBaw]
          split
          · exact .athTxUpdateBaw _
          · exact .refl _
        exact ⟨1 + n, ((bufQRemoveHead.quiet hdiscard).quiet (.athTxFreebuf hfree)).trans hrest⟩
    · obtain ⟨n, hrest⟩ := ih h
      refine ⟨n, .after (.modBuf _ fun _ hcomp => ?_) hrest⟩
      cases hcomp

end Sheds

/-! ## Scheduling -/

namespace Steered

theorem trans (h : Steered G s s') (h' : Steered G s' s'') : Steered G s s'' :=
  ⟨h.moves.trans h'.moves, h'.routed ∘ h.routed⟩

theorem quiet (h : Steered G s s') (h' : Quiet s' s'') : Steered G s s'' :=
  h.trans h'.steered

theorem after (h : Quiet s s') (h' : Steered G s' s'') : Steered G s s'' :=
  h.steered.trans h'

theorem of_eq (hbuf : s'.buf = s.buf) (htid : s'.tid = s.tid) (htxq : s'.txq = s.txq) :
    Steered G s s' :=
  (Quiet.of_eq hbuf htid htxq).steered

/-- A function that does what one action says. -/
theorem of_act {a : ControlAct} (hG : G s.control a) (hcan : s.control.Can a)
    (hcontrol : s'.control = s.control.act a) (hbuf : s'.buf = s.buf) : Steered G s s' := by
  constructor
  · rw [hcontrol]
    exact Control.steps_one hG hcan
  · intro h
    rw [TxState.Routed, hbuf]
    exact h

end Steered

theorem control_athTgtTxEnqueue :
    (athTgtTxEnqueue s q k).control = s.control.enqueue q k := by
  rw [athTgtTxEnqueue, Control.enqueue]
  show _ = if (s.tid k).paused then _ else if (s.tid k).sched then _ else _
  split
  · rfl
  · split
    · rfl
    · rw [TxState.control_modTxq, TxState.control_modTid _ (fun t => { t with sched := true }) rfl]
      rfl

theorem buf_athTgtTxEnqueue : (athTgtTxEnqueue s q k).buf = s.buf := by
  rw [athTgtTxEnqueue]
  split
  · rfl
  · split <;> rfl

theorem control_requeueTid : (requeueTid s q k).control = s.control.requeue q k := by
  rw [requeueTid, Control.requeue]
  have hwaiting : (s.control.tid k).waiting = (s.tid k).bufQ.length := rfl
  by_cases hempty : (s.tid k).bufQ = []
  · rw [if_pos hempty, if_pos (hwaiting.trans (List.length_eq_zero_iff.mpr hempty))]
  · rw [if_neg hempty, if_neg fun h => hempty (List.length_eq_zero_iff.mp (hwaiting ▸ h)),
      control_athTgtTxEnqueue]

theorem buf_requeueTid : (requeueTid s q k).buf = s.buf := by
  rw [requeueTid]
  split
  · rfl
  · exact buf_athTgtTxEnqueue

theorem control_tidqRemoveHead :
    (tidqRemoveHead s q k).control = s.control.dequeue q k := by
  rw [tidqRemoveHead, TxState.control_modTid _ (fun t => { t with sched := false }) rfl,
    TxState.control_modTxq]
  rfl

/-- What the scheduler does. -/
def ControlAct.Schedules : ControlAct → Prop
  | .serve .. | .skip .. => True
  | _ => False

theorem ControlAct.Schedules.plain {a : ControlAct} (h : a.Schedules) : a.Plain := by
  cases a <;> first | exact trivial | exact False.elim h

namespace Steered

theorem mono {G' : Control → ControlAct → Prop} (hG : ∀ c a, G c a → G' c a)
    (h : Steered G s s') : Steered G' s s' :=
  ⟨Machine.StepsWhere.mono hG h.moves, h.routed⟩

theorem txqScheduleLoop {l : List TidId} (hl : s.control.tidq q = l)
    (h : txqScheduleLoop q l s = some s') : Steered (fun _ a => a.Schedules) s s' := by
  induction l generalizing s with
  | nil =>
    obtain rfl := Option.some_inj.mp h
    exact (Quiet.refl s).steered
  | cons k rest ih =>
    have hhead : (s.control.tidq q).head? = some k := by
      rw [hl]
      rfl
    have hpaused : ((tidqRemoveHead s q k).tid k).paused = (s.control.tid k).paused := by
      rw [tidqRemoveHead, TxState.modTid_tid_self]
      rfl
    rw [Tx.txqScheduleLoop, hpaused] at h
    split at h
    · have hskip : Steered (fun _ a => a.Schedules) s (tidqRemoveHead s q k) :=
        of_act (a := .skip q k) trivial ⟨hhead, ‹_›⟩ control_tidqRemoveHead rfl
      refine hskip.trans (ih ?_ h)
      rw [control_tidqRemoveHead, Control.dequeue, Control.modTid_tidq, Control.setTidq_tidq_self,
        hl, List.tail_cons]
    · obtain ⟨s₁, hsend, rfl⟩ := Option.map_eq_some_iff.mp h
      have hsheds : ∃ n, Sheds k n (tidqRemoveHead s q k) s₁ := by
        split at hsend
        · exact Sheds.schedAggrLoop hsend
        · obtain rfl := Option.some_inj.mp hsend
          exact Sheds.schedNormalLoop _
      obtain ⟨n, hsheds⟩ := hsheds
      have hcontrol : (requeueTid s₁ q k).control = s.control.act (.serve q k n) := by
        rw [control_requeueTid, hsheds.control, control_tidqRemoveHead,
          Control.dequeue_tid_self]
        rfl
      refine ⟨?_, fun hs => ?_⟩
      · rw [hcontrol]
        exact Control.steps_one trivial
          ⟨hhead, by simpa using ‹¬(s.control.tid k).paused = true›⟩
      · rw [TxState.Routed, buf_requeueTid]
        exact hsheds.routed hs

/-- The scheduler leaves the flags of the TIDs alone. -/
theorem core_athTgtTxqSchedule (h : athTgtTxqSchedule s q = some s') (k : TidId) :
    (s'.control.tid k).core = (s.control.tid k).core := by
  refine Control.steps_invariant (P := fun c => (c.tid k).core = (s.control.tid k).core)
    (txqScheduleLoop rfl h).moves rfl fun c a hc hserves _ => ?_
  rw [Control.core_act, ← hc]
  cases a <;> first | exact ite_self _ | exact False.elim hserves

section

variable (hsafe : ∀ c a, ControlAct.Plain a → G c a)

include hsafe

theorem athTgtTxqSchedule (h : athTgtTxqSchedule s q = some s') : Steered G s s' :=
  (txqScheduleLoop rfl h).mono fun c a ha => hsafe c a ha.plain

theorem athAggrPauseTid : Steered G s (athAggrPauseTid s k) :=
  of_act (hsafe _ (.pause k) trivial) trivial
    (TxState.control_modTid _ (fun t => { t with paused := true }) rfl) rfl

theorem athAggrResumeTid (hresume : G s.control (.resume k))
    (h : athAggrResumeTid s k = some s') : Steered G s s' := by
  rw [Tx.athAggrResumeTid] at h
  dsimp only at h
  have hresumed : ∀ s₁ : TxState, s₁.buf = s.buf →
      s₁.control = (s.control.modTid k fun t => { t with paused := false }).requeue
        (tidToActxq k.2) k → Steered G s s₁ := by
    intro s₁ hbuf hcontrol
    exact of_act hresume trivial hcontrol hbuf
  have hcontrol : (s.modTid k fun tid => { tid with paused := false }).control =
      s.control.modTid k fun t => { t with paused := false } := TxState.control_modTid _ _ rfl
  split at h
  · obtain rfl := Option.some_inj.mp h
    refine hresumed _ rfl ?_
    rw [← hcontrol, ← control_requeueTid, requeueTid, if_pos ‹_›]
  · have hscheduled := athTgtTxqSchedule hsafe h
    refine Steered.trans (hresumed _ ?_ ?_) hscheduled
    · rw [buf_athTgtTxEnqueue]
      rfl
    · rw [← hcontrol, ← control_requeueTid, requeueTid, if_neg ‹_›]

/-- Frames join the queue of a TID that is then scheduled. -/
theorem push {f : Tid → Tid} {n : ℕ}
    (hf : (f (s.tid k)).ctl = { (s.tid k).ctl with waiting := (s.tid k).ctl.waiting + n })
    (hq : q = tidToActxq k.2) : Steered G s (athTgtTxEnqueue (s.modTid k f) q k) := by
  refine of_act (hsafe _ (.push k n) trivial) trivial ?_ buf_athTgtTxEnqueue
  rw [control_athTgtTxEnqueue, TxState.control_modTid f (fun t => { t with waiting := t.waiting + n })
    hf, hq]
  rfl

end

end Steered

end Ath9kHtc.Tx
