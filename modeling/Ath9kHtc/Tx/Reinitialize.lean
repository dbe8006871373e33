import Ath9kHtc.Tx.Controlled
import Ath9kHtc.Tx.CleanupCount

/-!
# Postponed initialisations

A node created while one of its TIDs is in cleanup leaves the initialisation of that TID to the
end of the cleanup.
-/

namespace Ath9kHtc.Tx

variable {sc sc' : Softc} {s s' s'' : TxState} {k k' : TidId} {q : QueueId} {bf : BufId} {e : Event}

/-- What `owl_tgt_tid_init` leaves. -/
structure Tid.Initialised (tid : Tid) : Prop where
  seqStart : tid.seqStart = 0
  seqNext : tid.seqNext = 0
  bawSize : tid.bawSize = wmeMaxBa
  bawHead : tid.bawHead = 0
  bawTail : tid.bawTail = 0
  bitmap : ∀ i < athTidMaxBufs, tid.txBufBitmap i = false
  bufQ : tid.bufQ = []
  paused : tid.paused = false
  sched : tid.sched = false
  cleanup : tid.cleanupInprogres = false
  aggr : tid.aggrEnabled = false
  reinit : tid.reinitializeFlag = false

theorem initialised_owlTgtTidInit (tid : Tid) : (owlTgtTidInit tid).Initialised where
  seqStart := rfl
  seqNext := rfl
  bawSize := rfl
  bawHead := rfl
  bawTail := rfl
  bitmap _ hi := if_pos hi
  bufQ := rfl
  paused := rfl
  sched := rfl
  cleanup := rfl
  aggr := rfl
  reinit := rfl

/-- A TID but for the log of the frames handed over. -/
def Tid.unlogged (tid : Tid) : Tid := { tid with handed := [] }

theorem Tid.Initialised.congr {tid tid' : Tid} (h : tid.Initialised)
    (heq : tid'.unlogged = tid.unlogged) : tid'.Initialised := by
  have hfield : ∀ {α : Type} (f : Tid → α), (∀ t, f t.unlogged = f t) → f tid' = f tid := by
    intro α f hf
    rw [← hf tid', ← hf tid, heq]
  constructor
  · exact (hfield Tid.seqStart fun _ => rfl).trans h.seqStart
  · exact (hfield Tid.seqNext fun _ => rfl).trans h.seqNext
  · exact (hfield Tid.bawSize fun _ => rfl).trans h.bawSize
  · exact (hfield Tid.bawHead fun _ => rfl).trans h.bawHead
  · exact (hfield Tid.bawTail fun _ => rfl).trans h.bawTail
  · intro i hi
    exact (hfield (fun t => t.txBufBitmap i) fun _ => rfl).trans (h.bitmap i hi)
  · exact (hfield Tid.bufQ fun _ => rfl).trans h.bufQ
  · exact (hfield Tid.paused fun _ => rfl).trans h.paused
  · exact (hfield Tid.sched fun _ => rfl).trans h.sched
  · exact (hfield Tid.cleanupInprogres fun _ => rfl).trans h.cleanup
  · exact (hfield Tid.aggrEnabled fun _ => rfl).trans h.aggr
  · exact (hfield Tid.reinitializeFlag fun _ => rfl).trans h.reinit

/-! ## What scheduling leaves of an idle TID -/

/-- A function that changes nothing of a TID but its log. -/
def Apart (k : TidId) (s s' : TxState) : Prop := (s'.tid k).unlogged = (s.tid k).unlogged

namespace Apart

theorem of_eq (h : s'.tid = s.tid) : Apart k s s' := by
  rw [Apart, h]

theorem trans (h : Apart k s s') (h' : Apart k s' s'') : Apart k s s'' := Eq.trans h' h

theorem modTid (f : Tid → Tid) (hne : k ≠ k') : Apart k s (s.modTid k' f) := by
  rw [Apart, TxState.modTid_tid_of_ne _ _ _ hne]

theorem logHanded : Apart k s (logHanded s bf) := by
  rw [Tx.logHanded]
  split
  · rfl
  · rename_i k' _
    rcases eq_or_ne k k' with rfl | hne
    · rw [Apart, TxState.modTid_tid_self]
      rfl
    · exact modTid _ hne

theorem athTgtTxqAddUcast : Apart k s (athTgtTxqAddUcast s bf) := by
  refine of_eq ?_
  rw [Tx.athTgtTxqAddUcast]
  show (axqLinkTo _ _ _).tid = _
  unfold axqLinkTo
  split <;> rfl

theorem athTgtTxSendNormal : Apart k s (athTgtTxSendNormal s bf) := by
  have hseries : ∀ s : TxState, (normalSeries s bf).tid = s.tid := by
    intro s
    rw [normalSeries]
    split <;> rfl
  exact (logHanded.trans (of_eq (hseries _))).trans athTgtTxqAddUcast

theorem schedNormalLoop (hne : k ≠ k') (n : ℕ) : Apart k s (schedNormalLoop k' n s) := by
  induction n generalizing s with
  | zero => rfl
  | succ n ih =>
    rw [Tx.schedNormalLoop]
    split
    · rfl
    · rename_i bf _ _
      have hsent : Apart k s (Tx.athTgtTxSendNormal (bufQRemoveHead s k') bf) :=
        (modTid _ hne).trans athTgtTxSendNormal
      dsimp only
      split
      · exact hsent.trans ih
      · exact hsent

theorem aggrRate (acc : AggrAcc) : Apart k s (aggrRate s k' bf acc).2 := by
  rw [Tx.aggrRate]
  split <;> rfl

theorem aggrTake {acc : AggrAcc} (hne : k ≠ k') (h : aggrTake s k' bf acc = some s') :
    Apart k s s' := by
  rw [Tx.aggrTake] at h
  dsimp only at h
  split at h
  · obtain rfl := Option.some_inj.mp h
    have hmoved : Apart k s (Tx.logHanded (bufQRemoveHead
        (s.modTid k' fun tid => athTxAddtoBaw tid (s.buf bf)) k') bf) :=
      ((modTid _ hne).trans (modTid _ hne)).trans logHanded
    refine hmoved.trans (of_eq ?_)
    unfold linkSubframe
    split <;> rfl
  · cases h

theorem formAggrLoop (hne : k ≠ k') {l : List BufId} {acc : AggrAcc}
    {out : AggrStatus × AggrAcc × TxState} (h : formAggrLoop k' l acc s = some out) :
    Apart k s out.2.2 := by
  induction l generalizing acc s with
  | nil =>
    obtain rfl := Option.some_inj.mp h
    rfl
  | cons bf rest ih =>
    rw [Tx.formAggrLoop] at h
    split at h
    · dsimp only at h
      split at h
      · obtain rfl := Option.some_inj.mp h
        exact aggrRate acc
      · obtain ⟨s₁, htake, h⟩ := Option.bind_eq_some_iff.mp h
        exact ((aggrRate acc).trans (aggrTake hne htake)).trans (ih h)
    · obtain rfl := Option.some_inj.mp h
      rfl

theorem schedAggrLoop (hne : k ≠ k') {fuel : ℕ} (h : schedAggrLoop k' fuel s = some s') :
    Apart k s s' := by
  induction fuel generalizing s with
  | zero =>
    obtain rfl := Option.some_inj.mp h
    rfl
  | succ fuel ih =>
    rw [Tx.schedAggrLoop] at h
    split at h
    · obtain rfl := Option.some_inj.mp h
      rfl
    · obtain ⟨⟨status, bfQ, s₁⟩, hform, h⟩ := Option.bind_eq_some_iff.mp h
      have hformed : Apart k s s₁ := by
        rw [athTgtTxFormAggr] at hform
        split at hform
        · cases hform
        · obtain ⟨out, hloop, hpair⟩ := Option.map_eq_some_iff.mp hform
          have hs := formAggrLoop hne hloop
          obtain ⟨-, -, rfl⟩ := hpair
          exact hs
      dsimp only at h
      split at h
      · obtain rfl := Option.some_inj.mp h
        exact hformed
      · rename_i bf more
        have hsent : Apart k s₁ (if (s₁.buf bf).bfNframes = 1 then schedSingle s₁ bf
            else schedAggregate s₁ bf ((bf :: more).getLastD bf)) := by
          split
          · exact Apart.trans (of_eq rfl) athTgtTxqAddUcast
          · exact Apart.trans (of_eq rfl) athTgtTxqAddUcast
        generalize (if (s₁.buf bf).bfNframes = 1 then schedSingle s₁ bf
          else schedAggregate s₁ bf ((bf :: more).getLastD bf)) = s₂ at h hsent
        split at h
        · exact (hformed.trans hsent).trans (ih h)
        · obtain rfl := Option.some_inj.mp h
          exact hformed.trans hsent

theorem athTgtTxEnqueue (hne : k ≠ k') : Apart k s (athTgtTxEnqueue s q k') := by
  rw [Tx.athTgtTxEnqueue]
  split
  · rfl
  · split
    · rfl
    · have hmarked := modTid (s := s) (fun tid => { tid with sched := true }) hne
      exact hmarked.trans (of_eq rfl)

end Apart

/-- A TID without frames and marks has nothing to lose when its queue is served. -/
theorem txqScheduleLoop_initialised {l : List TidId} (hi : (s.tid k).Initialised)
    (h : txqScheduleLoop q l s = some s') : (s'.tid k).Initialised := by
  induction l generalizing s with
  | nil =>
    obtain rfl := Option.some_inj.mp h
    exact hi
  | cons k' rest ih =>
    rw [txqScheduleLoop] at h
    have hremoved : ((tidqRemoveHead s q k').tid k).Initialised := by
      rcases eq_or_ne k k' with rfl | hne
      · rw [tidqRemoveHead, TxState.modTid_tid_self]
        exact { hi with sched := rfl }
      · rw [tidqRemoveHead, TxState.modTid_tid_of_ne _ _ _ hne]
        exact hi
    generalize tidqRemoveHead s q k' = s₁ at h hremoved
    split at h
    · exact ih hremoved h
    · obtain ⟨s₂, hsend, rfl⟩ := Option.map_eq_some_iff.mp h
      rcases eq_or_ne k k' with rfl | hne
      · rw [hremoved.aggr, if_neg Bool.false_ne_true, athTgtTxSchedNormal, schedNormalLoop,
          hremoved.bufQ] at hsend
        obtain rfl := Option.some_inj.mp hsend
        rw [requeueTid, if_pos hremoved.bufQ]
        exact hremoved
      · have hsent : Apart k s₁ s₂ := by
          split at hsend
          · exact .schedAggrLoop hne hsend
          · obtain rfl := Option.some_inj.mp hsend
            exact .schedNormalLoop hne _
        rw [requeueTid]
        split
        · exact hremoved.congr hsent
        · exact hremoved.congr (hsent.trans (.athTgtTxEnqueue hne))

/-! ## The end of a cleanup -/

theorem owlTgtTidCleanup_initialised (hlast : aInt8 ((s.tid k).incomp - 1) = 0)
    (hreinit : (s.tid k).reinitializeFlag = true) (h : owlTgtTidCleanup s k = some s') :
    (s'.tid k).Initialised := by
  rw [owlTgtTidCleanup_eq, if_neg (not_not.mpr hlast), if_pos hreinit] at h
  obtain rfl := Option.some_inj.mp h
  rw [TxState.modTid_tid_self]
  exact initialised_owlTgtTidInit _

theorem completeBuf_initialised (hkey : keyOf (s.buf bf) = some k) (hl : LandsOne s bf k)
    (hreinit : (s.tid k).reinitializeFlag = true) (h : completeBuf s bf = some s') :
    (s'.tid k).Initialised := by
  obtain ⟨hc, hkind, hlast⟩ := hl
  have htid : s.tidOf bf = some k := hkey
  rcases hkind with hcomp | ⟨hcomp, haggr⟩
  · rw [completeBuf, hcomp] at h
    change (s.tidOf bf).bind _ = _ at h
    rw [htid] at h
    change athTgtTxCompNormal s k bf = some s' at h
    obtain ⟨s₁, hclean, hfree⟩ := Option.bind_eq_some_iff.mp h
    rw [if_pos hc] at hclean
    have hi := owlTgtTidCleanup_initialised hlast hreinit hclean
    have hsame : s'.tid = s₁.tid :=
      (athTxFreebuf_tid hfree).trans (spares_athTxStatusUpdate s₁ bf 0).tid
    rw [hsame]
    exact hi
  · rw [completeBuf, hcomp] at h
    change (s.tidOf bf).bind _ = _ at h
    rw [htid] at h
    change athTgtTxCompAggr s k bf = some s' at h
    rw [athTgtTxCompAggr, if_pos hc, athTxCompCleanup,
      if_neg (by rw [haggr]; exact Bool.false_ne_true)] at h
    obtain ⟨s₁, hfree, hclean⟩ := Option.bind_eq_some_iff.mp h
    have hsame : s₁.tid = s.tid :=
      (athTxFreebuf_tid hfree).trans (spares_athTxStatusUpdate s bf 0).tid
    rw [hsame, if_pos hc] at hclean
    exact owlTgtTidCleanup_initialised (by rwa [hsame]) (by rwa [hsame]) hclean

theorem processqRound_initialised {state : TxqState} {answer : Option TxStat} {more : Bool}
    (hproc : processed q state answer s = some bf) (hkey : keyOf (s.buf bf) = some k)
    (hl : LandsOne s bf k) (hreinit : (s.tid k).reinitializeFlag = true)
    (h : processqRound q state answer s = some (s', more)) : (s'.tid k).Initialised := by
  rw [processed] at hproc
  split at hproc
  · cases hproc
  · rename_i hbusy
    obtain ⟨es, hq⟩ := List.head?_eq_some_iff.mp hproc
    rw [processqRound, hq] at h
    dsimp only at h
    rw [if_neg hbusy] at h
    obtain ⟨s₁, hcomp, h⟩ := Option.bind_eq_some_iff.mp h
    obtain ⟨s₂, hsched, hpair⟩ := Option.map_eq_some_iff.mp h
    obtain ⟨rfl, -⟩ := Prod.mk.inj hpair
    have hi : (s₁.tid k).Initialised := by
      refine completeBuf_initialised ?_ ?_ ?_ hcomp
      · exact hkey
      · exact ⟨hl.cleanup, hl.kind, hl.last⟩
      · exact hreinit
    split at hsched
    · exact txqScheduleLoop_initialised hi hsched
    · obtain rfl := Option.some_inj.mp hsched
      exact hi

/-! ## Runs that heed a postponed initialisation -/

instance (s : TxState) (bf : BufId) (k : TidId) : Decidable (LandsWithin s bf k) :=
  decidable_of_iff ((s.buf bf).bfComp = some .aggr ∧ (s.buf bf).bfIsaggr = true ∧
      (s.tid k).cleanupInprogres = true ∧
      ∃ i < (s.subframes bf).length, aInt8 ((s.tid k).incomp - (i + 1 : ℕ)) = 0)
    ⟨fun h => ⟨h.1, h.2.1, h.2.2.1, h.2.2.2⟩, fun h => ⟨h.comp, h.aggr, h.cleanup, h.last⟩⟩

/-- No cleanup with a postponed initialisation ends within an aggregate. -/
def Heeds (sc : Softc) : Event → Prop
  | .processq q state answer =>
    ∀ bf ∈ processed q state answer sc.tx, ∀ k ∈ keyOf (sc.tx.buf bf), LandsWithin sc.tx bf k →
      (sc.tx.tid k).reinitializeFlag = false
  | _ => True

instance (sc : Softc) (e : Event) : Decidable (Heeds sc e) :=
  match e with
  | .processq q state answer =>
    inferInstanceAs (Decidable (∀ bf ∈ processed q state answer sc.tx,
      ∀ k ∈ keyOf (sc.tx.buf bf), _ → _))
  | .nodeCreate .. | .recvData .. | .recvMgmt .. | .statusClear | .statusSend | .drainStart |
    .drainTidq .. | .drainEnd | .enableAggr .. | .nodeCleanup .. | .nodeUpdate .. |
    .icUpdate .. => inferInstanceAs (Decidable True)

theorem governed_finish {c : Control} (hok : Heeds sc e) (h : Governed sc e c (.finish k)) :
    (c.tid k).reinit = false := by
  rcases h with hplain | hrisk
  · exact False.elim hplain
  · cases hrisk with
    | @complete q state answer bf k' c _ hproc hkey hr =>
        cases hr with
        | finish hl hreinit =>
            rw [Control.act, Control.modTid_tid_self]
            exact hreinit
        | finishAggr hl hreinit =>
            rw [hreinit]
            exact hok bf hproc k hkey hl

/-- The completion of the last frame counted initialises the TID. -/
def ServesInit (sc : Softc) (e : Event) (k : TidId) : Prop :=
  ∃ q state answer bf, e = .processq q state answer ∧ processed q state answer sc.tx = some bf ∧
    keyOf (sc.tx.buf bf) = some k ∧ LandsOne sc.tx bf k ∧ (sc.tx.tid k).reinitializeFlag = true

theorem governed_init_serves {c : Control} (hc : (sc.tx.tid k).cleanupInprogres = true)
    (h : Governed sc e c (.init k)) : ServesInit sc e k := by
  rcases h with hplain | hrisk
  · exact False.elim hplain
  · cases hrisk with
    | @complete q state answer bf k' c _ hproc hkey hr =>
        cases hr with
        | init hl hreinit => exact ⟨q, state, answer, bf, rfl, hproc, hkey, hl, hreinit⟩
    | create _ hnot => exact absurd (hc.symm.trans hnot) (by decide)

namespace Control

variable {c : Control} {a : ControlAct}

theorem core_eq {t t' : Ctl} (h : t.core = t'.core) :
    t.cleanup = t'.cleanup ∧ t.reinit = t'.reinit :=
  ⟨(congrArg Ctl.cleanup h :), (congrArg Ctl.reinit h :)⟩

/-- A postponed initialisation is forgotten only where a cleanup ends without it. -/
theorem pending_act (h : (c.tid k).reinit = true → (c.tid k).cleanup = true)
    (hfinish : a = .finish k → (c.tid k).reinit = false) (hcan : c.Can a) :
    ((c.act a).tid k).reinit = true → ((c.act a).tid k).cleanup = true := by
  have hcore := core_act (c := c) (k := k) a
  split at hcore
  · rename_i htid
    have hsame : ((c.act a).tid k).core = (a.onCore (c.tid k).core).core := by
      rw [← hcore]
      rfl
    obtain ⟨hcl, hre⟩ := core_eq hsame
    rw [hcl, hre]
    cases a with
    | finish k' =>
        obtain rfl := htid
        intro hreinit
        exact absurd (hreinit.symm.trans (hfinish rfl)) (by decide)
    | postpone k' =>
        obtain rfl := htid
        exact fun _ => hcan
    | count => exact fun _ => rfl
    | init => exact fun hreinit => absurd hreinit Bool.false_ne_true
    | _ => exact h
  · obtain ⟨hcl, hre⟩ := core_eq hcore
    rw [hcl, hre]
    exact h

/-- While an initialisation is postponed only the initialisation ends the cleanup. -/
theorem postponed_act (h : (c.tid k).reinit = true ∧ (c.tid k).cleanup = true)
    (hfinish : a = .finish k → (c.tid k).reinit = false) (hinit : a ≠ .init k) :
    ((c.act a).tid k).reinit = true ∧ ((c.act a).tid k).cleanup = true := by
  have hcore := core_act (c := c) (k := k) a
  split at hcore
  · rename_i htid
    have hsame : ((c.act a).tid k).core = (a.onCore (c.tid k).core).core := by
      rw [← hcore]
      rfl
    obtain ⟨hcl, hre⟩ := core_eq hsame
    rw [hcl, hre]
    cases a with
    | finish k' =>
        obtain rfl := htid
        exact absurd (h.1.symm.trans (hfinish rfl)) (by decide)
    | init k' =>
        obtain rfl := htid
        exact absurd rfl hinit
    | postpone => exact ⟨rfl, h.2⟩
    | count => exact ⟨h.1, rfl⟩
    | _ => exact h
  · obtain ⟨hcl, hre⟩ := core_eq hcore
    rw [hcl, hre]
    exact h

end Control

theorem reinit_pending (h : transmit.ReachableWhere Heeds sc) (k : TidId)
    (hreinit : (sc.tx.tid k).reinitializeFlag = true) :
    (sc.tx.tid k).cleanupInprogres = true := by
  refine control_invariant (P := fun c => (c.tid k).reinit = true → (c.tid k).cleanup = true)
    h ?_ ?_ hreinit
  · rintro c rfl hreinit
    exact absurd hreinit Bool.false_ne_true
  · intro sc e c a hok _ hc hG hcan
    refine Control.pending_act hc ?_ hcan
    rintro rfl
    exact governed_finish hok hG

/-- A cleanup with a postponed initialisation ends by that initialisation. -/
theorem cleanup_end_initialises (hrouted : sc.tx.Routed) (hok : Heeds sc e)
    (hstep : step e sc = some sc') (hc : (sc.tx.tid k).cleanupInprogres = true)
    (hreinit : (sc.tx.tid k).reinitializeFlag = true)
    (hend : (sc'.tx.tid k).cleanupInprogres = false) : (sc'.tx.tid k).Initialised := by
  have hserves : ServesInit sc e k := by
    by_contra hnot
    have hkept := Control.steps_invariant (G := Governed sc e)
      (P := fun c => (c.tid k).reinit = true ∧ (c.tid k).cleanup = true)
      (step_steered hrouted hstep).moves ⟨hreinit, hc⟩ ?_
    · exact Bool.false_ne_true (hend.symm.trans hkept.2)
    · intro c a hP hG _
      refine Control.postponed_act hP ?_ ?_
      · rintro rfl
        exact governed_finish hok hG
      · rintro rfl
        exact hnot (governed_init_serves hc hG)
  obtain ⟨q, state, answer, bf, rfl, hproc, hkey, hl, -⟩ := hserves
  obtain ⟨⟨s₁, more⟩, hround, rfl⟩ := Option.map_eq_some_iff.mp hstep
  exact processqRound_initialised hproc hkey hl hreinit hround

/-- A postponed initialisation waits for the end of a cleanup, which performs it; and where the
cleanup counts what is out, none is left behind once no aggregation frame of the TID is at the
hardware. -/
structure ReinitHeeded (sc : Softc) : Prop where
  pending : ∀ k, (sc.tx.tid k).reinitializeFlag = true → (sc.tx.tid k).cleanupInprogres = true
  performed : ∀ e sc' k, Heeds sc e → step e sc = some sc' →
    (sc.tx.tid k).reinitializeFlag = true → (sc'.tx.tid k).cleanupInprogres = false →
    (sc'.tx.tid k).Initialised
  accepted : transmit.ReachableWhere (fun sc e => Heeds sc e ∧ Disciplined .clear sc e) sc →
    ∀ k, Grounded sc.tx k → (sc.tx.tid k).reinitializeFlag = false

theorem reinit_heeded (h : transmit.ReachableWhere Heeds sc) : ReinitHeeded sc where
  pending := reinit_pending h
  performed e sc' k hok hstep hreinit hend :=
    cleanup_end_initialises (routed_of_reachable h) hok hstep (reinit_pending h k hreinit) hreinit
      hend
  accepted := by
    intro hd k hgrounded
    by_contra hreinit
    have hc := reinit_pending h k (by simpa using hreinit)
    have hsound := (reachable_sound (hd.mono fun _ _ hok => hok.2)).2 k
    obtain ⟨hcount, hpos, -⟩ := cleanupCounts_of_sound hsound hc
    have hnone : (sc.tx.airborne k).card = 0 := by
      rw [TxState.airborne, hwAir_of_grounded hgrounded, Multiset.card_zero]
    omega

/-- A frame at the hardware whose TID is switched off before its node is created again. -/
def postponeEvents : List Event :=
  [.nodeCreate (createNode 0), .enableAggr 0 0 true, .recvData 0 (dataTo 0) blankFrame,
    .enableAggr 0 0 false, .nodeCreate (createNode 0)]

theorem reinit_heeded_run :
    ∃ sc : Softc, (sc.tx.tid (0, 0)).reinitializeFlag = true ∧ ReinitHeeded sc := by
  obtain ⟨sc, steps, hreinit⟩ := Machine.exists_of_runWhere transmit.Init step Heeds
    (P := fun sc => (sc.tx.tid (0, 0)).reinitializeFlag = true)
    (s := attach smallConfig steadyAnswers) postponeEvents (by decide +kernel)
  exact ⟨sc, hreinit, reinit_heeded ⟨_, ⟨_, _, by decide, rfl⟩, steps⟩⟩

/-- The same with an aggregate of two frames, which completes. -/
def aggregateEvents : List Event :=
  [.icUpdate 65535 false, .nodeCreate (createNode 0), .enableAggr 0 0 true,
    .recvData 0 (dataTo 0) blankFrame, .recvData 0 (dataTo 0) blankFrame,
    .recvData 0 (dataTo 0) blankFrame, .processq 0 .active sent, .enableAggr 0 0 false,
    .nodeCreate (createNode 0), .processq 0 .active sent]

/-- The end of a cleanup within an aggregate forgets the initialisation. -/
theorem aggregate_forgets_init : ¬ ∀ sc, transmit.Reachable sc → ∀ k,
    ((sc.tx.tid k).reinitializeFlag = true → (sc.tx.tid k).cleanupInprogres = true) ∧
      (Grounded sc.tx k → (sc.tx.tid k).reinitializeFlag = false) := by
  intro h
  obtain ⟨sc, steps, hreinit, hc⟩ := Machine.exists_of_runWhere transmit.Init step
    (fun _ _ => True)
    (P := fun sc : Softc => (sc.tx.tid (0, 0)).reinitializeFlag = true ∧
      (sc.tx.tid (0, 0)).cleanupInprogres = false ∧ Grounded sc.tx (0, 0))
    (s := attach smallConfig steadyAnswers) aggregateEvents (by decide +kernel)
  have hforgotten := (h sc ⟨_, ⟨_, _, by decide, rfl⟩, steps⟩ (0, 0)).2 hc.2
  exact Bool.false_ne_true (hforgotten.symm.trans hreinit)

end Ath9kHtc.Tx
