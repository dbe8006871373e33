import Ath9kHtc.Tx.Scheduling

/-!
# The cleanup of a TID

What a completion does to a TID that is being cleaned up, and what starts a cleanup.  The
releases of buffers come before or after the changes of the TID in the code; as they do not
depend on each other, they are tracked in the order the session takes them.
-/

namespace Ath9kHtc.Tx

open Ledger

variable {G : TidId → Session → Action → Prop} {k : TidId} {q : QueueId} {s s' s₁ : TxState}
  {bf : BufId} {r p bs : List BufId} {l : Multiset BufId}

/-! ## Releases and TIDs -/

theorem athTxFreebuf_modTid (s : TxState) (bf : BufId) (k : TidId) (f : Tid → Tid) :
    athTxFreebuf (s.modTid k f) bf = (athTxFreebuf s bf).map fun s' => s'.modTid k f := by
  unfold athTxFreebuf
  simp only [athBufToggle]
  cases hheld : s.scTxbufHeld with
  | none =>
      have : (((athTgtSkbFree (s.modTid k f) bf).modBuf bf fun b =>
        { b with bfSkb := none, bfComp := none, bfNode := none, bfNext := none }).scTxbufHeld) =
          s.scTxbufHeld := rfl
      rw [this, hheld]
      have : (((athTgtSkbFree s bf).modBuf bf fun b =>
        { b with bfSkb := none, bfComp := none, bfNode := none, bfNext := none }).scTxbufHeld) =
          s.scTxbufHeld := rfl
      rw [this, hheld]
      rfl
  | some tmp =>
      have : (((athTgtSkbFree (s.modTid k f) bf).modBuf bf fun b =>
        { b with bfSkb := none, bfComp := none, bfNode := none, bfNext := none }).scTxbufHeld) =
          s.scTxbufHeld := rfl
      rw [this, hheld]
      have : (((athTgtSkbFree s bf).modBuf bf fun b =>
        { b with bfSkb := none, bfComp := none, bfNode := none, bfNext := none }).scTxbufHeld) =
          s.scTxbufHeld := rfl
      rw [this, hheld]
      rfl

/-! ## The end of a cleanup -/

/-- The TID after one of the frames its cleanup counts is gone. -/
def Tid.countDown (tid : Tid) : Tid := { tid with incomp := aInt8 (tid.incomp - 1) }

def Tid.stopCleanup (tid : Tid) : Tid := { tid with cleanupInprogres := false }

def Tid.resume (tid : Tid) : Tid := { tid with paused := false }

/-- Whether the next completion ends the cleanup and initialises the TID. -/
def Tid.resets (tid : Tid) : Bool :=
  decide (aInt8 (tid.incomp - 1) = 0) && tid.reinitializeFlag

/-- What `owl_tgt_tid_cleanup` does to its TID. -/
def Tid.completed (tid : Tid) : Tid :=
  if aInt8 (tid.incomp - 1) ≠ 0 then tid.countDown
  else if tid.reinitializeFlag then owlTgtTidInit tid.countDown.stopCleanup
  else tid.countDown.stopCleanup.resume

theorem session_completed (tid : Tid) (queue : List Frame) (air : Multiset Frame)
    (pend : List Frame) :
    tid.completed.session (if tid.resets then [] else queue) air pend =
      (tid.session queue air pend).completed := by
  unfold Tid.completed Session.completed Tid.resets
  by_cases hzero : aInt8 (tid.incomp - 1) = 0
  · have hzero' : (tid.session queue air pend).countDown.incomp = 0 := hzero
    rw [if_neg (not_not.mpr hzero), if_neg (not_not.mpr hzero')]
    cases hre : tid.reinitializeFlag with
    | true =>
        have hre' : (tid.session queue air pend).countDown.reinit = true := hre
        rw [if_pos rfl, if_pos hre']
        simp only [hzero, decide_true, Bool.and_self, if_true]
        rfl
    | false =>
        have hre' : (tid.session queue air pend).countDown.reinit = false := hre
        simp only [hre', Bool.and_false, Bool.false_eq_true, if_false]
        rfl
  · have hzero' : (tid.session queue air pend).countDown.incomp ≠ 0 := hzero
    rw [if_pos hzero, if_pos hzero']
    simp only [hzero, decide_false, Bool.false_and, Bool.false_eq_true, if_false]
    rfl

theorem completed_bufQ (tid : Tid) :
    tid.completed.bufQ = if tid.resets then [] else tid.bufQ := by
  unfold Tid.completed Tid.resets
  by_cases hzero : aInt8 (tid.incomp - 1) = 0
  · cases hre : tid.reinitializeFlag <;> simp [hzero] <;> rfl
  · simp [hzero]
    rfl

theorem completed_aggr (tid : Tid) (h : tid.completed.aggrEnabled = false) :
    tid.aggrEnabled = false ∨ tid.completed.bufQ = [] := by
  rw [completed_bufQ]
  unfold Tid.completed Tid.resets at *
  by_cases hzero : aInt8 (tid.incomp - 1) = 0
  · cases hre : tid.reinitializeFlag
    · simp only [hzero, ne_eq, not_true_eq_false, if_false, hre, Bool.false_eq_true] at h
      exact .inl h
    · exact .inr (by simp [hzero])
  · simp only [ne_eq, hzero, not_false_eq_true, if_true] at h
    exact .inl h

theorem owlTgtTidCleanup_eq (s : TxState) (k : TidId) : owlTgtTidCleanup s k =
    if aInt8 ((s.tid k).incomp - 1) ≠ 0 then some (s.modTid k Tid.countDown)
    else if (s.tid k).reinitializeFlag then
      some (s.modTid k fun tid => owlTgtTidInit tid.countDown.stopCleanup)
    else athAggrResumeTid (s.modTid k fun tid => tid.countDown.stopCleanup) k := by
  have htid : (s.modTid k Tid.countDown).tid k = (s.tid k).countDown := s.modTid_tid_self k _
  have htid' : ((s.modTid k Tid.countDown).modTid k Tid.stopCleanup).tid k =
      (s.tid k).countDown.stopCleanup := by
    rw [modTid_modTid, TxState.modTid_tid_self]
  show (if ((s.modTid k Tid.countDown).tid k).incomp ≠ 0 then some (s.modTid k Tid.countDown)
    else if (((s.modTid k Tid.countDown).modTid k Tid.stopCleanup).tid k).reinitializeFlag then
      some (((s.modTid k Tid.countDown).modTid k Tid.stopCleanup).modTid k owlTgtTidInit)
    else athAggrResumeTid ((s.modTid k Tid.countDown).modTid k Tid.stopCleanup) k) = _
  rw [htid, htid']
  simp only [modTid_modTid]
  rfl

theorem modTid_congr {f g : Tid → Tid} (h : f (s.tid k) = g (s.tid k)) :
    s.modTid k f = s.modTid k g := by
  rw [TxState.modTid, TxState.modTid, h]

/-- `owl_tgt_tid_cleanup` is a change of the TID, after which frames may be scheduled. -/
theorem owlTgtTidCleanup_spec (hsafe : ∀ k v a, Action.Safe a → G k v a)
    (hwf : (s.modTid k Tid.completed).ledger.WF ⟨[], [], l⟩)
    (hoff : (s.modTid k Tid.completed).ledger.Off)
    (h : owlTgtTidCleanup s k = some s') : Scheduled G l (s.modTid k Tid.completed) s' := by
  rw [owlTgtTidCleanup_eq] at h
  split at h
  · rename_i hne
    have heq : s.modTid k Tid.completed = s.modTid k Tid.countDown := modTid_congr (if_pos hne)
    obtain rfl := Option.some_inj.mp h
    rw [← heq]
    exact .refl hwf
  · rename_i hzero
    split at h
    · rename_i hre
      have heq : s.modTid k Tid.completed =
          s.modTid k fun tid => owlTgtTidInit tid.countDown.stopCleanup := by
        apply modTid_congr
        rw [Tid.completed, if_neg hzero, if_pos hre]
      obtain rfl := Option.some_inj.mp h
      rw [← heq]
      exact .refl hwf
    · rename_i hre
      have heq : s.modTid k Tid.completed =
          (s.modTid k fun tid => tid.countDown.stopCleanup).modTid k Tid.resume := by
        rw [modTid_modTid]
        apply modTid_congr
        rw [Tid.completed, if_neg hzero, if_neg hre]
      rw [heq] at hwf hoff ⊢
      exact athAggrResumeTid_spec hsafe hwf hoff h

/-- The buffers a TID loses when the completion initialises it. -/
def Tid.spilled (tid : Tid) : Multiset BufId := if tid.resets then ↑tid.bufQ else 0

theorem Track.completed {h h' : Hand} (hwf : s.ledger.WF h)
    (hall : h'.all = (s.tid k).spilled + h.all)
    (hothers : ∀ k', k' ≠ k → s.ledger.frames k' h'.rest = s.ledger.frames k' h.rest ∧
      s.ledger.frames k' h'.pend = s.ledger.frames k' h.pend)
    (hrun : session.StepsWhere (G k) (s.ledger.view h k)
      ((s.tid k).session (s.ledger.waiting k) (s.ledger.frames k h'.rest + s.ledger.hwAir k)
        (s.ledger.frames k h'.pend)).completed) :
    Track G s.ledger h (s.modTid k Tid.completed).ledger h' := by
  have hbufQ : (s.tid k).completed.unsched.bufQ =
      if (s.tid k).resets then [] else (s.tid k).bufQ := completed_bufQ _
  rw [TxState.ledger_modTid]
  apply setTid hwf
  · rw [hall, hbufQ, Tid.spilled]
    show _ = h.all + ((s.tid k).bufQ : Multiset BufId)
    split
    · rw [Multiset.coe_nil]
      abel
    · abel
  · intro b hb
    rw [hbufQ] at hb
    split at hb
    · cases hb
    · exact hwf.queued k b hb
  · intro hoff haggr
    rcases completed_aggr _ haggr with haggr | hnil
    · rw [hbufQ, show (s.tid k).bufQ = [] from hoff k haggr]
      split <;> rfl
    · exact hnil
  · exact hothers
  · have hwait : (s.tid k).completed.unsched.bufQ.map (fun b => frameOf (s.ledger.buf b)) =
        if (s.tid k).resets then [] else s.ledger.waiting k := by
      rw [hbufQ]
      split <;> rfl
    rw [hwait]
    have := session_completed (s.tid k) (s.ledger.waiting k)
      (s.ledger.frames k h'.rest + s.ledger.hwAir k) (s.ledger.frames k h'.pend)
    rw [← this] at hrun
    exact hrun

/-! ## Completions during a cleanup -/

theorem Ledger.view_cons {L : Ledger} {b : BufId} (hair : AirFor k (L.buf b)) :
    L.view ⟨b :: r, p, l⟩ k = (L.tid k).session (L.waiting k)
      (frameOf (L.buf b) ::ₘ (L.frames k r + L.hwAir k)) (L.frames k p) := by
  rw [view, frames_cons_of_airFor hair, ← Multiset.cons_coe, Multiset.cons_add]

/-- A frame sent alone leaves the hardware during a cleanup. -/
theorem Track.completeSingle (hwf : s.ledger.WF ⟨bf :: r, p, l⟩) (hair : AirFor k (s.buf bf))
    (hc : (s.tid k).cleanupInprogres = true)
    (hok : G k (s.ledger.view ⟨bf :: r, p, l⟩ k) (.completeSingle (frameOf (s.buf bf)))) :
    Track G s.ledger ⟨bf :: r, p, l⟩ (s.modTid k Tid.completed).ledger
      ⟨r, p, bf ::ₘ ((s.tid k).spilled + l)⟩ := by
  have hair' : AirFor k (s.ledger.buf bf) := hair
  apply completed hwf
  · simp only [Hand.all, ← Multiset.cons_coe, ← Multiset.singleton_add]
    abel
  · exact fun k' hne => ⟨(frames_cons_of_ne hair' hne).symm, rfl⟩
  · rw [view_cons hair'] at hok ⊢
    have hrun := Session.single (G := G k) (a := .completeSingle (frameOf (s.buf bf)))
      (v := (s.tid k).session (s.ledger.waiting k)
        (frameOf (s.buf bf) ::ₘ (s.ledger.frames k r + s.ledger.hwAir k)) (s.ledger.frames k p))
      ⟨hc, Multiset.mem_cons_self _ _⟩ hok
    simp only [Session.act, Session.land, Tid.session, Multiset.erase_cons_head] at hrun
    exact hrun

/-- A frame that is not counted by the cleanup, which takes it for one of its own. -/
theorem Track.completeOther (hwf : s.ledger.WF ⟨r, p, l⟩)
    (hc : (s.tid k).cleanupInprogres = true)
    (hok : G k (s.ledger.view ⟨r, p, l⟩ k) .completeOther) :
    Track G s.ledger ⟨r, p, l⟩ (s.modTid k Tid.completed).ledger
      ⟨r, p, (s.tid k).spilled + l⟩ := by
  apply completed hwf
  · simp only [Hand.all]
    abel
  · exact fun _ _ => ⟨rfl, rfl⟩
  · exact Session.single (a := .completeOther) hc hok

/-- What the completion of a subframe does to its TID during a cleanup. -/
def Tid.completedSubframe (tid : Tid) : Tid :=
  if aInt8 (tid.incomp - 1) = 0 then tid.countDown.stopCleanup.resume else tid.countDown

theorem session_completedSubframe (tid : Tid) (queue : List Frame) (air : Multiset Frame)
    (pend : List Frame) : tid.completedSubframe.session queue air pend =
      (tid.session queue air pend).completedSubframe := by
  unfold Tid.completedSubframe Session.completedSubframe
  by_cases hzero : aInt8 (tid.incomp - 1) = 0
  · have hzero' : (tid.session queue air pend).countDown.incomp = 0 := hzero
    rw [if_pos hzero, if_pos hzero']
    rfl
  · have hzero' : ¬(tid.session queue air pend).countDown.incomp = 0 := hzero
    rw [if_neg hzero, if_neg hzero']
    rfl

theorem completedSubframe_bufQ (tid : Tid) : tid.completedSubframe.bufQ = tid.bufQ := by
  unfold Tid.completedSubframe
  split <;> rfl

theorem completedSubframe_aggr (tid : Tid) :
    tid.completedSubframe.aggrEnabled = tid.aggrEnabled := by
  unfold Tid.completedSubframe
  split <;> rfl

theorem Track.completeSubframe (hwf : s.ledger.WF ⟨bf :: r, p, l⟩) (hair : AirFor k (s.buf bf))
    (hc : (s.tid k).cleanupInprogres = true)
    (hok : G k (s.ledger.view ⟨bf :: r, p, l⟩ k) (.completeSubframe (frameOf (s.buf bf)))) :
    Track G s.ledger ⟨bf :: r, p, l⟩ (s.modTid k Tid.completedSubframe).ledger
      ⟨r, p, bf ::ₘ l⟩ := by
  have hair' : AirFor k (s.ledger.buf bf) := hair
  have hbufQ : (s.tid k).completedSubframe.unsched.bufQ = (s.tid k).bufQ :=
    completedSubframe_bufQ _
  rw [TxState.ledger_modTid]
  apply setTid hwf
  · rw [hbufQ]
    simp only [Hand.all, ← Multiset.cons_coe, ← Multiset.singleton_add]
    show _ = _ + ((s.tid k).bufQ : Multiset BufId)
    abel
  · intro b hb
    rw [hbufQ] at hb
    exact hwf.queued k b hb
  · intro hoff haggr
    rw [hbufQ]
    exact hoff k ((completedSubframe_aggr (s.tid k)).symm.trans haggr)
  · exact fun k' hne => ⟨(frames_cons_of_ne hair' hne).symm, rfl⟩
  · rw [view_cons hair'] at hok ⊢
    have hrun := Session.single (G := G k) (a := .completeSubframe (frameOf (s.buf bf)))
      (v := (s.tid k).session (s.ledger.waiting k)
        (frameOf (s.buf bf) ::ₘ (s.ledger.frames k r + s.ledger.hwAir k)) (s.ledger.frames k p))
      ⟨hc, Multiset.mem_cons_self _ _⟩ hok
    rw [hbufQ]
    have heq := session_completedSubframe (s.tid k) (s.ledger.waiting k)
      (s.ledger.frames k r + s.ledger.hwAir k) (s.ledger.frames k p)
    simp only [Session.act, Session.land, Tid.session, Multiset.erase_cons_head] at hrun
    convert hrun using 1
    · rfl
    · exact heq

/-- The end of the completion of a frame that was sent alone. -/
theorem athTxCompCleanup_single (hwf : s.ledger.WF ⟨[bf], [], l⟩) (hoff : s.ledger.Off)
    (hair : AirFor k (s.buf bf)) (hc : (s.tid k).cleanupInprogres = true)
    (haggr : (s.buf bf).bfIsaggr = false) (hsafe : ∀ k v a, Action.Safe a → G k v a)
    (hok : G k (s.ledger.view ⟨[bf], [], l⟩ k) (.completeSingle (frameOf (s.buf bf))))
    (h : athTxCompCleanup s k bf = some s') :
    Track G s.ledger ⟨[bf], [], l⟩ s'.ledger ⟨[], [], (s.tid k).spilled + l⟩ := by
  rw [athTxCompCleanup] at h
  simp only [haggr, Bool.false_eq_true, if_false] at h
  obtain ⟨s₁, hfree, h⟩ := Option.bind_eq_some_iff.mp h
  have hstatus := spares_athTxStatusUpdate s bf 0
  have hledger : (athTxStatusUpdate s bf).ledger = s.ledger := ledger_athTxStatusUpdate s bf
  have hbuf : (athTxStatusUpdate s bf).buf = s.buf := congrArg Ledger.buf hledger
  have htid : (athTxStatusUpdate s bf).tid k = s.tid k := congrFun hstatus.tid k
  have hcompleted := Track.completeSingle (G := G) (s := athTxStatusUpdate s bf) (k := k)
    (hledger ▸ hwf) (hbuf ▸ hair) (htid ▸ hc) (by rw [hledger, hbuf]; exact hok)
  rw [htid, hledger] at hcompleted
  have hfree' := athTxFreebuf_modTid (athTxStatusUpdate s bf) bf k Tid.completed
  rw [hfree] at hfree'
  obtain ⟨htrack, hspares⟩ := Track.athTxFreebuf (G := G) hcompleted.wf hfree'
  have hc₁ : (s₁.tid k).cleanupInprogres = true := by
    have : s₁.tid = (athTxStatusUpdate s bf).tid := by
      obtain ⟨⟨tmp, s₂⟩, htoggle, rfl⟩ := Option.map_eq_some_iff.mp hfree
      obtain ⟨-, rfl⟩ := athBufToggle_false htoggle
      rfl
    rw [this, htid]
    exact hc
  rw [if_pos hc₁] at h
  have hdone := hcompleted.trans htrack
  exact hdone.trans (owlTgtTidCleanup_spec hsafe hdone.wf (hdone.off hoff) h).track

/-- A frame that the cleanup did not count. -/
theorem athTgtTxCompNormal_spec (hwf : s.ledger.WF ⟨[], [], bf ::ₘ l⟩) (hoff : s.ledger.Off)
    (hsafe : ∀ k v a, Action.Safe a → G k v a)
    (hok : (s.tid k).cleanupInprogres = true →
      G k (s.ledger.view ⟨[], [], bf ::ₘ l⟩ k) .completeOther)
    (h : athTgtTxCompNormal s k bf = some s') :
    Track G s.ledger ⟨[], [], bf ::ₘ l⟩ s'.ledger
      ⟨[], [], (if (s.tid k).cleanupInprogres then (s.tid k).spilled else 0) + l⟩ := by
  rw [athTgtTxCompNormal] at h
  obtain ⟨s₁, hcleanup, h⟩ := Option.bind_eq_some_iff.mp h
  set lost : Multiset BufId := if (s.tid k).cleanupInprogres then (s.tid k).spilled else 0
  have hfirst : Track G s.ledger ⟨[], [], bf ::ₘ l⟩ s₁.ledger ⟨[], [], bf ::ₘ (lost + l)⟩ := by
    split at hcleanup
    · rename_i hc
      have hother := Track.completeOther hwf hc (hok hc)
      rw [show lost = (s.tid k).spilled from if_pos hc, ← Multiset.add_cons]
      exact hother.trans
        (owlTgtTidCleanup_spec hsafe hother.wf (hother.off hoff) hcleanup).track
    · rename_i hc
      obtain rfl := Option.some_inj.mp hcleanup
      rw [show lost = 0 from if_neg hc, zero_add]
      exact .refl hwf
  have hledger : (athTxUcComp s₁ bf k.1).ledger = s₁.ledger := ledger_athTxStatusUpdate s₁ bf
  have hfree := (Track.athTxFreebuf (G := G) (hledger ▸ hfirst.wf) h).1
  rw [hledger] at hfree
  exact hfirst.trans hfree

/-- A TID that fits the rest of an aggregate in its count. -/
def Tid.Fits (tid : Tid) (n : ℕ) : Prop := (n : Int) ≤ tid.incomp ∧ tid.incomp < 128

theorem compCleanupLoop_some (stat : TxStat) (rcs : Fin 4 → RcSeries) (n : ℕ) :
    compCleanupLoop k stat rcs (n + 1) (some bf) s =
      (athTxFreebuf (athTxStatusUpdateAggr s bf stat (some rcs) false) bf).bind fun s₁ =>
        if aInt8 ((s₁.tid k).incomp - 1) = 0 then
          athAggrResumeTid (s₁.modTid k fun tid => tid.countDown.stopCleanup) k
        else compCleanupLoop k stat rcs n (s.buf bf).bfNext (s₁.modTid k Tid.countDown) := by
  rw [compCleanupLoop]
  congr 1
  funext s₁
  have htid : (s₁.modTid k Tid.countDown).tid k = (s₁.tid k).countDown := s₁.modTid_tid_self k _
  show (if ((s₁.modTid k Tid.countDown).tid k).incomp = 0 then
      athAggrResumeTid ((s₁.modTid k Tid.countDown).modTid k Tid.stopCleanup) k
    else compCleanupLoop k stat rcs n (s.buf bf).bfNext (s₁.modTid k Tid.countDown)) = _
  rw [htid, modTid_modTid]
  rfl

theorem athTxFreebuf_tid (h : athTxFreebuf s bf = some s') : s'.tid = s.tid := by
  obtain ⟨⟨tmp, s₂⟩, htoggle, rfl⟩ := Option.map_eq_some_iff.mp h
  obtain ⟨-, rfl⟩ := athBufToggle_false htoggle
  rfl

/-- One subframe of an aggregate leaves during a cleanup. -/
theorem Track.cleanSubframe (hwf : s.ledger.WF ⟨bf :: r, [], l⟩) (hair : AirFor k (s.buf bf))
    (hc : (s.tid k).cleanupInprogres = true)
    (hok : G k (s.ledger.view ⟨bf :: r, [], l⟩ k) (.completeSubframe (frameOf (s.buf bf))))
    {stat : TxStat} {rcs : Option (Fin 4 → RcSeries)} {txok : Bool}
    (h : Tx.athTxFreebuf (athTxStatusUpdateAggr s bf stat rcs txok) bf = some s₁) :
    Track G s.ledger ⟨bf :: r, [], l⟩ (s₁.modTid k Tid.completedSubframe).ledger ⟨r, [], l⟩ ∧
      s₁.tid = s.tid ∧ ∀ b ∈ r, s₁.buf b = s.buf b := by
  have hspares := spares_athTxStatusUpdateAggr s bf stat rcs txok (r + ([] : List BufId) + l)
  have hledger : (athTxStatusUpdateAggr s bf stat rcs txok).ledger = s.ledger :=
    ledger_athTxStatusUpdateAggr ..
  generalize athTxStatusUpdateAggr s bf stat rcs txok = s₀ at h hspares hledger
  have hbuf : s₀.buf = s.buf := congrArg Ledger.buf hledger
  have htid : s₀.tid k = s.tid k := congrFun hspares.tid k
  have hcompleted := Track.completeSubframe (G := G) (s := s₀) (k := k)
    (hledger ▸ hwf) (hbuf ▸ hair) (htid ▸ hc) (by rw [hledger, hbuf]; exact hok)
  rw [hledger] at hcompleted
  have hfree' := athTxFreebuf_modTid s₀ bf k Tid.completedSubframe
  rw [h] at hfree'
  obtain ⟨htrack, hspares'⟩ := Track.athTxFreebuf (G := G) hcompleted.wf hfree'
  refine ⟨hcompleted.trans htrack, (athTxFreebuf_tid h).trans hspares.tid, fun b hb => ?_⟩
  have := hspares'.buf b (by simp [hb])
  exact this.trans (congrFun hbuf b)

theorem compCleanupLoop_spec (hsafe : ∀ k v a, Action.Safe a → G k v a) {stat : TxStat}
    {rcs : Fin 4 → RcSeries} {n : ℕ} {bp : Option BufId} {rest : List BufId}
    (hwf : s.ledger.WF ⟨rest, [], l⟩) (hoff : s.ledger.Off)
    (hair : ∀ b ∈ rest, AirFor k (s.buf b)) (hchain : Chain (fun b => (s.buf b).bfNext) bp rest)
    (hc : (s.tid k).cleanupInprogres = true) (hfits : (s.tid k).Fits rest.length)
    (hok : ∀ v f, v.reinit = (s.tid k).reinitializeFlag →
      (v.incomp = 1 → (s.tid k).incomp = rest.length) → G k v (.completeSubframe f))
    (h : compCleanupLoop k stat rcs n bp s = some s') :
    Track G s.ledger ⟨rest, [], l⟩ s'.ledger ⟨[], [], l⟩ := by
  induction rest generalizing s n bp with
  | nil =>
      rw [Chain.nil_iff.mp hchain] at h
      have : s = s' := by
        cases n <;> exact Option.some_inj.mp h
      rw [← this]
      exact .refl hwf
  | cons b rest ih =>
      obtain ⟨rfl, hnext⟩ := Chain.cons_iff.mp hchain
      obtain ⟨hlen, hlt⟩ := hfits
      rw [List.length_cons] at hlen hok
      cases n with
      | zero => cases h
      | succ n =>
          rw [compCleanupLoop_some] at h
          obtain ⟨s₁, hfree, h⟩ := Option.bind_eq_some_iff.mp h
          have hok₁ : G k (s.ledger.view ⟨b :: rest, [], l⟩ k)
              (.completeSubframe (frameOf (s.buf b))) := by
            refine hok _ _ rfl fun hone => ?_
            have hone : (s.tid k).incomp = 1 := hone
            omega
          obtain ⟨htrack, htid, hbuf⟩ :=
            Track.cleanSubframe hwf (hair b List.mem_cons_self) hc hok₁ hfree
          have hincomp : aInt8 ((s.tid k).incomp - 1) = (s.tid k).incomp - 1 := by
            apply aInt8_of_bounds <;> omega
          refine htrack.trans ?_
          rw [htid, hincomp] at h
          split at h
          · rename_i hzero
            have hnil : rest = [] := by
              have : rest.length = 0 := by omega
              exact List.length_eq_zero_iff.mp this
            have heq : s₁.modTid k Tid.completedSubframe =
                (s₁.modTid k fun tid => tid.countDown.stopCleanup).modTid k Tid.resume := by
              rw [modTid_modTid]
              apply modTid_congr
              rw [Tid.completedSubframe, htid, if_pos (hincomp.trans hzero)]
            subst hnil
            rw [heq] at htrack ⊢
            exact (athAggrResumeTid_spec hsafe htrack.wf (htrack.off hoff) h).track
          · rename_i hne
            have heq : s₁.modTid k Tid.completedSubframe = s₁.modTid k Tid.countDown := by
              apply modTid_congr
              rw [Tid.completedSubframe, htid, if_neg (hincomp.trans_ne hne)]
            rw [heq] at htrack ⊢
            have htid' : (s₁.modTid k Tid.countDown).tid k = (s.tid k).countDown := by
              rw [TxState.modTid_tid_self, htid]
            refine ih htrack.wf (htrack.off hoff) ?_ ?_ ?_ ?_ ?_ h
            · intro c hc
              exact hbuf c hc ▸ hair c (List.mem_cons_of_mem _ hc)
            · exact hnext.congr fun c hc => congrArg TxBuf.bfNext (hbuf c hc)
            · rw [htid']
              exact hc
            · rw [htid']
              show _ ≤ aInt8 _ ∧ aInt8 _ < 128
              rw [hincomp]
              omega
            · rw [htid']
              intro v f hre hone
              refine hok v f hre fun h1 => ?_
              have : aInt8 ((s.tid k).incomp - 1) = rest.length := hone h1
              omega

/-! ## The start of a cleanup -/

/-- The TID after the frames of its queue are thrown away. -/
def Tid.discarded (tid : Tid) : List TxBuf → Tid
  | [] => tid
  | b :: bufs =>
    let tid := { tid with bufQ := tid.bufQ.tail }
    Tid.discarded
      (if b.bfIsretried then athTxUpdateBaw tid (seqnoFromBfSeqno b.bfSeqno) else tid) bufs

theorem session_discarded (tid : Tid) (bufs : List TxBuf) (queue : List Frame)
    (air : Multiset Frame) (pend : List Frame) :
    (tid.discarded bufs).session queue air pend =
      { tid.session queue air pend with
        win := Session.discard tid.window (bufs.map frameOf) } := by
  induction bufs generalizing tid with
  | nil => rfl
  | cons b bufs ih =>
      rw [Tid.discarded, ih]
      cases hret : b.bfIsretried with
      | true =>
          have hframe : (frameOf b).retried = true := hret
          simp only [List.map_cons, Session.discard, hframe, if_true]
          rw [session_athTxUpdateBaw, window_athTxUpdateBaw]
          rfl
      | false =>
          have hframe : (frameOf b).retried = false := hret
          simp only [List.map_cons, Session.discard, hframe, Bool.false_eq_true, if_false]
          rfl

theorem discarded_bufQ (tid : Tid) (bufs : List TxBuf) :
    (tid.discarded bufs).bufQ = tid.bufQ.drop bufs.length := by
  induction bufs generalizing tid with
  | nil => rfl
  | cons b bufs ih =>
      rw [Tid.discarded, ih, List.length_cons, List.drop_add_one_eq_tail_drop]
      have htail : (if b.bfIsretried then
          athTxUpdateBaw { tid with bufQ := tid.bufQ.tail } (seqnoFromBfSeqno b.bfSeqno)
        else { tid with bufQ := tid.bufQ.tail }).bufQ = tid.bufQ.tail := by
        split
        · exact (congrArg Tid.bufQ (rest_athTxUpdateBaw _ _) :)
        · rfl
      rw [htail, List.drop_tail, List.tail_drop]

theorem discarded_aggr (tid : Tid) (bufs : List TxBuf) :
    (tid.discarded bufs).aggrEnabled = tid.aggrEnabled := by
  have := session_discarded tid bufs [] 0 []
  exact (congrArg Session.aggr this :)

theorem modTid_const_modTid (s : TxState) (k : TidId) (f : Tid → Tid) (t : Tid) :
    (s.modTid k f).modTid k (fun _ => t) = s.modTid k fun _ => t := modTid_modTid s k f _

/-- The walk over `buf_q`, for any TID `t` put in the place of the one walked over. -/
theorem cleanupBufQ_spec (t : Tid) (hq : (s.tid k).bufQ = bs)
    (hwf : (s.modTid k fun _ => t).ledger.WF ⟨[], [], bs + l⟩)
    (h : cleanupBufQ k true bs s = some s') :
    Track G (s.modTid k fun _ => t).ledger ⟨[], [], bs + l⟩
        (s'.modTid k fun _ => t).ledger ⟨[], [], l⟩ ∧
      s' = { s' with tid := Function.update s.tid k ((s.tid k).discarded (bs.map s.buf)) } ∧
      ∀ b ∈ l, s'.buf b = s.buf b := by
  induction bs generalizing s with
  | nil =>
      obtain rfl := Option.some_inj.mp h
      refine ⟨?_, ?_, fun _ _ => rfl⟩
      · rw [Multiset.coe_nil, zero_add] at hwf ⊢
        exact .refl hwf
      · show s = { s with tid := Function.update s.tid k (s.tid k) }
        rw [Function.update_eq_self]
  | cons b bs ih =>
      rw [cleanupBufQ, if_pos (.inl rfl)] at h
      simp only [hq] at h
      obtain ⟨s₁, hfree, h⟩ := Option.bind_eq_some_iff.mp h
      set tid₁ : Tid → Tid := fun tid =>
        if (s.buf b).bfIsretried then
          athTxUpdateBaw { tid with bufQ := tid.bufQ.tail } (seqnoFromBfSeqno (s.buf b).bfSeqno)
        else { tid with bufQ := tid.bufQ.tail } with htid₁
      have hdiscard : discardFromBaw (bufQRemoveHead s k) k b = s.modTid k tid₁ := by
        rw [discardFromBaw, bufQRemoveHead]
        split
        · rename_i hret
          have hret : (s.buf b).bfIsretried = true := hret
          rw [modTid_modTid]
          apply modTid_congr
          simp only [htid₁, hret, if_true]
          rfl
        · rename_i hret
          have hret : ¬(s.buf b).bfIsretried = true := hret
          apply modTid_congr
          simp only [htid₁, if_neg hret]
      rw [hdiscard] at hfree
      have hfree' := athTxFreebuf_modTid (s.modTid k tid₁) b k fun _ => t
      rw [hfree, modTid_const_modTid] at hfree'
      have hwf' : (s.modTid k fun _ => t).ledger.WF ⟨[], [], b ::ₘ (bs + l)⟩ := by
        rwa [← Multiset.cons_coe, Multiset.cons_add] at hwf
      obtain ⟨htrack, hspares⟩ := Track.athTxFreebuf (G := G) hwf' hfree'
      have htid : s₁.tid k = tid₁ (s.tid k) := by
        rw [athTxFreebuf_tid hfree, TxState.modTid_tid_self]
      have hbuf : ∀ c ∈ (bs : Multiset BufId) + l, s₁.buf c = s.buf c := by
        intro c hc
        exact hspares.buf c (by simpa using hc)
      have hq₁ : (s₁.tid k).bufQ = bs := by
        rw [htid, htid₁]
        have htail : (s.tid k).bufQ.tail = bs := by rw [hq]; rfl
        dsimp only
        split
        · exact ((congrArg Tid.bufQ (rest_athTxUpdateBaw _ _) :)).trans htail
        · exact htail
      obtain ⟨htrack', htid', hbuf'⟩ := ih hq₁ htrack.wf h
      refine ⟨?_, ?_, fun c hc => ?_⟩
      · rw [← Multiset.cons_coe, Multiset.cons_add]
        exact htrack.trans htrack'
      · rw [htid']
        have hmap : bs.map s₁.buf = bs.map s.buf :=
          List.map_congr_left fun c hc => hbuf c (Multiset.mem_add.mpr (.inl hc))
        rw [htid, hmap, athTxFreebuf_tid hfree]
        simp only [TxState.modTid, Function.update_idem]
        rfl
      · exact (hbuf' c hc).trans (hbuf c (Multiset.mem_add.mpr (.inr hc)))

theorem aInt8_add_one (x : Int) (c : ℕ) : aInt8 (aInt8 (x + 1) + c) = aInt8 (x + (c + 1 : ℕ)) := by
  unfold aInt8
  omega

/-- The walk over the window, as the window and the session see it. -/
theorem session_cleanupBaw (n : ℕ) (tid : Tid) (queue : List Frame) (air : Multiset Frame)
    (pend : List Frame) :
    (cleanupBaw n tid).session queue air pend =
      { tid.session queue air pend with
        win := (tid.window.flush 4096 128 n).2
        incomp := if (tid.window.flush 4096 128 n).1 = 0 then tid.incomp
          else aInt8 (tid.incomp + (tid.window.flush 4096 128 n).1)
        cleanup := tid.cleanupInprogres || decide ((tid.window.flush 4096 128 n).1 ≠ 0) } := by
  induction n generalizing tid with
  | zero =>
      rw [cleanupBaw, SlidingWindow.flush]
      simp only [if_true, ne_eq, not_true_eq_false, decide_false, Bool.or_false]
      rfl
  | succ n ih =>
      rw [cleanupBaw, SlidingWindow.flush]
      by_cases hempty : tid.bawHead = tid.bawTail
      · have hempty' : tid.window.head = tid.window.tail := hempty
        rw [if_pos hempty, if_pos hempty']
        simp only [if_true, ne_eq, not_true_eq_false, decide_false, Bool.or_false]
        rfl
      · have hempty' : ¬tid.window.head = tid.window.tail := hempty
        rw [if_neg hempty, if_neg hempty', ih]
        have hwin : (incrBaw (if tid.txBufBitmap tid.bawHead then countIncomp tid else tid)).window =
            (tid.window.clearHead).step 4096 128 := by
          split
          · rfl
          · rename_i hclear
            have : Function.update tid.txBufBitmap tid.bawHead false = tid.txBufBitmap :=
              Function.update_eq_iff.mpr ⟨by simpa using hclear, fun _ _ => rfl⟩
            rw [SlidingWindow.clearHead]
            show _ = SlidingWindow.step 4096 128 { tid.window with
              mark := Function.update tid.txBufBitmap tid.bawHead false }
            rw [this]
            rfl
        rw [hwin]
        set c := ((tid.window.clearHead).step 4096 128).flush 4096 128 n
        cases hmark : tid.txBufBitmap tid.bawHead with
        | true =>
            have hmark' : tid.window.mark tid.window.head = true := hmark
            have hne : 1 + c.1 ≠ 0 := Nat.succ_add_eq_add_succ 0 c.1 ▸ Nat.succ_ne_zero _
            have hincomp : (if c.1 = 0 then aInt8 (tid.incomp + 1)
                else aInt8 (aInt8 (tid.incomp + 1) + c.1)) = aInt8 (tid.incomp + (1 + c.1 : ℕ)) := by
              split
              · rename_i hzero
                rw [hzero]
                rfl
              · rw [aInt8_add_one, Nat.add_comm]
            simp only [hmark', Bool.toNat_true, if_true, ← hincomp, hne, ne_eq,
              not_false_eq_true, decide_true, Bool.or_true]
            rfl
        | false =>
            have hmark' : tid.window.mark tid.window.head = false := hmark
            simp only [hmark', Bool.toNat_false, Bool.false_eq_true, if_false, zero_add]
            rfl

/-- What `ath_tgt_tx_cleanup` does to its TID, where it discards the queue. -/
def Tid.cleanedUp (tid : Tid) (bufs : List TxBuf) : Tid :=
  let tid := cleanupBaw athTidMaxBufs { tid.discarded bufs with paused := true }
  if tid.cleanupInprogres then tid else tid.resume

theorem session_cleanedUp (tid : Tid) (bufs : List TxBuf) (air : Multiset Frame)
    (pend : List Frame) :
    (tid.cleanedUp bufs).session [] air pend =
      (tid.session (bufs.map frameOf) air pend).cleanUp := by
  have hwin : ({ tid.discarded bufs with paused := true } : Tid).window =
      Session.discard tid.window (bufs.map frameOf) := by
    have := session_discarded tid bufs [] 0 []
    exact (congrArg Session.win this :)
  have hbaw := session_cleanupBaw athTidMaxBufs { tid.discarded bufs with paused := true } [] air pend
  have hdisc : ({ tid.discarded bufs with paused := true } : Tid).session [] air pend =
      { tid.session [] air pend with
        win := Session.discard tid.window (bufs.map frameOf), paused := true } := by
    have := session_discarded tid bufs [] air pend
    rw [show ({ tid.discarded bufs with paused := true } : Tid).session [] air pend =
      { (tid.discarded bufs).session [] air pend with paused := true } from rfl, this]
  have hincomp : ({ tid.discarded bufs with paused := true } : Tid).incomp = tid.incomp := by
    have := session_discarded tid bufs [] 0 []
    exact (congrArg Session.incomp this :)
  have hcleanup : ({ tid.discarded bufs with paused := true } : Tid).cleanupInprogres =
      tid.cleanupInprogres := by
    have := session_discarded tid bufs [] 0 []
    exact (congrArg Session.cleanup this :)
  rw [hwin, hdisc, hincomp, hcleanup] at hbaw
  unfold Tid.cleanedUp
  set t := cleanupBaw athTidMaxBufs { tid.discarded bufs with paused := true }
  have hc : t.cleanupInprogres = (tid.cleanupInprogres || decide ((SlidingWindow.flush 4096 128 128
      (Session.discard tid.window (bufs.map frameOf))).1 ≠ 0)) := (congrArg Session.cleanup hbaw :)
  cases ht : t.cleanupInprogres with
  | true =>
      rw [ht] at hc
      simp only [ht, if_true]
      refine hbaw.trans ?_
      ext1 <;> first | rfl | exact hc
  | false =>
      rw [ht] at hc
      simp only [ht, Bool.false_eq_true, if_false]
      show { t.session [] air pend with paused := false } = _
      rw [hbaw]
      ext1 <;> first | rfl | exact hc

theorem cleanupBaw_bufQ (n : ℕ) (tid : Tid) : (cleanupBaw n tid).bufQ = tid.bufQ := by
  induction n generalizing tid with
  | zero => rfl
  | succ n ih =>
      rw [cleanupBaw]
      split
      · rfl
      · rw [ih]
        split <;> rfl

theorem cleanedUp_bufQ (tid : Tid) (bufs : List TxBuf) (h : tid.bufQ.length ≤ bufs.length) :
    (tid.cleanedUp bufs).bufQ = [] := by
  have hnil : (cleanupBaw athTidMaxBufs { tid.discarded bufs with paused := true }).bufQ = [] := by
    rw [cleanupBaw_bufQ]
    show (tid.discarded bufs).bufQ = []
    rw [discarded_bufQ, List.drop_eq_nil_iff]
    exact h
  unfold Tid.cleanedUp
  generalize cleanupBaw athTidMaxBufs { tid.discarded bufs with paused := true } = t at hnil
  dsimp only
  split <;> exact hnil

theorem athTgtTxCleanup_eq (s : TxState) (k : TidId) :
    athTgtTxCleanup s k true = (cleanupBufQ k true (s.tid k).bufQ s).bind fun s =>
      let s := s.modTid k fun tid => cleanupBaw athTidMaxBufs { tid with paused := true }
      if (s.tid k).cleanupInprogres then some s else athAggrResumeTid s k := by
  rw [athTgtTxCleanup]
  congr 1
  funext s
  rw [athAggrPauseTid, modTid_modTid]

theorem athAggrResumeTid_of_nil (h : (s.tid k).bufQ = []) :
    athAggrResumeTid s k = some (s.modTid k Tid.resume) := by
  have hresume : ((s.modTid k Tid.resume).tid k).bufQ = [] := by
    rw [TxState.modTid_tid_self]
    exact h
  show (if ((s.modTid k Tid.resume).tid k).bufQ = [] then some (s.modTid k Tid.resume) else _) = _
  rw [if_pos hresume]

/-- `ath_tgt_tx_cleanup` with the queue thrown away, for any change `g` of its TID that comes
before it and any change `g'` that comes after it. -/
theorem athTgtTxCleanup_spec (g g' : Tid → Tid)
    (hg : ∀ tid, (g tid).bufQ = tid.bufQ) (hg' : ∀ tid, (g' tid).bufQ = tid.bufQ)
    (hwf : s.ledger.WF ⟨[], [], l⟩)
    (hrun : session.StepsWhere (G k) (s.ledger.view ⟨[], [], l⟩ k)
      ((g' ((g (s.tid k)).cleanedUp ((s.tid k).bufQ.map s.buf))).session []
        (s.ledger.hwAir k) []))
    (h : athTgtTxCleanup (s.modTid k g) k true = some s₁) :
    Track G s.ledger ⟨[], [], l⟩ (s₁.modTid k g').ledger ⟨[], [], l⟩ ∧
      (∀ b ∈ l, s₁.buf b = s.buf b) ∧
      s₁.tid k = (g (s.tid k)).cleanedUp ((s.tid k).bufQ.map s.buf) := by
  set bs := (s.tid k).bufQ
  have hgs : (s.modTid k g).tid k = g (s.tid k) := s.modTid_tid_self k g
  have hq : ((s.modTid k g).tid k).bufQ = bs := by rw [hgs, hg]
  set done := (g (s.tid k)).cleanedUp (bs.map s.buf) with hdone
  have hnil : done.bufQ = [] := by
    apply cleanedUp_bufQ
    rw [hg, List.length_map]
  set t := g' done
  have htnil : t.bufQ = [] := (hg' done).trans hnil
  have hfirst : Track G s.ledger ⟨[], [], l⟩ (s.modTid k fun _ => t).ledger ⟨[], [], bs + l⟩ := by
    rw [TxState.ledger_modTid]
    apply Track.setTid hwf
    · show Hand.all ⟨[], [], bs + l⟩ + (t.bufQ : Multiset BufId) = Hand.all ⟨[], [], l⟩ + bs
      rw [htnil]
      simp only [Hand.all, Multiset.coe_nil]
      abel
    · intro b hb
      change b ∈ t.bufQ at hb
      rw [htnil] at hb
      cases hb
    · exact fun _ _ => htnil
    · exact fun _ _ => ⟨rfl, rfl⟩
    · show session.StepsWhere (G k) _ (t.session (t.bufQ.map _) (↑(s.ledger.frames k []) +
        s.ledger.hwAir k) _)
      rw [htnil, frames_nil, Multiset.coe_nil, zero_add]
      exact hrun
  rw [athTgtTxCleanup_eq, hq] at h
  obtain ⟨s₂, hloop, h⟩ := Option.bind_eq_some_iff.mp h
  have hwf' : ((s.modTid k g).modTid k fun _ => t).ledger.WF ⟨[], [], bs + l⟩ := by
    rw [modTid_const_modTid]
    exact hfirst.wf
  obtain ⟨htrack, heq, hbuf⟩ := cleanupBufQ_spec (G := G) t hq hwf' hloop
  rw [modTid_const_modTid] at htrack
  have htid₂ : s₂.tid k = (g (s.tid k)).discarded (bs.map s.buf) := by
    have := congrFun (congrArg TxState.tid heq) k
    rw [this]
    show Function.update _ k _ k = _
    rw [Function.update_self, hgs]
    rfl
  have hs₁ : s₁ = s₂.modTid k fun _ => done := by
    have htid₃ : (s₂.modTid k fun tid =>
        cleanupBaw athTidMaxBufs { tid with paused := true }).tid k =
        cleanupBaw athTidMaxBufs { (g (s.tid k)).discarded (bs.map s.buf) with paused := true } := by
      rw [TxState.modTid_tid_self, htid₂]
    dsimp only at h
    rw [htid₃] at h
    rw [hdone, Tid.cleanedUp]
    dsimp only
    have hnil₃ : (cleanupBaw athTidMaxBufs
        { (g (s.tid k)).discarded (bs.map s.buf) with paused := true }).bufQ = [] := by
      rw [cleanupBaw_bufQ]
      show ((g (s.tid k)).discarded (bs.map s.buf)).bufQ = []
      rw [discarded_bufQ, hg, List.length_map, List.drop_length]
    split at h
    · rename_i hc
      rw [if_pos hc, ← Option.some_inj.mp h]
      apply modTid_congr
      rw [htid₂]
    · rename_i hc
      rw [athAggrResumeTid_of_nil (by rw [htid₃, hnil₃]), modTid_modTid] at h
      rw [if_neg hc, ← Option.some_inj.mp h]
      apply modTid_congr
      rw [htid₂]
  have hs' : s₁.modTid k g' = s₂.modTid k fun _ => t := by
    rw [hs₁, modTid_modTid]
  rw [hs']
  refine ⟨hfirst.trans htrack, fun b hb => ?_, ?_⟩
  · rw [hs₁]
    exact hbuf b hb
  · rw [hs₁, TxState.modTid_tid_self]

/-! ## Switching aggregation off, and drains -/

def Tid.stopAggr (tid : Tid) : Tid := { tid with aggrEnabled := false }

def Tid.rewind (tid : Tid) : Tid := { tid with seqNext := tid.seqStart, bawTail := tid.bawHead }

theorem modTid_id (s : TxState) (k : TidId) : (s.modTid k fun tid => tid) = s := by
  rw [TxState.modTid, Function.update_eq_self]

theorem Ledger.view_idle {L : Ledger} :
    L.view ⟨[], [], l⟩ k = (L.tid k).session (L.waiting k) (L.hwAir k) [] := by
  rw [view, frames_nil, Multiset.coe_nil, zero_add]

theorem session_stopAggr_cleanedUp (s : TxState) (k : TidId) :
    ((s.tid k).stopAggr.cleanedUp ((s.tid k).bufQ.map s.buf)).session []
        (s.ledger.hwAir k) [] =
      (s.ledger.view ⟨[], [], l⟩ k).stopAggr.cleanUp := by
  rw [session_cleanedUp, List.map_map, view_idle]
  rfl

/-- Aggregation is switched off by the host. -/
theorem Track.disable (hwf : s.ledger.WF ⟨[], [], l⟩) (ha : (s.tid k).aggrEnabled = true)
    (hok : G k (s.ledger.view ⟨[], [], l⟩ k) .disable)
    (h : athTgtTxCleanup (s.modTid k Tid.stopAggr) k true = some s₁) :
    Track G s.ledger ⟨[], [], l⟩ s₁.ledger ⟨[], [], l⟩ := by
  have hrun := Session.single (G := G k) (v := s.ledger.view ⟨[], [], l⟩ k) (a := .disable)
    ⟨ha, rfl⟩ hok
  rw [Session.act, ← session_stopAggr_cleanedUp] at hrun
  have := (athTgtTxCleanup_spec Tid.stopAggr (fun tid => tid) (fun _ => rfl) (fun _ => rfl) hwf hrun h).1
  rwa [modTid_id] at this

theorem athTgtTidDrain_of_nil (h : (s.tid k).bufQ = []) :
    athTgtTidDrain s k = some (s.modTid k Tid.rewind) := by
  rw [athTgtTidDrain, h]
  rfl

/-- The session is torn down after a BAR has failed for good. -/
theorem Track.teardown (hwf : s.ledger.WF ⟨[], [], l⟩)
    (hok : G k (s.ledger.view ⟨[], [], l⟩ k) .teardown)
    (h : athTgtDelbaSend s k = some s₁) (h' : athTgtTidDrain s₁ k = some s') :
    Track G s.ledger ⟨[], [], l⟩ s'.ledger ⟨[], [], l⟩ ∧ ∀ b ∈ l, s'.buf b = s.buf b := by
  obtain ⟨s₂, hclean, rfl⟩ := Option.map_eq_some_iff.mp h
  have hrun := Session.single (G := G k) (v := s.ledger.view ⟨[], [], l⟩ k) (a := .teardown)
    rfl hok
  have hdrained : ((s.ledger.view ⟨[], [], l⟩ k).stopAggr.cleanUp).drained =
      ((s.tid k).stopAggr.cleanedUp ((s.tid k).bufQ.map s.buf)).rewind.session []
        (s.ledger.hwAir k) [] := by
    rw [← session_stopAggr_cleanedUp]
    rfl
  rw [Session.act, hdrained] at hrun
  obtain ⟨htrack, hbuf, htid⟩ :=
    athTgtTxCleanup_spec Tid.stopAggr Tid.rewind (fun _ => rfl) (fun _ => rfl) hwf hrun hclean
  have hnil : ((s₂.emit (.delba k.1 k.2)).tid k).bufQ = [] := by
    show (s₂.tid k).bufQ = []
    rw [htid]
    exact cleanedUp_bufQ _ _ (by rw [List.length_map]; rfl)
  rw [athTgtTidDrain_of_nil hnil] at h'
  obtain rfl := Option.some_inj.mp h'
  exact ⟨htrack, hbuf⟩

theorem tidDrainLoop_spec (t : Tid) (hq : (s.tid k).bufQ = bs)
    (hwf : (s.modTid k fun _ => t).ledger.WF ⟨[], [], bs + l⟩)
    (h : tidDrainLoop k bs s = some s') :
    Track G (s.modTid k fun _ => t).ledger ⟨[], [], bs + l⟩
        (s'.modTid k fun _ => t).ledger ⟨[], [], l⟩ ∧
      s'.tid k = { s.tid k with bufQ := [] } := by
  induction bs generalizing s with
  | nil =>
      obtain rfl := Option.some_inj.mp h
      rw [Multiset.coe_nil, zero_add] at hwf ⊢
      refine ⟨.refl hwf, ?_⟩
      rw [← hq]
  | cons b bs ih =>
      obtain ⟨s₁, hfree, h⟩ := Option.bind_eq_some_iff.mp h
      have hfree' := athTxFreebuf_modTid (bufQRemoveHead s k) b k fun _ => t
      rw [hfree, bufQRemoveHead, modTid_const_modTid] at hfree'
      have hwf' : (s.modTid k fun _ => t).ledger.WF ⟨[], [], b ::ₘ (bs + l)⟩ := by
        rwa [← Multiset.cons_coe, Multiset.cons_add] at hwf
      obtain ⟨htrack, -⟩ := Track.athTxFreebuf (G := G) hwf' hfree'
      have htid : s₁.tid k = { s.tid k with bufQ := bs } := by
        rw [athTxFreebuf_tid hfree, bufQRemoveHead, TxState.modTid_tid_self, hq]
        rfl
      obtain ⟨htrack', htid'⟩ := ih (by rw [htid]) htrack.wf h
      refine ⟨?_, htid'.trans (by rw [htid])⟩
      rw [← Multiset.cons_coe, Multiset.cons_add]
      exact htrack.trans htrack'

/-- A TID none of whose frames is at the hardware is drained. -/
theorem Track.drain (hwf : s.ledger.WF ⟨[], [], l⟩) (hair : s.ledger.hwAir k = 0)
    (hok : G k (s.ledger.view ⟨[], [], l⟩ k) .drain) (h : athTgtTidDrain s k = some s') :
    Track G s.ledger ⟨[], [], l⟩ s'.ledger ⟨[], [], l⟩ := by
  obtain ⟨s₁, hloop, rfl⟩ := Option.map_eq_some_iff.mp h
  set t : Tid := ({ s.tid k with bufQ := [] } : Tid).rewind with ht
  have hrun := Session.single (G := G k) (v := s.ledger.view ⟨[], [], l⟩ k) (a := .drain)
    ⟨by rw [view_idle]; exact hair, rfl⟩ hok
  have hfirst : Track G s.ledger ⟨[], [], l⟩ (s.modTid k fun _ => t).ledger
      ⟨[], [], (s.tid k).bufQ + l⟩ := by
    rw [TxState.ledger_modTid]
    apply Track.setTid hwf
    · show Hand.all ⟨[], [], ((s.tid k).bufQ : Multiset BufId) + l⟩ + (([] : List BufId) :
        Multiset BufId) = Hand.all ⟨[], [], l⟩ + ((s.tid k).bufQ : Multiset BufId)
      simp only [Hand.all, Multiset.coe_nil]
      abel
    · exact fun b hb => absurd hb List.not_mem_nil
    · exact fun _ _ => rfl
    · exact fun _ _ => ⟨rfl, rfl⟩
    · exact hrun
  obtain ⟨htrack, htid⟩ := tidDrainLoop_spec (G := G) t rfl hfirst.wf hloop
  have hlast : rewindTid s₁ k = s₁.modTid k fun _ => t := by
    show s₁.modTid k Tid.rewind = _
    apply modTid_congr
    rw [htid]
  rw [hlast]
  exact hfirst.trans htrack

end Ath9kHtc.Tx
