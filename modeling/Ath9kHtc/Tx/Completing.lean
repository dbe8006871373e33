import Ath9kHtc.Tx.Resending

/-!
# What completions do
-/

namespace Ath9kHtc.Tx

open Ledger

variable {G : TidId → Session → Action → Prop} {k : TidId} {q : QueueId} {s s' s₁ : TxState}
  {bf c : BufId} {bp : Option BufId} {r p bs rest : List BufId} {l : Multiset BufId}
  {acc acc' : CompAcc}

/-! ## Aggregates -/

/-- The frame that becomes a BAR, as the handler holds it. -/
def CompAcc.barHand (acc : CompAcc) : Multiset BufId := acc.bar.toList

/-- What holds while the completion of an aggregate goes through its subframes. -/
structure Collecting (k : TidId) (l : Multiset BufId) (bp : Option BufId) (rest : List BufId)
    (acc : CompAcc) (s : TxState) : Prop where
  wf : s.ledger.WF ⟨rest, acc.bfQ, acc.barHand + l⟩
  cleanup : (s.tid k).cleanupInprogres = false
  aggr : (s.tid k).aggrEnabled = true
  air : ∀ b ∈ rest, AirFor k (s.buf b)
  pend : ∀ b ∈ acc.bfQ, AirFor k (s.buf b)
  bar : ∀ b ∈ acc.bar, (s.buf b).bfTxq = tidToActxq k.2
  chain : Chain (fun b => (s.buf b).bfNext) bp rest

/-- One subframe is dealt with. -/
structure Collected (G : TidId → Session → Action → Prop) (k : TidId) (l : Multiset BufId) (bf : BufId)
    (rest : List BufId) (acc : CompAcc) (s : TxState) (acc' : CompAcc) (s' : TxState) :
    Prop where
  track : Track G s.ledger ⟨bf :: rest, acc.bfQ, acc.barHand + l⟩ s'.ledger
    ⟨rest, acc'.bfQ, acc'.barHand + l⟩
  cleanup : (s'.tid k).cleanupInprogres = (s.tid k).cleanupInprogres
  aggr : (s'.tid k).aggrEnabled = (s.tid k).aggrEnabled
  kept : ∀ b ∈ (rest : Multiset BufId) + acc.bfQ + acc.barHand, s'.buf b = s.buf b
  pend : ∀ b ∈ acc'.bfQ, b ∈ acc.bfQ ∨ AirFor k (s'.buf b)
  bar : ∀ b ∈ acc'.bar, b ∈ acc.bar ∨ (s'.buf b).bfTxq = tidToActxq k.2

theorem Collecting.next (h : Collecting k l (some bf) (bf :: rest) acc s)
    (hone : Collected G k l bf rest acc s acc' s') :
    Collecting k l (s.buf bf).bfNext rest acc' s' where
  wf := hone.track.wf
  cleanup := hone.cleanup.trans h.cleanup
  aggr := hone.aggr.trans h.aggr
  air := by
    intro b hb
    rw [hone.kept b (by simp [hb])]
    exact h.air b (List.mem_cons_of_mem _ hb)
  pend := by
    intro b hb
    rcases hone.pend b hb with hold | hnew
    · rw [hone.kept b (by simp [hold])]
      exact h.pend b hold
    · exact hnew
  bar := by
    intro b hb
    rcases hone.bar b hb with hold | hnew
    · rw [hone.kept b]
      · exact h.bar b hold
      · refine Multiset.mem_add.mpr (.inr ?_)
        exact Multiset.mem_coe.mpr (Option.mem_toList.mpr hold)
    · exact hnew
  chain := (Chain.cons_iff.mp h.chain).2.congr fun b hb =>
    congrArg TxBuf.bfNext (hone.kept b (by simp [hb]))

theorem modTid_updateBaw_flags (s : TxState) (k : TidId) (seqno : ℕ) :
    ((s.modTid k fun tid => athTxUpdateBaw tid seqno).tid k).cleanupInprogres =
        (s.tid k).cleanupInprogres ∧
      ((s.modTid k fun tid => athTxUpdateBaw tid seqno).tid k).aggrEnabled =
        (s.tid k).aggrEnabled := by
  rw [TxState.modTid_tid_self]
  have hrest := rest_athTxUpdateBaw (s.tid k) seqno
  exact ⟨(congrArg Tid.cleanupInprogres hrest :), (congrArg Tid.aggrEnabled hrest :)⟩

/-- A frame of the hand is acknowledged or given up, and its buffer released. -/
theorem Track.retireFree (hwf : s.ledger.WF ⟨bf :: r, p, l⟩) (hair : AirFor k (s.buf bf))
    (hc : (s.tid k).cleanupInprogres = false) (hsafe : ∀ k v a, Action.Safe a → G k v a)
    {s₀ : TxState}
    (hledger : s₀.ledger =
      (s.modTid k fun tid => athTxUpdateBaw tid (seqnoFromBfSeqno (s.buf bf).bfSeqno)).ledger)
    (htid : s₀.tid =
      (s.modTid k fun tid => athTxUpdateBaw tid (seqnoFromBfSeqno (s.buf bf).bfSeqno)).tid)
    (h : Tx.athTxFreebuf s₀ bf = some s') :
    Track G s.ledger ⟨bf :: r, p, l⟩ s'.ledger ⟨r, p, l⟩ ∧
      (s'.tid k).cleanupInprogres = (s.tid k).cleanupInprogres ∧
      (s'.tid k).aggrEnabled = (s.tid k).aggrEnabled ∧
      ∀ b ∈ (r : Multiset BufId) + p + l, s'.buf b = s.buf b := by
  have hretire := retire hwf hair hc hsafe
  rw [← hledger] at hretire
  obtain ⟨hfree, hspares⟩ := athTxFreebuf (G := G) hretire.wf h
  obtain ⟨hcleanup, haggr⟩ :=
    modTid_updateBaw_flags s k (seqnoFromBfSeqno (s.buf bf).bfSeqno)
  have hbuf : s₀.buf = s.buf := congrArg Ledger.buf hledger
  refine ⟨hretire.trans hfree, ?_, ?_, fun b hb => ?_⟩
  · rw [hspares.tid, htid]
    exact hcleanup
  · rw [hspares.tid, htid]
    exact haggr
  · rw [hspares.buf b hb, hbuf]

theorem Collecting.ack (h : Collecting k l (some bf) (bf :: rest) acc s)
    (hsafe : ∀ k v a, Action.Safe a → G k v a) {stat : TxStat} {rcs : Fin 4 → RcSeries}
    (hack : ackSubframe s k bf stat rcs = some s') :
    Collected G k l bf rest acc s acc s' := by
  have hair := h.air bf List.mem_cons_self
  rw [ackSubframe] at hack
  obtain ⟨htrack, hcleanup, haggr, hbuf⟩ := Track.retireFree h.wf hair h.cleanup hsafe
    (ledger_athTxStatusUpdateAggr ..) (spares_athTxStatusUpdateAggr _ _ _ _ _ 0).tid hack
  refine ⟨htrack, hcleanup, haggr, fun b hb => hbuf b ?_, fun b hb => .inl hb, fun b hb => .inl hb⟩
  rw [← add_assoc]
  exact Multiset.mem_add.mpr (.inl hb)

theorem Collecting.retry (h : Collecting k l (some bf) (bf :: rest) acc s)
    (hsafe : ∀ k v a, Action.Safe a → G k v a)
    (hretry : athTxRetrySubframe s bf acc = some (acc', s')) :
    Collected G k l bf rest acc s acc' s' := by
  have hair := h.air bf List.mem_cons_self
  rw [athTxRetrySubframe, tidOf_eq, hair.key, Option.bind_some] at hretry
  split at hretry
  · set s₀ := s.modTid k fun tid => athTxUpdateBaw tid (seqnoFromBfSeqno (s.buf bf).bfSeqno)
    have hretire := Track.retire h.wf hair h.cleanup hsafe
    obtain ⟨hcleanup, haggr⟩ :=
      modTid_updateBaw_flags s k (seqnoFromBfSeqno (s.buf bf).bfSeqno)
    split at hretry
    · rename_i hbar
      simp only [Option.some_inj, Prod.mk.injEq] at hretry
      obtain ⟨rfl, rfl⟩ := hretry
      have hledger : (athTxStatusUpdateAggr s₀ bf
          (s.ds (s.buf bf).bfLastds).dsTxstat none false).ledger = s₀.ledger :=
        ledger_athTxStatusUpdateAggr ..
      have hspares := spares_athTxStatusUpdateAggr s₀ bf
        (s.ds (s.buf bf).bfLastds).dsTxstat none false
      have hbuf : ∀ b, (athTxStatusUpdateAggr s₀ bf
          (s.ds (s.buf bf).bfLastds).dsTxstat none false).buf b = s.buf b :=
        fun b => congrFun (congrArg Ledger.buf hledger) b
      have hold : acc.barHand = 0 := by
        rw [CompAcc.barHand, hbar]
        rfl
      refine ⟨?_, ?_, ?_, fun b _ => hbuf b, fun b hb => .inl hb, fun b hb => .inr ?_⟩
      · rw [hledger, hold, zero_add]
        rw [hold, zero_add] at hretire
        exact hretire
      · rw [(hspares 0).tid]
        exact hcleanup
      · rw [(hspares 0).tid]
        exact haggr
      · rw [← Option.some_inj.mp hb, hbuf]
        exact hair.txq
    · obtain ⟨s₂, hfree, heq⟩ := Option.map_eq_some_iff.mp hretry
      simp only [Prod.mk.injEq] at heq
      obtain ⟨rfl, rfl⟩ := heq
      obtain ⟨htrack, hcleanup, haggr, hbuf⟩ := Track.retireFree h.wf hair h.cleanup hsafe
        (ledger_athTxStatusUpdateAggr ..) (spares_athTxStatusUpdateAggr _ _ _ _ _ 0).tid hfree
      refine ⟨htrack, hcleanup, haggr, fun b hb => hbuf b ?_, fun b hb => .inl hb,
        fun b hb => .inl hb⟩
      rw [← add_assoc]
      exact Multiset.mem_add.mpr (.inl hb)
  · obtain ⟨⟨c, s₁⟩, hmove, hretry⟩ := Option.bind_eq_some_iff.mp hretry
    obtain ⟨s₂, hset, heq⟩ := Option.map_eq_some_iff.mp hretry
    simp only [Prod.mk.injEq] at heq
    obtain ⟨rfl, rfl⟩ := heq
    have hmove' : athBufToggle s bf true = some (c, s₁) ∨
        c = bf ∧ ∃ f : TxBuf → TxBuf, SameFrame (s.buf bf) (f (s.buf bf)) ∧ s₁ = s.modBuf bf f := by
      split at hmove
      · exact .inl hmove
      · simp only [Option.some_inj, Prod.mk.injEq] at hmove
        obtain ⟨rfl, rfl⟩ := hmove
        exact .inr ⟨rfl, fun b => { b with bfLastds := bf }, ⟨rfl, rfl, rfl, rfl, rfl, rfl, rfl⟩, rfl⟩
    obtain ⟨htrack, hc, htid, -, hbuf⟩ :=
      Track.resend h.wf hair h.cleanup h.aggr hsafe hmove' hset
    refine ⟨htrack, by rw [htid], by rw [htid], fun b hb => hbuf b ?_, fun b hb => ?_,
      fun b hb => .inl hb⟩
    · rw [← add_assoc]
      exact Multiset.mem_add.mpr (.inl hb)
    · rcases List.mem_append.mp hb with hb | hb
      · exact .inl hb
      · rw [List.mem_singleton.mp hb]
        exact .inr hc

theorem compAggrLoop_spec (hsafe : ∀ k v a, Action.Safe a → G k v a) {stat : TxStat}
    {rcs : Fin 4 → RcSeries} {acked : TxBuf → Bool} {n : ℕ}
    (h : Collecting k l bp rest acc s)
    (hloop : compAggrLoop k stat rcs acked n bp acc s = some (acc', s')) :
    Track G s.ledger ⟨rest, acc.bfQ, acc.barHand + l⟩ s'.ledger
        ⟨[], acc'.bfQ, acc'.barHand + l⟩ ∧
      ∃ bp', Collecting k l bp' [] acc' s' := by
  induction rest generalizing s n bp acc with
  | nil =>
      have hp := Chain.nil_iff.mp h.chain
      subst hp
      have heq : acc = acc' ∧ s = s' := by
        cases n <;> exact Prod.mk.inj (Option.some_inj.mp hloop)
      obtain ⟨rfl, rfl⟩ := heq
      exact ⟨.refl h.wf, none, h⟩
  | cons b rest ih =>
      obtain ⟨rfl, -⟩ := Chain.cons_iff.mp h.chain
      cases n with
      | zero => cases hloop
      | succ n =>
          rw [compAggrLoop] at hloop
          split at hloop
          · obtain ⟨s₁, hack, hloop⟩ := Option.bind_eq_some_iff.mp hloop
            have hone := h.ack (G := G) hsafe hack
            obtain ⟨htrack, hlast⟩ := ih (h.next hone) hloop
            exact ⟨hone.track.trans htrack, hlast⟩
          · obtain ⟨⟨acc₁, s₁⟩, hretry, hloop⟩ := Option.bind_eq_some_iff.mp hloop
            have hone := h.retry (G := G) hsafe hretry
            have hnext := h.next hone
            have hcounted : Collecting k l (s.buf b).bfNext rest
                { acc₁ with nbad := acc₁.nbad + 1 } s₁ :=
              ⟨hnext.wf, hnext.cleanup, hnext.aggr, hnext.air, hnext.pend, hnext.bar, hnext.chain⟩
            obtain ⟨htrack, hlast⟩ := ih hcounted hloop
            exact ⟨hone.track.trans htrack, hlast⟩

/-! ## Block-ack requests -/

/-- A buffer in the hand is sent alone. -/
theorem Track.sendAlone (hwf : s.ledger.WF ⟨[], p, bf ::ₘ l⟩) (hq : (s.buf bf).bfTxq = q)
    (hnext : (s.buf bf).bfNext = none)
    (hkind : (s.buf bf).bfComp = none ∨ ∃ k, tidToActxq k.2 = q ∧ AloneFor k (s.buf bf)) :
    Track G s.ledger ⟨[], p, bf ::ₘ l⟩ (athTgtTxqAddUcast s bf).ledger ⟨[], p, l⟩ := by
  have hlt : bf < s.ledger.txBufs := by
    apply hwf.lt
    exact Multiset.mem_add.mpr (.inl (mem_all_of_loose (Multiset.mem_cons_self bf l)))
  have hcomp : (s.buf bf).bfComp ≠ some .aggr := by
    rcases hkind with hnone | ⟨k, -, halone⟩
    · rw [hnone]
      exact nofun
    · rcases halone.comp with hcomp | hcomp <;> rw [hcomp] <;> exact nofun
  rw [ledger_athTgtTxqAddUcast, hq]
  refine pushAlone hwf (.of_next hlt hnext ?_) hnext hcomp
  exact hkind.imp id fun ⟨k, hk, halone⟩ => ⟨k, hk, .inl halone⟩

theorem athBarTx_spec (hwf : s.ledger.WF ⟨[], p, bf ::ₘ l⟩)
    (hq : (s.buf bf).bfTxq = tidToActxq k.2) (hsafe : ∀ k v a, Action.Safe a → G k v a)
    (h : athBarTx s k bf = some s') :
    Track G s.ledger ⟨[], p, bf ::ₘ l⟩ s'.ledger ⟨[], p, l⟩ ∧
      (s'.tid k).aggrEnabled = (s.tid k).aggrEnabled ∧
      ∀ b ∈ (p : Multiset BufId) + l, s'.buf b = s.buf b := by
  have hpause := Track.athAggrPauseTid (k := k) hwf hsafe
  have hbf : bf ∉ (p : Multiset BufId) + l := by
    have := hwf.not_mem_others
    rwa [Multiset.coe_nil, zero_add] at this
  rw [athBarTx] at h
  dsimp only at h
  split at h
  · cases h
  · rename_i skb skbs hskb
    obtain rfl := Option.some_inj.mp h
    set seqStart := ((athAggrPauseTid s k).tid k).seqStart
    set s₀ := (athAggrPauseTid s k).modNbuf skb (barFrame k.2 seqStart)
    set f : TxBuf → TxBuf := fun b =>
      { b with
        bfSkbhead := skbs ++ [skb]
        bfSeqno := seqStart * 16
        bfComp := some .bar
        bfTidno := k.2
        bfNode := some k.1
        bfIsaggr := false
        bfNext := none }
    have hwrite : Track G s₀.ledger ⟨[], p, bf ::ₘ l⟩ (s₀.modBuf bf f).ledger
        ⟨[], p, bf ::ₘ l⟩ := .modBuf hpause.wf (Multiset.mem_cons_self bf l) f
    have hfill : Track G (s₀.modBuf bf f).ledger ⟨[], p, bf ::ₘ l⟩
        (athFilltxdesc (s₀.modBuf bf f) bf).ledger ⟨[], p, bf ::ₘ l⟩ :=
      .modBuf (s := (s₀.modBuf bf f).modDs bf fun ds => { ds with dsLink := none }) hwrite.wf
        (Multiset.mem_cons_self bf l) _
    have hbuf : (athFilltxdesc (s₀.modBuf bf f) bf).buf bf =
        { f (s.buf bf) with bfLastds := bf } := by
      rw [athFilltxdesc, TxState.modBuf_buf_self]
      show { (s₀.modBuf bf f).buf bf with bfLastds := bf } = _
      rw [TxState.modBuf_buf_self]
      rfl
    have hsend := Track.sendAlone (G := G) (q := tidToActxq k.2) hfill.wf
      (by rw [hbuf]; exact hq) (by rw [hbuf])
      (.inr ⟨k, rfl, by rw [hbuf]; exact ⟨.inr rfl, rfl, hq, rfl⟩⟩)
    refine ⟨hpause.trans (hwrite.trans (hfill.trans hsend)), ?_, fun b hb => ?_⟩
    · rw [(athTgtTxqAddUcast_spares _ _).1]
      show ((athAggrPauseTid s k).tid k).aggrEnabled = _
      rw [athAggrPauseTid, TxState.modTid_tid_self]
    · rw [(athTgtTxqAddUcast_spares _ _).2]
      have hne := ne_of_mem_of_not_mem hb hbf
      exact (TxState.modBuf_buf_of_ne _ _ _ hne).trans (TxState.modBuf_buf_of_ne _ _ _ hne)

theorem finishAggr_spec (h : Collecting k l bp [] acc s) (hsafe : ∀ k v a, Action.Safe a → G k v a)
    (hfinish : finishAggr s k (tidToActxq k.2) acc = some s') :
    Track G s.ledger ⟨[], acc.bfQ, acc.barHand + l⟩ s'.ledger ⟨[], [], l⟩ := by
  obtain ⟨s₁, hbar, rfl⟩ := Option.map_eq_some_iff.mp hfinish
  obtain ⟨htrack, haggr, hbuf⟩ : Track G s.ledger ⟨[], acc.bfQ, acc.barHand + l⟩ s₁.ledger
      ⟨[], acc.bfQ, l⟩ ∧ (s₁.tid k).aggrEnabled = (s.tid k).aggrEnabled ∧
      ∀ b ∈ acc.bfQ, s₁.buf b = s.buf b := by
    have hwf := h.wf
    cases hacc : acc.bar with
    | none =>
        have hhand : acc.barHand = 0 := by
          rw [CompAcc.barHand, hacc]
          rfl
        rw [hhand, zero_add] at hwf ⊢
        simp only [hacc] at hbar
        obtain rfl := Option.some_inj.mp hbar
        exact ⟨.refl hwf, rfl, fun _ _ => rfl⟩
    | some bar =>
        have hhand : acc.barHand + l = bar ::ₘ l := by
          rw [CompAcc.barHand, hacc, Option.toList_some, Multiset.coe_singleton,
            Multiset.singleton_add]
        rw [hhand] at hwf ⊢
        simp only [hacc] at hbar
        obtain ⟨htrack, haggr, hbuf⟩ := athBarTx_spec hwf (h.bar bar hacc) hsafe hbar
        exact ⟨htrack, haggr, fun b hb => hbuf b (Multiset.mem_add.mpr (.inl hb))⟩
  split
  · rename_i hnil
    rw [hnil] at htrack ⊢
    exact htrack
  · have hprepend := Track.prependBufQ (G := G) (k := k) htrack.wf
      (fun b hb => hbuf b hb ▸ h.pend b hb) (haggr.trans h.aggr) hsafe
    exact htrack.trans (hprepend.trans (.athTgtTxEnqueue hprepend.wf rfl))

/-! ## Single frames -/

theorem athTxRetryUnaggr_spec (hwf : s.ledger.WF ⟨[bf], [], l⟩) (hair : AirFor k (s.buf bf))
    (hc : (s.tid k).cleanupInprogres = false) (ha : (s.tid k).aggrEnabled = true)
    (hsafe : ∀ k v a, Action.Safe a → G k v a)
    (h : athTxRetryUnaggr s k bf = some s') :
    Track G s.ledger ⟨[bf], [], l⟩ s'.ledger ⟨[], [], l⟩ := by
  rw [athTxRetryUnaggr] at h
  split at h
  · have hretire := Track.retire hwf hair hc hsafe
    set s₀ := s.modTid k fun tid => athTxUpdateBaw tid (seqnoFromBfSeqno (s.buf bf).bfSeqno)
    have hledger : (athTxStatusUpdate s₀ bf).ledger = s₀.ledger := ledger_athTxStatusUpdate s₀ bf
    have hbuf : (athTxStatusUpdate s₀ bf).buf = s.buf := congrArg Ledger.buf hledger
    rw [← hledger] at hretire
    have hbar := athBarTx_spec hretire.wf (by rw [hbuf]; exact hair.txq) hsafe h
    exact hretire.trans hbar.1
  · obtain ⟨⟨c, s₁⟩, hmove, h⟩ := Option.bind_eq_some_iff.mp h
    obtain ⟨s₂, hset, rfl⟩ := Option.map_eq_some_iff.mp h
    have hmove' : athBufToggle s bf true = some (c, s₁) ∨
        c = bf ∧ ∃ f : TxBuf → TxBuf, SameFrame (s.buf bf) (f (s.buf bf)) ∧ s₁ = s.modBuf bf f := by
      split at hmove
      · exact .inl hmove
      · simp only [Option.some_inj, Prod.mk.injEq] at hmove
        obtain ⟨rfl, rfl⟩ := hmove
        refine .inr ⟨rfl, fun b => b, .refl _, ?_⟩
        rw [TxState.modBuf, TxState.setBuf, Function.update_eq_self]
    obtain ⟨htrack, hc', htid, -, -⟩ := Track.resend hwf hair hc ha hsafe hmove' hset
    have hprepend := Track.prependBufQ (G := G) (k := k) (p := [c]) htrack.wf
      (fun b hb => by rw [List.mem_singleton.mp hb]; exact hc') (by rw [htid]; exact ha) hsafe
    exact htrack.trans (hprepend.trans (.athTgtTxEnqueue hprepend.wf hair.txq.symm))

theorem athTxCompUnaggr_spec (hwf : s.ledger.WF ⟨[bf], [], l⟩) (hair : AirFor k (s.buf bf))
    (hc : (s.tid k).cleanupInprogres = false) (ha : (s.tid k).aggrEnabled = true)
    (hsafe : ∀ k v a, Action.Safe a → G k v a)
    (h : athTxCompUnaggr s k bf = some s') :
    Track G s.ledger ⟨[bf], [], l⟩ s'.ledger ⟨[], [], l⟩ := by
  rw [athTxCompUnaggr] at h
  split at h
  · exact athTxRetryUnaggr_spec (s := s.emit (.rateTxComplete k.1 1 0)) hwf hair hc ha hsafe h
  · exact (Track.retireFree (s := s.emit (.rateTxComplete k.1 1 0)) hwf hair hc hsafe
      (ledger_athTxStatusUpdate ..) (spares_athTxStatusUpdate _ _ 0).tid h).1

/-! ## Completion of an element of a hardware queue -/

/-- What a step relies on where an aggregation frame completes: its TID aggregates, or counts
the frames of a cleanup and has not lost count. -/
def Settled (s : TxState) (k : TidId) (n : ℕ) : Prop :=
  if (s.tid k).cleanupInprogres then (s.tid k).Fits n else (s.tid k).aggrEnabled = true

theorem athTgtTxCompAggr_spec (hwf : s.ledger.WF ⟨rest, [], l⟩) (hoff : s.ledger.Off)
    (hair : ∀ b ∈ rest, AirFor k (s.buf b)) (hchain : Chain (fun b => (s.buf b).bfNext) (some bf) rest)
    (hone : (s.buf bf).bfIsaggr = false → (s.buf bf).bfNext = none)
    (hsettled : Settled s k rest.length) (hsafe : ∀ k v a, Action.Safe a → G k v a)
    (hok : ∀ v f, v.reinit = (s.tid k).reinitializeFlag →
      (v.incomp = 1 → (s.tid k).incomp = rest.length) → (s.buf bf).bfIsaggr = true →
        (s.tid k).cleanupInprogres = true → G k v (.completeSubframe f))
    (hoks : (s.buf bf).bfIsaggr = false → (s.tid k).cleanupInprogres = true →
      G k (s.ledger.view ⟨rest, [], l⟩ k) (.completeSingle (frameOf (s.buf bf))))
    (h : athTgtTxCompAggr s k bf = some s') :
    Track G s.ledger ⟨rest, [], l⟩ s'.ledger
      ⟨[], [], (if (s.tid k).cleanupInprogres ∧ (s.buf bf).bfIsaggr = false then
        (s.tid k).spilled else 0) + l⟩ := by
  have hsingle : (s.buf bf).bfIsaggr = false → rest = [bf] := by
    intro haggr
    cases rest with
    | nil => cases hchain
    | cons b rest =>
        obtain ⟨hb, hnext⟩ := Chain.cons_iff.mp hchain
        obtain rfl := Option.some_inj.mp hb
        cases rest with
        | nil => rfl
        | cons c rest =>
            have := hnext.1
            rw [hone haggr] at this
            cases this
  have hmem : bf ∈ rest := by
    cases rest with
    | nil => cases hchain
    | cons b rest =>
        rw [Option.some_inj.mp hchain.1]
        exact List.mem_cons_self
  have hbf := hair bf hmem
  rw [athTgtTxCompAggr] at h
  dsimp only at h
  split at h
  · rename_i hc
    rw [Settled, if_pos hc] at hsettled
    cases haggr : (s.buf bf).bfIsaggr with
    | false =>
        rw [if_pos ⟨hc, rfl⟩]
        have hrest := hsingle haggr
        subst hrest
        exact athTxCompCleanup_single hwf hoff hbf hc haggr hsafe (hoks haggr hc) h
    | true =>
        rw [if_neg (by simp), zero_add]
        rw [athTxCompCleanup] at h
        simp only [haggr, if_true] at h
        obtain ⟨s₁, hloop, rfl⟩ := Option.map_eq_some_iff.mp h
        have htrack := compCleanupLoop_spec hsafe hwf hoff hair hchain hc hsettled
          (fun v f hre hincomp => hok v f hre hincomp haggr hc) hloop
        exact htrack
  · rename_i hc
    have hc : (s.tid k).cleanupInprogres = false := by simpa using hc
    have ha : (s.tid k).aggrEnabled = true := by
      rw [Settled, hc] at hsettled
      simpa using hsettled
    rw [if_neg (by simp [hc]), zero_add]
    have hcollecting : Collecting k l (some bf) rest {} s := by
      refine ⟨?_, hc, ha, hair, (fun b hb => by cases hb), (fun b hb => by cases hb), hchain⟩
      show s.ledger.WF ⟨rest, [], 0 + l⟩
      rw [zero_add]
      exact hwf
    have hfinish : ∀ {stat : TxStat} {rcs : Fin 4 → RcSeries} {acked : TxBuf → Bool}
        {acc : CompAcc} {s₁ : TxState} {o : Output},
        compAggrLoop k stat rcs acked s.cfg.txBufs (some bf) {} s = some (acc, s₁) →
        finishAggr (s₁.emit o) k (s.buf bf).bfTxq acc = some s' →
        Track G s.ledger ⟨rest, [], l⟩ s'.ledger ⟨[], [], l⟩ := by
      intro stat rcs acked acc s₁ o hloop hfin
      obtain ⟨htrack, bp, hlast⟩ := compAggrLoop_spec (G := G) hsafe hcollecting hloop
      rw [show (CompAcc.barHand {} : Multiset BufId) + l = l from zero_add l] at htrack
      rw [hbf.txq] at hfin
      have hemit : Collecting k l bp [] acc (s₁.emit o) :=
        ⟨hlast.wf, hlast.cleanup, hlast.aggr, hlast.air, hlast.pend, hlast.bar, hlast.chain⟩
      exact htrack.trans (finishAggr_spec (s := s₁.emit o) hemit hsafe hfin)
    have herror : ∀ {s'' : TxState}, athTxCompAggrError s k bf = some s'' → s'' = s' →
        Track G s.ledger ⟨rest, [], l⟩ s'.ledger ⟨[], [], l⟩ := by
      rintro s'' herr rfl
      rw [athTxCompAggrError] at herr
      obtain ⟨⟨acc, s₁⟩, hloop, hfin⟩ := Option.bind_eq_some_iff.mp herr
      exact hfinish hloop hfin
    split at h
    · cases h
    · split at h
      · rename_i haggr
        have haggr : (s.buf bf).bfIsaggr = false := by simpa using haggr
        have hrest := hsingle haggr
        subst hrest
        exact athTxCompUnaggr_spec hwf hbf hc ha hsafe h
      · split at h
        · exact herror h rfl
        · split at h
          · exact herror h rfl
          · obtain ⟨⟨acc, s₁⟩, hloop, hfin⟩ := Option.bind_eq_some_iff.mp h
            exact hfinish hloop hfin

/-- The release of a buffer whose completion function is taken away first. -/
theorem Track.dropBar {f : TxBuf → TxBuf} (hwf : s.ledger.WF ⟨[], [], bf ::ₘ l⟩)
    (hcomp : (f (s.buf bf)).bfComp = none) (hnext : (f (s.buf bf)).bfNext = none)
    (h : Tx.athBufComp (s.modBuf bf f) bf = some s') :
    Track G s.ledger ⟨[], [], bf ::ₘ l⟩ s'.ledger ⟨[], [], l⟩ := by
  have hwrite := Track.modBuf (G := G) hwf (Multiset.mem_cons_self bf l) f
  refine hwrite.trans (Track.athBufComp hwrite.wf ?_ ?_ h)
  · rw [TxState.modBuf_buf_self]
    exact hcomp
  · rw [TxState.modBuf_buf_self]
    exact hnext

/-- A BAR is sent once more. -/
theorem athBarRetry_resend (hwf : s.ledger.WF ⟨[], [], bf ::ₘ l⟩) (halone : AloneFor k (s.buf bf))
    (hmove : athBufToggle s bf true = some (c, s₁) ∨ c = bf ∧ s₁ = s)
    (hset : athTxSetRetry (s₁.modDs (s₁.buf c).bfLastds fun ds => { ds with dsLink := none }) c =
      some s') :
    Track G s.ledger ⟨[], [], bf ::ₘ l⟩ (athTgtTxqAddUcast s' c).ledger ⟨[], [], l⟩ := by
  obtain ⟨hledger, -, -⟩ := athTxSetRetry_some hset
  set x : TxBuf := { s₁.buf c with
    bfIsretried := true, bfRetries := ((s₁.buf c).bfRetries + 1) % 256 }
  have hbuf : s'.buf c = x :=
    (congrFun (congrArg Ledger.buf hledger) c).trans (Function.update_self ..)
  obtain ⟨htrack, hsame, hnext⟩ : Track G s.ledger ⟨[], [], bf ::ₘ l⟩ s₁.ledger
      ⟨[], [], c ::ₘ l⟩ ∧ SameFrame (s.buf bf) (s₁.buf c) ∧
        (s₁.buf c).bfNext = (s.buf bf).bfNext := by
    rcases hmove with htoggle | ⟨rfl, rfl⟩
    · have hbf : bf ∈ Hand.all ⟨[], [], bf ::ₘ l⟩ := mem_all_of_loose (Multiset.mem_cons_self bf l)
      have t := athBufToggle_true htoggle fun b hb => by
        rintro rfl
        exact hwf.not_mem_held hbf hb
      exact ⟨(Track.toggle hwf t).1, t.same, t.next⟩
    · exact ⟨.refl hwf, .refl _, rfl⟩
  have hwrite : Track G s₁.ledger ⟨[], [], c ::ₘ l⟩ s'.ledger ⟨[], [], c ::ₘ l⟩ := by
    rw [hledger]
    exact .write htrack.wf (Multiset.mem_cons_self c l) x
  refine htrack.trans (hwrite.trans (Track.sendAlone hwrite.wf (q := tidToActxq k.2) ?_ ?_
    (.inr ⟨k, rfl, ?_⟩)))
  · rw [hbuf]
    exact hsame.txq.trans halone.txq
  · rw [hbuf]
    exact hnext.trans halone.next
  · rw [hbuf]
    refine ⟨?_, hsame.keyOf_eq.trans halone.key, hsame.txq.trans halone.txq,
      hnext.trans halone.next⟩
    show (s₁.buf c).bfComp = _ ∨ (s₁.buf c).bfComp = _
    rw [hsame.comp]
    exact halone.comp

theorem athBarTxComp_spec (hwf : s.ledger.WF ⟨[], [], bf ::ₘ l⟩) (hoff : s.ledger.Off)
    (halone : AloneFor k (s.buf bf)) (hsafe : ∀ k v a, Action.Safe a → G k v a)
    (hresume : (s.ds (s.buf bf).bfLastds).dsTxstat.tsStatus &&& halTxerrXretry = 0 →
      G k (s.ledger.view ⟨[], [], bf ::ₘ l⟩ k) .resume)
    (hteardown : (s.ds (s.buf bf).bfLastds).dsTxstat.tsStatus &&& halTxerrXretry ≠ 0 →
      owlmaxBarRetries ≤ (s.buf bf).bfRetries →
        G k (s.ledger.view ⟨[], [], bf ::ₘ l⟩ k) .teardown)
    (h : athBarTxComp s k bf = some s') :
    Track G s.ledger ⟨[], [], bf ::ₘ l⟩ s'.ledger ⟨[], [], l⟩ := by
  rw [athBarTxComp] at h
  split at h
  · rename_i hxretry
    rw [athBarRetry] at h
    split at h
    · rename_i hmax
      obtain ⟨s₁, hdelba, h⟩ := Option.bind_eq_some_iff.mp h
      obtain ⟨s₂, hdrain, h⟩ := Option.bind_eq_some_iff.mp h
      obtain ⟨htrack, hbuf⟩ := Track.teardown hwf (hteardown hxretry hmax) hdelba hdrain
      refine htrack.trans (Track.dropBar htrack.wf rfl ?_ h)
      show (s₂.buf bf).bfNext = none
      rw [hbuf bf (Multiset.mem_cons_self bf l)]
      exact halone.next
    · obtain ⟨⟨c, s₁⟩, hmove, h⟩ := Option.bind_eq_some_iff.mp h
      obtain ⟨s₂, hset, rfl⟩ := Option.map_eq_some_iff.mp h
      refine athBarRetry_resend hwf halone ?_ hset
      split at hmove
      · exact .inl hmove
      · simp only [Option.some_inj, Prod.mk.injEq] at hmove
        obtain ⟨rfl, rfl⟩ := hmove
        exact .inr ⟨rfl, rfl⟩
  · rename_i hxretry
    obtain ⟨s₁, hres, h⟩ := Option.bind_eq_some_iff.mp h
    have hflag : Track G s.ledger ⟨[], [], bf ::ₘ l⟩
        (s.modTid k fun tid => { tid with paused := false }).ledger ⟨[], [], bf ::ₘ l⟩ := by
      apply Track.modTid hwf rfl id
      exact Session.single (a := .resume) trivial (hresume (not_not.mp hxretry))
    have hsched := athAggrResumeTid_spec (G := G) hsafe hflag.wf (hflag.off hoff) hres
    refine hflag.trans (hsched.track.trans (Track.dropBar hsched.track.wf rfl ?_ h))
    show (s₁.buf bf).bfNext = none
    rw [hsched.loose bf (Multiset.mem_cons_self bf l)]
    exact halone.next

/-- What a completion may do to the sessions, beside what is always safe. -/
structure CompletionOk (G : TidId → Session → Action → Prop) (s : TxState) (l : Multiset BufId)
    (rest : List BufId) (bf : BufId) (k : TidId) : Prop where
  other : (s.buf bf).bfComp = some .normal → (s.tid k).cleanupInprogres = true →
    G k (s.ledger.view ⟨[], [], bf ::ₘ l⟩ k) .completeOther
  resume : (s.buf bf).bfComp = some .bar →
    (s.ds (s.buf bf).bfLastds).dsTxstat.tsStatus &&& halTxerrXretry = 0 →
    G k (s.ledger.view ⟨[], [], bf ::ₘ l⟩ k) .resume
  teardown : (s.buf bf).bfComp = some .bar →
    (s.ds (s.buf bf).bfLastds).dsTxstat.tsStatus &&& halTxerrXretry ≠ 0 →
    owlmaxBarRetries ≤ (s.buf bf).bfRetries →
    G k (s.ledger.view ⟨[], [], bf ::ₘ l⟩ k) .teardown
  subframe : ∀ v f, (s.buf bf).bfComp = some .aggr → v.reinit = (s.tid k).reinitializeFlag →
    (v.incomp = 1 → (s.tid k).incomp = rest.length) → (s.buf bf).bfIsaggr = true →
    (s.tid k).cleanupInprogres = true → G k v (.completeSubframe f)
  single : (s.buf bf).bfComp = some .aggr → (s.buf bf).bfIsaggr = false →
    (s.tid k).cleanupInprogres = true →
    G k (s.ledger.view ⟨rest, [], l⟩ k) (.completeSingle (frameOf (s.buf bf)))

/-- The buffers a TID loses when an element of its hardware queue completes. -/
def spill (s : TxState) (bf : BufId) : Multiset BufId :=
  match keyOf (s.buf bf) with
  | none => 0
  | some k =>
    if (s.tid k).cleanupInprogres ∧ ((s.buf bf).bfComp = some .normal ∨
        (s.buf bf).bfComp = some .aggr ∧ (s.buf bf).bfIsaggr = false) then (s.tid k).spilled
    else 0

theorem completeBuf_spec (hel : Element s.buf s.cfg.txBufs q bf)
    (hwf : s.ledger.WF ⟨s.ledger.subframes bf, [], l⟩) (hoff : s.ledger.Off)
    (hsettled : ∀ k, (s.buf bf).bfComp = some .aggr → keyOf (s.buf bf) = some k →
      Settled s k (s.ledger.subframes bf).length)
    (hsafe : ∀ k v a, Action.Safe a → G k v a)
    (hok : ∀ k, keyOf (s.buf bf) = some k → CompletionOk G s l (s.ledger.subframes bf) bf k)
    (h : completeBuf s bf = some s') :
    Track G s.ledger ⟨s.ledger.subframes bf, [], l⟩ s'.ledger ⟨[], [], spill s bf + l⟩ := by
  have hlt : bf < s.ledger.txBufs := by
    apply hwf.lt
    exact Multiset.mem_add.mpr (.inl (mem_all.mpr (.inl hel.mem_subframes)))
  rcases hel.kind with ⟨hcomp, hnext⟩ | ⟨k, -, halone⟩ | ⟨k, -, hair, haggr⟩
  · have hsub : s.ledger.subframes bf = [bf] := subframesOf_of_next hlt hnext
    have hspill : spill s bf = 0 := by
      rw [spill]
      split
      · rfl
      · exact if_neg (by simp [hcomp])
    rw [hsub] at hwf ⊢
    rw [hspill, zero_add]
    have hloose := Track.loosen (G := G) hwf fun k =>
      airFrame_of_comp_ne (k := k) (b := s.buf bf) (by rw [hcomp]; exact nofun)
    simp only [completeBuf, hcomp] at h
    have hledger := ledger_athTxStatusUpdate s bf
    have hbuf : (athTxStatusUpdate s bf).buf = s.buf := congrArg Ledger.buf hledger
    have hdrop := Track.athBufComp (G := G) (hledger ▸ hloose.wf) (by rw [hbuf]; exact hcomp)
      (by rw [hbuf]; exact hnext) h
    rw [hledger] at hdrop
    exact hloose.trans hdrop
  · have hsub : s.ledger.subframes bf = [bf] := subframesOf_of_next hlt halone.next
    rw [hsub] at hwf hok ⊢
    have hloose := Track.loosen (G := G) hwf fun k => by
      apply airFrame_of_comp_ne (k := k) (b := s.buf bf)
      rcases halone.comp with hcomp | hcomp <;> rw [hcomp] <;> exact nofun
    have hallowed := hok k halone.key
    rcases halone.comp with hcomp | hcomp
    · simp only [completeBuf, hcomp, tidOf_eq, halone.key, Option.bind_some] at h
      have hspill : spill s bf = if (s.tid k).cleanupInprogres then (s.tid k).spilled else 0 := by
        rw [spill, halone.key]
        simp [hcomp]
      rw [hspill]
      exact hloose.trans
        (athTgtTxCompNormal_spec hloose.wf hoff hsafe (hallowed.other hcomp) h)
    · simp only [completeBuf, hcomp, tidOf_eq, halone.key, Option.bind_some] at h
      have hspill : spill s bf = 0 := by
        rw [spill, halone.key]
        simp [hcomp]
      rw [hspill, zero_add]
      exact hloose.trans (athBarTxComp_spec hloose.wf hoff halone hsafe (hallowed.resume hcomp)
        (hallowed.teardown hcomp) h)
  · have hbf := hair bf hel.mem_subframes
    simp only [completeBuf, hbf.comp, tidOf_eq, hbf.key, Option.bind_some] at h
    have hspill : spill s bf = if (s.tid k).cleanupInprogres ∧ (s.buf bf).bfIsaggr = false then
        (s.tid k).spilled else 0 := by
      rw [spill, hbf.key]
      simp [hbf.comp]
    rw [hspill]
    exact athTgtTxCompAggr_spec hwf hoff hair hel.chain haggr (hsettled k hbf.comp hbf.key) hsafe
      (fun v f hre hincomp hagg hc => (hok k hbf.key).subframe v f hbf.comp hre hincomp hagg hc)
      ((hok k hbf.key).single hbf.comp) h

end Ath9kHtc.Tx
