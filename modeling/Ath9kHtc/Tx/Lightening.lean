import Ath9kHtc.Tx.Serving

/-!
# Every completion leaves less to come

The completion of an element of a hardware queue does not fail where its subframes are frames of
their TID, and what all frames together have before them gets less.
-/

namespace Ath9kHtc.Tx

open TxBuf

variable {s s' s'' : TxState} {bf c : BufId} {k : TidId} {q : QueueId} {n : ℕ} {bp : Option BufId}
  {rest : List BufId} {acc acc' : CompAcc}

theorem Eases.modTid (s : TxState) (k : TidId) (f : Tid → Tid) : Eases 0 s (s.modTid k f) :=
  .of_eq rfl rfl

theorem Eases.athTxStatusUpdate (s : TxState) (bf : BufId) : Eases 0 s (athTxStatusUpdate s bf) := by
  unfold Tx.athTxStatusUpdate
  dsimp only
  split
  · exact .refl s
  · split
    · exact .refl s
    · exact .of_eq rfl rfl

theorem Eases.athTxStatusUpdateAggr (s : TxState) (bf : BufId) (stat : TxStat)
    (rcs : Option (Fin 4 → RcSeries)) (txok : Bool) :
    Eases 0 s (athTxStatusUpdateAggr s bf stat rcs txok) := by
  unfold Tx.athTxStatusUpdateAggr
  dsimp only
  split
  · exact .refl s
  · split
    · exact .refl s
    · exact .of_eq rfl rfl

/-- A buffer is released by a handler that has changed no buffer before. -/
theorem freebuf_after (h : Laden s) {s₀ : TxState} (hs : Eases 0 s s₀) (hbuf : s₀.buf = s.buf)
    (hcomp : (s.buf bf).bfComp ≠ none) :
    ∃ s', athTxFreebuf s₀ bf = some s' ∧ Eases 1 s s' ∧ Kept bf s s' ∧ s'.tid = s₀.tid ∧
      s'.txq = s₀.txq ∧ s'.cfg = s₀.cfg := by
  obtain ⟨s', hfree, heases, hkept, htid, htxq, hcfg⟩ := athTxFreebuf_total (hs.laden h) bf
  rw [hbuf] at heases
  have hkept₀ : Kept bf s s₀ := .of_buf fun b _ _ => congrFun hbuf b
  exact ⟨s', hfree, (hs.after heases).mono (load_pos hcomp), hkept₀.trans hkept, htid, htxq, hcfg⟩

theorem modBuf_self (s : TxState) (bf : BufId) : s.modBuf bf (fun b => b) = s := by
  rw [TxState.modBuf, TxState.setBuf, Function.update_eq_self]

/-! ## Cleanup -/

/-- A release leaves the frames that wait where they are. -/
theorem Kept.aggregates (h : Kept bf s s') (htid : s'.tid = s.tid) (hs : s.Aggregates)
    (hout : ∀ k, bf ∉ (s.tid k).bufQ) : s'.Aggregates := by
  intro k b hb
  rw [htid] at hb
  have hcomp := hs k b hb
  rw [h.comp b (ne_of_mem_of_not_mem hb (hout k)) (by rw [hcomp]; exact Option.some_ne_none _)]
  exact hcomp

theorem athTgtTxCompNormal_total (h : Laden s) (hq : s.Aggregates)
    (hcomp : (s.buf bf).bfComp ≠ none) :
    ∃ s', athTgtTxCompNormal s k bf = some s' ∧ Eases 1 s s' := by
  obtain ⟨s₁, hclean, hstill⟩ : ∃ s₁, (if (s.tid k).cleanupInprogres then owlTgtTidCleanup s k
      else some s) = some s₁ ∧ Still s s₁ := by
    split
    · exact owlTgtTidCleanup_total hq k
    · exact ⟨s, rfl, .refl s⟩
  have hstatus : Eases 0 s₁ (athTxUcComp s₁ bf k.1) :=
    (Eases.athTxStatusUpdate s₁ bf).followed (.of_eq rfl rfl)
  have hbuf : (athTxUcComp s₁ bf k.1).buf = s₁.buf :=
    (congrArg Ledger.buf (ledger_athTxStatusUpdate s₁ bf) :)
  obtain ⟨s', hfree, heases, -⟩ := freebuf_after (hstill.eases.laden h) hstatus hbuf
    ((hstill.buf bf).comp ▸ hcomp)
  refine ⟨s', ?_, hstill.eases.after heases⟩
  rw [athTgtTxCompNormal, hclean, Option.bind_some]
  exact hfree

/-- The subframes a completion goes through. -/
structure Subframes (s : TxState) (k : TidId) (bp : Option BufId) (rest : List BufId) : Prop where
  nodup : rest.Nodup
  air : ∀ b ∈ rest, (s.buf b).bfComp = some .aggr ∧ keyOf (s.buf b) = some k
  chain : Chain (fun b => (s.buf b).bfNext) bp rest

namespace Subframes

theorem comp_ne (h : Subframes s k bp rest) {b : BufId} (hb : b ∈ rest) :
    (s.buf b).bfComp ≠ none := by
  rw [(h.air b hb).1]
  exact Option.some_ne_none _

theorem tail {b : BufId} (h : Subframes s k (some b) (b :: rest)) (hkept : Kept b s s') :
    Subframes s' k (s.buf b).bfNext rest := by
  obtain ⟨hout, hnodup⟩ := List.nodup_cons.mp h.nodup
  have hne : ∀ c ∈ rest, c ≠ b ∧ (s.buf c).bfComp ≠ none := fun c hc =>
    ⟨ne_of_mem_of_not_mem hc hout, h.comp_ne (List.mem_cons_of_mem _ hc)⟩
  refine ⟨hnodup, fun c hc => ?_, (Chain.cons_iff.mp h.chain).2.congr fun c hc => ?_⟩
  · obtain ⟨hb, hcomp⟩ := hne c hc
    rw [hkept.comp c hb hcomp, hkept.key c hb hcomp]
    exact h.air c (List.mem_cons_of_mem _ hc)
  · exact hkept.next c (hne c hc).1 (hne c hc).2

theorem modTid (h : Subframes s k bp rest) (k' : TidId) (f : Tid → Tid) :
    Subframes (s.modTid k' f) k bp rest := ⟨h.nodup, h.air, h.chain⟩

end Subframes

theorem compCleanupLoop_total {stat : TxStat} {rcs : Fin 4 → RcSeries} (h : Laden s)
    (hq : s.Aggregates) (hsub : Subframes s k bp rest) (hout : ∀ b ∈ rest, ∀ k, b ∉ (s.tid k).bufQ)
    (hlen : rest.length ≤ n) :
    ∃ s', compCleanupLoop k stat rcs n bp s = some s' ∧
      Eases (if rest = [] then 0 else 1) s s' := by
  induction rest generalizing s n bp with
  | nil =>
      rw [Chain.nil_iff.mp hsub.chain]
      cases n <;> exact ⟨s, rfl, .refl s⟩
  | cons b rest ih =>
      obtain ⟨rfl, -⟩ := Chain.cons_iff.mp hsub.chain
      obtain ⟨n, rfl⟩ := Nat.exists_eq_succ_of_ne_zero
        (Nat.ne_of_gt (Nat.lt_of_lt_of_le (Nat.succ_pos rest.length) hlen))
      have hspares := spares_athTxStatusUpdateAggr s b stat (some rcs) false 0
      obtain ⟨s₁, hfree, heases, hkept, htid, -⟩ := freebuf_after h
        (.athTxStatusUpdateAggr s b stat (some rcs) false)
        (congrArg Ledger.buf (ledger_athTxStatusUpdateAggr s b stat (some rcs) false))
        (hsub.comp_ne List.mem_cons_self)
      have htid : s₁.tid = s.tid := htid.trans hspares.tid
      have hq₁ := hkept.aggregates htid hq (hout b List.mem_cons_self)
      rw [compCleanupLoop_some, hfree, Option.bind_some, if_neg (List.cons_ne_nil b rest)]
      split
      · have hstopped : Still s₁ (s₁.modTid k fun tid => tid.countDown.stopCleanup) :=
          .modTid _ fun _ => id
        obtain ⟨s', hresume, hstill⟩ := athAggrResumeTid_total (hstopped.aggregates hq₁) k
        exact ⟨s', hresume, heases.followed (hstopped.trans hstill).eases⟩
      · have hcounted : Still s₁ (s₁.modTid k Tid.countDown) := .modTid _ fun _ => id
        obtain ⟨s', hloop, hrest⟩ := ih (n := n) (hcounted.eases.laden (heases.laden h))
          (hcounted.aggregates hq₁) ((hsub.tail hkept).modTid k _)
          (fun c hc k' hmem => hout c (List.mem_cons_of_mem _ hc) k' (by
            have := hcounted.queued k' c hmem
            rwa [htid] at this))
          (Nat.le_of_succ_le_succ hlen)
        exact ⟨s', hloop, heases.followed (hcounted.eases.followed (hrest.mono (Nat.zero_le _)))⟩

/-- The walk of a cleanup that throws the whole queue away. -/
theorem cleanupBufQ_total {l : List BufId} (h : Laden s) (hl : (s.tid k).bufQ = l) :
    ∃ s', cleanupBufQ k true l s = some s' ∧ Eases 0 s s' ∧ (s'.tid k).bufQ = [] ∧
      ∀ b ∉ l, (s.buf b).bfComp ≠ none → (s'.buf b).bfComp = (s.buf b).bfComp := by
  induction l generalizing s with
  | nil => exact ⟨s, rfl, .refl s, hl, fun _ _ _ => rfl⟩
  | cons bf rest ih =>
      set s₀ := discardFromBaw (bufQRemoveHead s k) k bf with hs₀
      have hstill : Eases 0 s s₀ ∧ s₀.buf = s.buf ∧ (s₀.tid k).bufQ = rest := by
        have hrest : ((bufQRemoveHead s k).tid k).bufQ = rest := by
          rw [bufQRemoveHead, TxState.modTid_tid_self, hl]
          rfl
        rw [hs₀, discardFromBaw]
        split
        · refine ⟨.of_eq rfl rfl, rfl, ?_⟩
          rw [TxState.modTid_tid_self]
          exact (congrArg Tid.bufQ (rest_athTxUpdateBaw _ _) :).trans hrest
        · exact ⟨.of_eq rfl rfl, rfl, hrest⟩
      obtain ⟨hease, hbuf, hrest⟩ := hstill
      obtain ⟨s₁, hfree, heases, hkept, htid, -⟩ := athTxFreebuf_total (hease.laden h) bf
      obtain ⟨s', hloop, hend, hnil, hothers⟩ :=
        ih (heases.laden (hease.laden h)) (by rw [htid]; exact hrest)
      refine ⟨s', ?_, hease.followed ((heases.mono (Nat.zero_le _)).followed hend), hnil,
        fun b hb hcomp => ?_⟩
      · rw [cleanupBufQ, if_pos (.inl rfl), hl]
        show (athTxFreebuf s₀ bf).bind (cleanupBufQ k true rest) = _
        rw [hfree, Option.bind_some]
        exact hloop
      · have hne : b ≠ bf := fun heq => hb (heq ▸ List.mem_cons_self)
        have hcomp₁ := hkept.comp b hne (by rw [hbuf]; exact hcomp)
        rw [hbuf] at hcomp₁
        rw [hothers b (fun hmem => hb (List.mem_cons_of_mem _ hmem)) (by rw [hcomp₁]; exact hcomp),
          hcomp₁]

theorem athTgtTxCleanup_total (h : Laden s) :
    ∃ s', athTgtTxCleanup s k true = some s' ∧ Eases 0 s s' ∧ (s'.tid k).bufQ = [] ∧
      ∀ b ∉ (s.tid k).bufQ, (s.buf b).bfComp ≠ none → (s'.buf b).bfComp = (s.buf b).bfComp := by
  obtain ⟨s₁, hloop, heases, hnil, hothers⟩ := cleanupBufQ_total (k := k) h rfl
  rw [athTgtTxCleanup_eq, hloop, Option.bind_some]
  set s₂ := s₁.modTid k fun tid => cleanupBaw athTidMaxBufs { tid with paused := true } with hs₂
  have hnil₂ : (s₂.tid k).bufQ = [] := by
    rw [hs₂, TxState.modTid_tid_self, cleanupBaw_bufQ]
    exact hnil
  dsimp only
  split
  · exact ⟨s₂, rfl, heases.followed (.of_eq rfl rfl), hnil₂, hothers⟩
  · rw [athAggrResumeTid_of_nil hnil₂]
    refine ⟨_, rfl, heases.followed (.of_eq rfl rfl), ?_, hothers⟩
    rw [TxState.modTid_tid_self]
    exact hnil₂

theorem tidDrainLoop_total {l : List BufId} (h : Laden s) :
    ∃ s', tidDrainLoop k l s = some s' ∧ Eases 0 s s' := by
  induction l generalizing s with
  | nil => exact ⟨s, rfl, .refl s⟩
  | cons bf rest ih =>
      have hremoved : Eases 0 s (bufQRemoveHead s k) := Still.bufQRemoveHead.eases
      obtain ⟨s₁, hfree, heases, -⟩ := athTxFreebuf_total (hremoved.laden h) bf
      obtain ⟨s', hloop, hrest⟩ := ih (heases.laden (hremoved.laden h))
      refine ⟨s', ?_, hremoved.followed ((heases.mono (Nat.zero_le _)).followed hrest)⟩
      rw [tidDrainLoop, hfree, Option.bind_some]
      exact hloop

theorem athTgtTidDrain_total (h : Laden s) :
    ∃ s', athTgtTidDrain s k = some s' ∧ Eases 0 s s' := by
  obtain ⟨s₁, hloop, heases⟩ := tidDrainLoop_total (k := k) (l := (s.tid k).bufQ) h
  rw [athTgtTidDrain, hloop, Option.map_some]
  exact ⟨_, rfl, heases.followed (.of_eq rfl rfl)⟩

/-! ## Block-ack requests -/

/-- A BAR has less before it than the frame it is made of. -/
theorem athBarTx_total (h : Laden s) (hcomp : (s.buf bf).bfComp = some .aggr) :
    ∃ s', athBarTx s k bf = some s' ∧ Eases 1 s s' := by
  obtain ⟨skb, hskbhead, hskb⟩ := h.carries bf (by rw [hcomp]; exact Option.some_ne_none _)
  have hpause : Eases 0 s (athAggrPauseTid s k) := .of_eq rfl rfl
  rw [athBarTx]
  dsimp only
  rw [show ((athAggrPauseTid s k).buf bf).bfSkbhead = [skb] from hskbhead]
  refine ⟨_, rfl, hpause.after (Eases.followed ?_ Still.athTgtTxqAddUcast.eases)⟩
  refine Eases.followed ?_ (Eases.modBuf (fun b => { b with bfLastds := bf }) ⟨rfl, rfl, rfl, rfl⟩)
  refine .write rfl rfl (fun hnone => ?_) (fun _ _ => ⟨skb, rfl, hskb⟩) ?_
  · cases hcomp.symm.trans hnone
  · show (1 + (owlmaxBarRetries - (s.buf bf).bfRetries)) + 1 ≤ (s.buf bf).load
    rw [load, hcomp]
    show _ ≤ 2 + (owlmaxRetries - (s.buf bf).bfRetries)
    rw [owlmaxBarRetries, owlmaxRetries]
    omega

/-- A buffer loses its completion function and is released. -/
theorem dropBar_total (h : Laden s) (hcomp : (s.buf bf).bfComp ≠ none) :
    ∃ s', athBufComp (s.modBuf bf fun b => { b with bfComp := none }) bf = some s' ∧
      Eases 1 s s' := by
  set x : TxBuf := { s.buf bf with bfComp := none }
  have hwrite : Eases 1 s (s.modBuf bf fun b => { b with bfComp := none }) := by
    refine .write (x := x) rfl rfl (fun _ => rfl) (fun _ => carries_idle rfl) ?_
    rw [load_idle (b := x) rfl, Nat.zero_add]
    exact load_pos hcomp
  have hidle : ((s.modBuf bf fun b => { b with bfComp := none }).buf bf).bfComp = none := by
    rw [TxState.modBuf_buf_self]
  obtain ⟨s', hdrop, heases, -⟩ := athBufComp_total (hwrite.laden h) hidle
  exact ⟨s', hdrop, hwrite.followed heases⟩

/-- A frame goes to another buffer or stays in its own, and counts one retry more. -/
theorem resend_total (h : Laden s) (hcomp : (s.buf bf).bfComp = some .aggr ∨
      (s.buf bf).bfComp = some .bar) (hr : (s.buf bf).bfRetries < owlmaxRetries) (last : Bool)
    {f : BufId → TxState → TxState} {g : TxBuf → TxBuf}
    (hg : SameLoad (s.buf bf) (g (s.buf bf)))
    (hf : ∀ c s, Eases 0 s (f c s) ∧ (f c s).buf = s.buf ∧ (f c s).tid = s.tid ∧
      (f c s).cfg = s.cfg) :
    ∃ c s₁ s', (if last then athBufToggle s bf true else some (bf, s.modBuf bf g)) = some (c, s₁) ∧
      athTxSetRetry (f c s₁) c = some s' ∧ Eases 1 s s' ∧ Kept bf s s' ∧ s'.tid = s.tid ∧
      s'.cfg = s.cfg := by
  have hne : (s.buf bf).bfComp ≠ none := by
    rcases hcomp with hcomp | hcomp <;> rw [hcomp] <;> exact Option.some_ne_none _
  obtain ⟨c, s₁, hmove, heases, hsame, hkept, htid, hcfg, hc⟩ : ∃ c s₁,
      (if last then athBufToggle s bf true else some (bf, s.modBuf bf g)) = some (c, s₁) ∧
      Eases 0 s s₁ ∧ SameLoad (s.buf bf) (s₁.buf c) ∧ Kept bf s s₁ ∧ s₁.tid = s.tid ∧
      s₁.cfg = s.cfg ∧ ∀ b, b ≠ bf → (s.buf b).bfComp ≠ none → b ≠ c := by
    split
    · obtain ⟨c, s₁, htoggle, heases, hsame, hkept, htid, hcfg⟩ := athBufToggle_total h hne
      refine ⟨c, s₁, htoggle, heases, hsame, hkept, htid, hcfg, ?_⟩
      have t := athBufToggle_true htoggle (h.ne_held hne)
      intro b _ hb hbc
      exact h.ne_held hb c t.held hbc.symm
    · refine ⟨bf, _, rfl, .modBuf g hg, ?_, ?_, rfl, rfl, fun b hb _ => hb⟩
      · rw [TxState.modBuf_buf_self]
        exact hg
      · exact .of_buf fun b hb _ => TxState.modBuf_buf_of_ne _ _ _ hb
  obtain ⟨hease, hbuf, hftid, hfcfg⟩ := hf c s₁
  obtain ⟨s', hset, hone, hkept', htid', hcfg'⟩ := athTxSetRetry_total (c := c)
    (hease.laden (heases.laden h))
    (by rw [hbuf, hsame.comp]; exact hcomp) (by rw [hbuf, hsame.retries]; exact hr)
  have hf' : Kept c s₁ (f c s₁) := .of_buf fun b _ _ => congrFun hbuf b
  exact ⟨c, s₁, s', hmove, hset, heases.after (hease.after hone), hkept.via (hf'.trans hkept') hc,
    htid'.trans (hftid.trans htid), hcfg'.trans (hfcfg.trans hcfg)⟩

/-! ## Aggregates -/

/-- A frame that is to become a BAR still has the whole of its load. -/
def CompAcc.credit (acc : CompAcc) : ℕ := if acc.bar = none then 0 else 1

/-- What a subframe adds to what is collected, and what it has cost. -/
structure Gathered (n : ℕ) (bf : BufId) (acc : CompAcc) (s : TxState) (acc' : CompAcc)
    (s' : TxState) : Prop where
  laden : Laden s'
  load : s'.load + acc.credit + n ≤ s.load + acc'.credit
  kept : Kept bf s s'
  bar : ∀ b ∈ acc'.bar, b ∈ acc.bar ∨ b = bf ∧ (s'.buf b).bfComp = some .aggr

theorem athTxRetrySubframe_total (h : Laden s) (hair : (s.buf bf).bfComp = some .aggr ∧
      keyOf (s.buf bf) = some k) :
    ∃ acc' s', athTxRetrySubframe s bf acc = some (acc', s') ∧ Gathered 1 bf acc s acc' s' := by
  obtain ⟨hcomp, hkey⟩ := hair
  have hne : (s.buf bf).bfComp ≠ none := by
    rw [hcomp]
    exact Option.some_ne_none _
  rw [athTxRetrySubframe, tidOf_eq, hkey, Option.bind_some]
  split
  · set s₀ := s.modTid k fun tid => athTxUpdateBaw tid (seqnoFromBfSeqno (s.buf bf).bfSeqno)
    set s₁ := athTxStatusUpdateAggr s₀ bf (s.ds (s.buf bf).bfLastds).dsTxstat none false
    have hbuf : s₁.buf = s.buf := (congrArg Ledger.buf (ledger_athTxStatusUpdateAggr s₀ bf
      (s.ds (s.buf bf).bfLastds).dsTxstat none false) :)
    have hfirst : Eases 0 s s₁ := (Eases.modTid s k _).after (.athTxStatusUpdateAggr s₀ bf _ _ _)
    dsimp only
    split
    · rename_i hbar
      refine ⟨_, _, rfl, hfirst.laden h, ?_, .of_buf fun b _ _ => congrFun hbuf b, ?_⟩
      · rw [CompAcc.credit, if_pos hbar]
        exact Nat.add_le_add_right (hfirst.load h) 1
      · intro b hb
        obtain rfl := Option.some_inj.mp hb
        exact .inr ⟨rfl, by rw [hbuf]; exact hcomp⟩
    · obtain ⟨s', hfree, heases, hkept, -⟩ := freebuf_after h hfirst hbuf hne
      rw [hfree, Option.map_some]
      refine ⟨acc, s', rfl, heases.laden h, ?_, hkept, fun b hb => .inl hb⟩
      have := heases.load h
      omega
  · rename_i hr
    obtain ⟨c, s₁, s', hmove, hset, heases, hkept, -⟩ := resend_total h (.inl hcomp)
      (Nat.lt_of_not_le hr) (decide ((s.buf bf).bfNext = none)) 
      (f := fun _ s => s) (g := fun b => { b with bfLastds := bf }) ⟨rfl, rfl, rfl, rfl⟩
      fun _ s => ⟨.refl s, rfl, rfl, rfl⟩
    simp only [decide_eq_true_eq] at hmove
    rw [hmove, Option.bind_some]
    dsimp only
    rw [hset, Option.map_some]
    refine ⟨_, _, rfl, heases.laden h, ?_, hkept, fun b hb => .inl hb⟩
    have := heases.load h
    show s'.load + acc.credit + 1 ≤ s.load + acc.credit
    omega

theorem ackSubframe_total (h : Laden s) (hcomp : (s.buf bf).bfComp ≠ none) {stat : TxStat}
    {rcs : Fin 4 → RcSeries} :
    ∃ s', ackSubframe s k bf stat rcs = some s' ∧ Gathered 1 bf acc s acc s' := by
  set s₀ := s.modTid k fun tid => athTxUpdateBaw tid (seqnoFromBfSeqno (s.buf bf).bfSeqno)
  obtain ⟨s', hfree, heases, hkept, -⟩ := freebuf_after h
    ((Eases.modTid s k _).after (.athTxStatusUpdateAggr s₀ bf stat (some rcs) true))
    (congrArg Ledger.buf (ledger_athTxStatusUpdateAggr s₀ bf stat (some rcs) true) :) hcomp
  refine ⟨s', hfree, heases.laden h, ?_, hkept, fun b hb => .inl hb⟩
  have := heases.load h
  omega

/-- Every subframe of an aggregate takes something off the load, but the one that is to become
a BAR. -/
theorem compAggrLoop_total {stat : TxStat} {rcs : Fin 4 → RcSeries} {acked : TxBuf → Bool}
    (h : Laden s) (hsub : Subframes s k bp rest)
    (hbar : ∀ b ∈ acc.bar, b ∉ rest ∧ (s.buf b).bfComp = some .aggr) (hlen : rest.length ≤ n) :
    ∃ acc' s', compAggrLoop k stat rcs acked n bp acc s = some (acc', s') ∧ Laden s' ∧
      s'.load + acc.credit + rest.length ≤ s.load + acc'.credit ∧
      ∀ b ∈ acc'.bar, (s'.buf b).bfComp = some .aggr := by
  induction rest generalizing s n bp acc with
  | nil =>
      rw [Chain.nil_iff.mp hsub.chain]
      cases n <;> exact ⟨acc, s, rfl, h, le_refl _, fun b hb => (hbar b hb).2⟩
  | cons b rest ih =>
      obtain ⟨rfl, -⟩ := Chain.cons_iff.mp hsub.chain
      obtain ⟨n, rfl⟩ := Nat.exists_eq_succ_of_ne_zero
        (Nat.ne_of_gt (Nat.lt_of_lt_of_le (Nat.succ_pos rest.length) hlen))
      have hlen : rest.length ≤ n := Nat.le_of_succ_le_succ hlen
      have hnext : ∀ {acc₁ s₁}, Gathered 1 b acc s acc₁ s₁ →
          ∃ acc' s', compAggrLoop k stat rcs acked n (s.buf b).bfNext acc₁ s₁ = some (acc', s') ∧
            Laden s' ∧ s'.load + acc.credit + (rest.length + 1) ≤ s.load + acc'.credit ∧
            ∀ b ∈ acc'.bar, (s'.buf b).bfComp = some .aggr := by
        intro acc₁ s₁ hone
        have hbar₁ : ∀ c ∈ acc₁.bar, c ∉ rest ∧ (s₁.buf c).bfComp = some .aggr := by
          intro c hc
          rcases hone.bar c hc with hold | ⟨rfl, hcomp⟩
          · obtain ⟨hout, hcomp⟩ := hbar c hold
            rw [List.mem_cons, not_or] at hout
            refine ⟨hout.2, ?_⟩
            rw [hone.kept.comp c hout.1 (by rw [hcomp]; exact Option.some_ne_none _)]
            exact hcomp
          · exact ⟨(List.nodup_cons.mp hsub.nodup).1, hcomp⟩
        obtain ⟨acc', s', hloop, hladen, hload, haggr⟩ :=
          ih hone.laden (hsub.tail hone.kept) hbar₁ hlen
        have := hone.load
        exact ⟨acc', s', hloop, hladen, by omega, haggr⟩
      rw [compAggrLoop]
      dsimp only
      split
      · obtain ⟨s₁, hack : ackSubframe s k b stat rcs = some s₁, hone : Gathered 1 b acc s acc s₁⟩ :=
          ackSubframe_total h (hsub.comp_ne List.mem_cons_self)
        rw [hack, Option.bind_some]
        exact hnext hone
      · obtain ⟨acc₁, s₁, hretry, hone : Gathered 1 b acc s acc₁ s₁⟩ :=
          athTxRetrySubframe_total h (hsub.air b List.mem_cons_self)
        rw [hretry, Option.bind_some]
        exact hnext ⟨hone.laden, hone.load, hone.kept, hone.bar⟩

theorem finishAggr_total (h : Laden s) (hbar : ∀ b ∈ acc.bar, (s.buf b).bfComp = some .aggr) :
    ∃ s', finishAggr s k q acc = some s' ∧ Eases acc.credit s s' := by
  obtain ⟨s₁, hfinish, heases⟩ : ∃ s₁, finishAggr s k q acc = some
      (if acc.bfQ = [] then s₁ else athTgtTxEnqueue (prependBufQ s₁ k acc.bfQ) q k) ∧
        Eases acc.credit s s₁ := by
    rw [finishAggr, CompAcc.credit]
    cases hacc : acc.bar with
    | none => exact ⟨s, rfl, .refl s⟩
    | some bar =>
        obtain ⟨s₁, hsent, heases⟩ := athBarTx_total h (hbar bar hacc)
        rw [if_neg (Option.some_ne_none bar)]
        refine ⟨s₁, ?_, heases⟩
        dsimp only
        rw [hsent, Option.map_some]
  refine ⟨_, hfinish, heases.followed ?_⟩
  split
  · exact .refl s₁
  · exact (Eases.modTid s₁ k _).after Still.athTgtTxEnqueue.eases

theorem aggregate_total {stat : TxStat} {rcs : Fin 4 → RcSeries} {acked : TxBuf → Bool}
    (h : Laden s) (hsub : Subframes s k (some bf) rest) (hlen : rest.length ≤ n)
    (f : CompAcc → Output) :
    ∃ s', ((compAggrLoop k stat rcs acked n (some bf) {} s).bind fun (acc, s) =>
        finishAggr (s.emit (f acc)) k q acc) = some s' ∧ Eases 1 s s' := by
  have hnone : ∀ b ∈ ({} : CompAcc).bar, b ∉ rest ∧ (s.buf b).bfComp = some .aggr := by
    intro b hb
    cases hb
  obtain ⟨acc, s₁, hloop : compAggrLoop k stat rcs acked n (some bf) {} s = _, hladen, hload,
    hbar⟩ := compAggrLoop_total h hsub hnone hlen
  have hemit : Eases 0 s₁ (s₁.emit (f acc)) := .of_eq rfl rfl
  obtain ⟨s', hfinish, heases⟩ := finishAggr_total (k := k) (q := q) (hemit.laden hladen) hbar
  rw [hloop, Option.bind_some]
  have hpos : 1 ≤ rest.length := by
    cases rest with
    | nil => cases hsub.chain
    | cons b rest => exact Nat.succ_pos _
  refine ⟨s', hfinish, fun _ => heases.laden (hemit.laden hladen), fun _ => ?_⟩
  have := (hemit.after heases).load hladen
  rw [show CompAcc.credit {} = 0 from rfl] at hload
  omega

/-! ## Single frames -/

theorem athTxRetryUnaggr_total (h : Laden s) (hcomp : (s.buf bf).bfComp = some .aggr) :
    ∃ s', athTxRetryUnaggr s k bf = some s' ∧ Eases 1 s s' := by
  rw [athTxRetryUnaggr]
  dsimp only
  split
  · set s₀ := s.modTid k fun tid => athTxUpdateBaw tid (seqnoFromBfSeqno (s.buf bf).bfSeqno)
    have hfirst : Eases 0 s (athTxStatusUpdate s₀ bf) :=
      (Eases.modTid s k _).after (.athTxStatusUpdate s₀ bf)
    have hbuf : (athTxStatusUpdate s₀ bf).buf = s.buf :=
      (congrArg Ledger.buf (ledger_athTxStatusUpdate s₀ bf) :)
    obtain ⟨s', hbar, heases⟩ := athBarTx_total (k := k) (hfirst.laden h)
      (by rw [hbuf]; exact hcomp)
    exact ⟨s', hbar, hfirst.after heases⟩
  · rename_i hr
    obtain ⟨c, s₁, s', hmove, hset, heases, -⟩ := resend_total h (.inl hcomp)
      (Nat.lt_of_not_le hr) (decide ((s.ds (s.buf bf).bfLastds).dsLink = none)) 
      (f := fun _ s => s) (g := fun b => b) (.refl _) fun _ s => ⟨.refl s, rfl, rfl, rfl⟩
    simp only [decide_eq_true_eq, modBuf_self] at hmove
    rw [hmove, Option.bind_some]
    dsimp only
    rw [hset, Option.map_some]
    exact ⟨_, rfl, heases.followed ((Eases.modTid s' k _).after Still.athTgtTxEnqueue.eases)⟩

theorem athTxCompUnaggr_total (h : Laden s) (hcomp : (s.buf bf).bfComp = some .aggr) :
    ∃ s', athTxCompUnaggr s k bf = some s' ∧ Eases 1 s s' := by
  have hemit : Eases 0 s (s.emit (.rateTxComplete k.1 1 0)) := .of_eq rfl rfl
  rw [athTxCompUnaggr]
  dsimp only
  split
  · obtain ⟨s', hretry, heases⟩ := athTxRetryUnaggr_total (k := k) (hemit.laden h) hcomp
    exact ⟨s', hretry, hemit.after heases⟩
  · set s₀ := (s.emit (.rateTxComplete k.1 1 0)).modTid k fun tid =>
      athTxUpdateBaw tid (seqnoFromBfSeqno (s.buf bf).bfSeqno)
    obtain ⟨s', hfree, heases, -⟩ := freebuf_after h
      ((hemit.followed (.modTid _ k _)).followed (.athTxStatusUpdate s₀ bf))
      (congrArg Ledger.buf (ledger_athTxStatusUpdate s₀ bf) :)
      (by rw [hcomp]; exact Option.some_ne_none _)
    exact ⟨s', hfree, heases⟩

theorem athTxCompCleanup_total (h : Laden s) (hq : s.Aggregates)
    (hsub : Subframes s k (some bf) rest) (hout : ∀ b ∈ rest, ∀ k, b ∉ (s.tid k).bufQ)
    (hmem : bf ∈ rest) (hlen : rest.length ≤ s.cfg.txBufs) :
    ∃ s', athTxCompCleanup s k bf = some s' ∧ Eases 1 s s' := by
  have hne := hsub.comp_ne hmem
  rw [athTxCompCleanup]
  split
  · obtain ⟨s₁, hloop : compCleanupLoop k (s.ds (s.buf bf).bfLastds).dsTxstat (s.buf bf).bfRcs
      s.cfg.txBufs (some bf) s = some s₁, heases⟩ := compCleanupLoop_total h hq hsub hout hlen
    rw [if_neg (List.ne_nil_of_mem hmem)] at heases
    rw [hloop, Option.map_some]
    exact ⟨_, rfl, heases.followed (.of_eq rfl rfl)⟩
  · have hspares := spares_athTxStatusUpdate s bf 0
    obtain ⟨s₁, hfree, heases, hkept, htid, -⟩ := freebuf_after h (.athTxStatusUpdate s bf)
      (congrArg Ledger.buf (ledger_athTxStatusUpdate s bf) :) hne
    rw [hfree, Option.bind_some]
    split
    · have htid : s₁.tid = s.tid := htid.trans hspares.tid
      obtain ⟨s', hclean, hstill⟩ :=
        owlTgtTidCleanup_total (hkept.aggregates htid hq (hout bf hmem)) k
      exact ⟨s', hclean, heases.followed hstill.eases⟩
    · exact ⟨s₁, rfl, heases⟩

/-- The completion of a frame or an aggregate; only the flag of frames that software has
filtered is not expected. -/
theorem athTgtTxCompAggr_total (h : Laden s) (hq : s.Aggregates)
    (hsub : Subframes s k (some bf) rest) (hout : ∀ b ∈ rest, ∀ k, b ∉ (s.tid k).bufQ)
    (hmem : bf ∈ rest) (hlen : rest.length ≤ s.cfg.txBufs)
    (hflags : (s.ds (s.buf bf).bfLastds).dsTxstat.tsFlags = halTxSwFiltered →
      (s.tid k).cleanupInprogres = true) :
    ∃ s', athTgtTxCompAggr s k bf = some s' ∧ Eases 1 s s' := by
  rw [athTgtTxCompAggr]
  dsimp only
  split
  · exact athTxCompCleanup_total h hq hsub hout hmem hlen
  · rename_i hc
    rw [if_neg fun hfiltered => hc (hflags hfiltered)]
    split
    · exact athTxCompUnaggr_total h (hsub.air bf hmem).1
    · split
      · exact aggregate_total h hsub hlen fun _ =>
          .rateTxComplete k.1 (s.buf bf).bfNframes (s.buf bf).bfNframes
      · split
        · exact aggregate_total h hsub hlen fun _ =>
            .rateTxComplete k.1 (s.buf bf).bfNframes (s.buf bf).bfNframes
        · exact aggregate_total h hsub hlen fun acc =>
            .rateTxComplete k.1 (s.buf bf).bfNframes acc.nbad

theorem athBarTxComp_total (h : Laden s) (hq : s.Aggregates)
    (hcomp : (s.buf bf).bfComp = some .bar) (hout : bf ∉ (s.tid k).bufQ) :
    ∃ s', athBarTxComp s k bf = some s' ∧ Eases 1 s s' := by
  have hne : (s.buf bf).bfComp ≠ none := by
    rw [hcomp]
    exact Option.some_ne_none _
  rw [athBarTxComp]
  split
  · rw [athBarRetry]
    split
    · have hstopped : Eases 0 s (s.modTid k fun tid => { tid with aggrEnabled := false }) :=
        .of_eq rfl rfl
      obtain ⟨s₁, hclean, heases, hnil, hothers⟩ :=
        athTgtTxCleanup_total (k := k) (hstopped.laden h)
      have hladen := heases.laden (hstopped.laden h)
      have hq₁ : ((s.modTid k fun tid => { tid with aggrEnabled := false }).tid k).bufQ =
          (s.tid k).bufQ := by rw [TxState.modTid_tid_self]
      have hcomp₁ : (s₁.buf bf).bfComp ≠ none := by
        rw [hothers bf (hq₁ ▸ hout) hne]
        exact hne
      have hnil : ((s₁.emit (.delba k.1 k.2)).tid k).bufQ = [] := hnil
      have hrewound : Eases 0 s₁ ((s₁.emit (.delba k.1 k.2)).modTid k Tid.rewind) :=
        .of_eq rfl rfl
      obtain ⟨s', hdrop, hlast⟩ := dropBar_total (hrewound.laden hladen) hcomp₁
      rw [athTgtDelbaSend, hclean, Option.map_some, Option.bind_some, athTgtTidDrain_of_nil hnil,
        Option.bind_some]
      exact ⟨s', hdrop, (hstopped.followed heases).after (hrewound.after hlast)⟩
    · rename_i hr
      obtain ⟨c, s₁, s', hmove, hset, heases, -⟩ := resend_total h (.inr hcomp)
        (Nat.lt_of_not_le hr) (decide ((s.ds (s.buf bf).bfLastds).dsLink = none))
        (f := fun c s => s.modDs (s.buf c).bfLastds fun ds => { ds with dsLink := none })
        (g := fun b => b) (.refl _) fun _ s => ⟨.of_eq rfl rfl, rfl, rfl, rfl⟩
      simp only [decide_eq_true_eq, modBuf_self] at hmove
      rw [hmove, Option.bind_some]
      dsimp only at hset ⊢
      rw [hset, Option.map_some]
      exact ⟨_, rfl, heases.followed Still.athTgtTxqAddUcast.eases⟩
  · obtain ⟨s₁, hresume, hstill⟩ := athAggrResumeTid_total hq k
    have hcomp : (s₁.buf bf).bfComp ≠ none := (hstill.buf bf).comp ▸ hne
    obtain ⟨s', hdrop, heases⟩ := dropBar_total (hstill.eases.laden h) hcomp
    rw [hresume, Option.bind_some]
    exact ⟨s', hdrop, hstill.eases.after heases⟩

end Ath9kHtc.Tx
