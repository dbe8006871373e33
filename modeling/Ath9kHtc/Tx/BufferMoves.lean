import Ath9kHtc.Tx.Moves

/-!
# What the buffer functions do to the ledger
-/

namespace Ath9kHtc.Tx

namespace TxState

variable (s : TxState) (bf : BufId) (k : TidId) (q : QueueId)

@[simp] theorem ledger_modDs (f : TxDesc → TxDesc) : (s.modDs bf f).ledger = s.ledger := rfl

@[simp] theorem ledger_modNbuf (skb : SkbId) (f : Nbuf → Nbuf) :
    (s.modNbuf skb f).ledger = s.ledger := rfl

@[simp] theorem ledger_emit (o : Output) : (s.emit o).ledger = s.ledger := rfl

@[simp] theorem modBuf_buf_self (f : TxBuf → TxBuf) :
    (s.modBuf bf f).buf bf = f (s.buf bf) := Function.update_self ..

theorem modBuf_buf_of_ne {b : BufId} (f : TxBuf → TxBuf) (h : b ≠ bf) :
    (s.modBuf bf f).buf b = s.buf b := Function.update_of_ne h ..

@[simp] theorem modTid_tid_self (f : Tid → Tid) : (s.modTid k f).tid k = f (s.tid k) :=
  Function.update_self ..

theorem modTid_tid_of_ne {k' : TidId} (f : Tid → Tid) (h : k' ≠ k) :
    (s.modTid k f).tid k' = s.tid k' := Function.update_of_ne h ..

theorem ledger_modBuf (f : TxBuf → TxBuf) :
    (s.modBuf bf f).ledger = s.ledger.setBuf bf (f (s.buf bf)) := rfl

theorem ledger_modTid (f : Tid → Tid) :
    (s.modTid k f).ledger = s.ledger.setTid k (f (s.tid k)).unsched := by
  have htid : (fun k' => (Function.update s.tid k (f (s.tid k)) k').unsched) =
      Function.update (fun k' => (s.tid k').unsched) k (f (s.tid k)).unsched := by
    funext k'
    rcases eq_or_ne k' k with rfl | hne
    · rw [Function.update_self, Function.update_self]
    · rw [Function.update_of_ne hne, Function.update_of_ne hne]
  rw [ledger, modTid, htid]
  rfl

theorem ledger_modTxq (f : Txq → Txq) :
    (s.modTxq q f).ledger =
      (s.ledger.setHwq q (f (s.txq q)).axqQ).setTidq q (f (s.txq q)).axqTidq := by
  have haxqQ : (fun q' => (Function.update s.txq q (f (s.txq q)) q').axqQ) =
      Function.update (fun q' => (s.txq q').axqQ) q (f (s.txq q)).axqQ := by
    funext q'
    rcases eq_or_ne q' q with rfl | hne
    · rw [Function.update_self, Function.update_self]
    · rw [Function.update_of_ne hne, Function.update_of_ne hne]
  have haxqTidq : (fun q' => (Function.update s.txq q (f (s.txq q)) q').axqTidq) =
      Function.update (fun q' => (s.txq q').axqTidq) q (f (s.txq q)).axqTidq := by
    funext q'
    rcases eq_or_ne q' q with rfl | hne
    · rw [Function.update_self, Function.update_self]
    · rw [Function.update_of_ne hne, Function.update_of_ne hne]
  rw [ledger, modTxq, haxqQ, haxqTidq]
  rfl

/-- A change of a hardware queue beside its TIDs. -/
theorem ledger_modTxq_axqQ {f : Txq → Txq} (h : (f (s.txq q)).axqTidq = (s.txq q).axqTidq) :
    (s.modTxq q f).ledger = s.ledger.setHwq q (f (s.txq q)).axqQ := by
  rw [ledger_modTxq, h]
  exact (s.ledger.setHwq q _).setTidq_self q

/-- A change of a hardware queue beside its buffers. -/
theorem ledger_modTxq_axqTidq {f : Txq → Txq} (h : (f (s.txq q)).axqQ = (s.txq q).axqQ) :
    (s.modTxq q f).ledger = s.ledger.setTidq q (f (s.txq q)).axqTidq := by
  rw [ledger_modTxq, h]
  exact congrArg (fun L => Ledger.setTidq L q _) (s.ledger.setHwq_self q)

end TxState

/-- What a piece of a handler leaves alone: the TIDs, the queues of the hardware and some
buffers. -/
structure Spares (s s' : TxState) (kept : Multiset BufId) : Prop where
  tid : s'.tid = s.tid
  txq : s'.txq = s.txq
  cfg : s'.cfg = s.cfg
  buf : ∀ b ∈ kept, s'.buf b = s.buf b

namespace Spares

variable {s s' s'' : TxState} {kept : Multiset BufId} {bf : BufId}

theorem refl (s : TxState) (kept : Multiset BufId) : Spares s s kept :=
  ⟨rfl, rfl, rfl, fun _ _ => rfl⟩

theorem trans (h : Spares s s' kept) (h' : Spares s' s'' kept) : Spares s s'' kept :=
  ⟨h'.tid.trans h.tid, h'.txq.trans h.txq, h'.cfg.trans h.cfg,
    fun b hb => (h'.buf b hb).trans (h.buf b hb)⟩

theorem modBuf (f : TxBuf → TxBuf) (hbf : bf ∉ kept) : Spares s (s.modBuf bf f) kept :=
  ⟨rfl, rfl, rfl, fun _ hb => Function.update_of_ne (ne_of_mem_of_not_mem hb hbf) ..⟩

theorem athTgtSkbFree (hbf : bf ∉ kept) : Spares s (athTgtSkbFree s bf) kept :=
  ⟨rfl, rfl, rfl, fun _ hb => Function.update_of_ne (ne_of_mem_of_not_mem hb hbf) ..⟩

end Spares

/-! ## Transmit status -/

section Status

variable (s : TxState) (bf : BufId)

@[simp] theorem ledger_putTxStatus (i : Fin 2) (f : TxStatusEntry → TxStatusEntry) :
    (putTxStatus s i f).ledger = s.ledger := rfl

@[simp] theorem ledger_athTxStatusUpdate : (athTxStatusUpdate s bf).ledger = s.ledger := by
  unfold athTxStatusUpdate
  dsimp only
  split
  · rfl
  · split <;> rfl

@[simp] theorem ledger_athTxStatusUpdateAggr (stat : TxStat)
    (rcs : Option (Fin 4 → RcSeries)) (txok : Bool) :
    (athTxStatusUpdateAggr s bf stat rcs txok).ledger = s.ledger := by
  unfold athTxStatusUpdateAggr
  dsimp only
  split
  · rfl
  · split <;> rfl

theorem spares_athTxStatusUpdate (kept : Multiset BufId) :
    Spares s (athTxStatusUpdate s bf) kept := by
  unfold athTxStatusUpdate
  dsimp only
  split
  · exact .refl _ _
  · split
    · exact .refl _ _
    · exact ⟨rfl, rfl, rfl, fun _ _ => rfl⟩

theorem spares_athTxStatusUpdateAggr (stat : TxStat) (rcs : Option (Fin 4 → RcSeries))
    (txok : Bool) (kept : Multiset BufId) :
    Spares s (athTxStatusUpdateAggr s bf stat rcs txok) kept := by
  unfold athTxStatusUpdateAggr
  dsimp only
  split
  · exact .refl _ _
  · split
    · exact .refl _ _
    · exact ⟨rfl, rfl, rfl, fun _ _ => rfl⟩

@[simp] theorem ledger_athTxStatusClear : (athTxStatusClear s).ledger = s.ledger := rfl

@[simp] theorem ledger_sendTxStatus (i : Fin 2) : (sendTxStatus s i).ledger = s.ledger := by
  unfold sendTxStatus
  dsimp only
  split <;> rfl

@[simp] theorem ledger_athTxStatusSend : (athTxStatusSend s).ledger = s.ledger := by
  unfold athTxStatusSend
  split
  · rfl
  · rw [ledger_sendTxStatus, ledger_sendTxStatus]

end Status

/-! ## Releasing and taking buffers -/

namespace Track

variable {G : TidId → Session → Action → Prop} {s s' : TxState} {h : Hand} {l : Multiset BufId}
  {r p : List BufId} {bf tmp : BufId}

theorem modBuf (hwf : s.ledger.WF h) (hb : bf ∈ h.loose) (f : TxBuf → TxBuf) :
    Track G s.ledger h (s.modBuf bf f).ledger h :=
  write hwf hb _

/-- What is written beside the frame of a buffer that a handler holds. -/
theorem modFrame (hwf : s.ledger.WF h) (hb : bf ∈ h.all) (f : TxBuf → TxBuf)
    (hf : SameFrame (s.buf bf) (f (s.buf bf))) :
    Track G s.ledger h (s.modBuf bf f).ledger h :=
  rewrite (k := (0, 0)) hwf (.inl hb) hf

theorem athTgtSkbFree (hwf : s.ledger.WF h) (hb : bf ∈ h.loose) :
    Track G s.ledger h (athTgtSkbFree s bf).ledger h :=
  write hwf hb _

end Track

theorem athBufToggle_false {s s' : TxState} {bf tmp : BufId}
    (h : athBufToggle s bf false = some (tmp, s')) :
    s.scTxbufHeld = some tmp ∧ s' = { s with scTxbufHeld := some bf } := by
  unfold athBufToggle at h
  cases hheld : s.scTxbufHeld with
  | none =>
      rw [hheld] at h
      cases h
  | some b =>
      rw [hheld] at h
      obtain ⟨rfl, rfl⟩ := Prod.mk.inj (Option.some_inj.mp h)
      exact ⟨rfl, rfl⟩

/-- The buffer of a handler goes to the held slot, and the one there becomes free. -/
theorem Track.swap {G : TidId → Session → Action → Prop} {s s' : TxState} {l : Multiset BufId}
    {r p : List BufId} {bf tmp : BufId} {f : TxBuf → TxBuf}
    (hwf : s.ledger.WF ⟨r, p, bf ::ₘ l⟩) (hclean : Clean (s.buf bf))
    (hf : ∀ b, Clean b → Clean (f b)) (h : athBufToggle s bf false = some (tmp, s')) :
    Track G s.ledger ⟨r, p, bf ::ₘ l⟩ (scTxbufInsertTail (s'.modBuf tmp f) tmp).ledger
        ⟨r, p, l⟩ ∧
      Spares s (scTxbufInsertTail (s'.modBuf tmp f) tmp) (r + p + l) := by
  obtain ⟨hheld, rfl⟩ := athBufToggle_false h
  have hhold := Track.hold (G := G) hwf hheld hclean
  have hwrite := Track.write (G := G) (x := f (s.buf tmp)) hhold.wf
    (Multiset.mem_cons_self tmp l)
  have htmp : Clean (f (s.buf tmp)) := hf _ (hwf.clean_held tmp hheld)
  have hfree := Track.free (G := G) hwrite.wf
    (Ledger.setBuf_buf_self ▸ htmp)
  refine ⟨hhold.trans (hwrite.trans hfree), ⟨rfl, rfl, rfl, fun b hb => ?_⟩⟩
  exact Function.update_of_ne (ne_of_mem_of_not_mem hb hhold.wf.not_mem_others) ..

namespace Track

variable {G : TidId → Session → Action → Prop} {s s' : TxState} {h : Hand} {l : Multiset BufId}
  {r p : List BufId} {bf tmp : BufId}

theorem athTxFreebuf (hwf : s.ledger.WF ⟨r, p, bf ::ₘ l⟩) (h : athTxFreebuf s bf = some s') :
    Track G s.ledger ⟨r, p, bf ::ₘ l⟩ s'.ledger ⟨r, p, l⟩ ∧ Spares s s' (r + p + l) := by
  have hothers := hwf.not_mem_others
  obtain ⟨⟨tmp, s₁⟩, htoggle, rfl⟩ := Option.map_eq_some_iff.mp h
  have hfree := athTgtSkbFree (G := G) hwf (Multiset.mem_cons_self bf l)
  have hclear := modBuf (G := G)
    (f := fun b => { b with bfSkb := none, bfComp := none, bfNode := none, bfNext := none })
    hfree.wf (Multiset.mem_cons_self bf l)
  obtain ⟨hswap, hspares⟩ := swap (G := G)
    (f := fun b => { b with bfRetries := 0, bfIsretried := false }) hclear.wf
    ⟨by simp [TxState.modBuf, TxState.setBuf], by simp [TxState.modBuf, TxState.setBuf],
      by simp [TxState.modBuf, TxState.setBuf], by simp [TxState.modBuf, TxState.setBuf],
      by simp [TxState.modBuf, TxState.setBuf, Tx.athTgtSkbFree]⟩
    (fun b hb => ⟨hb.comp, hb.next, hb.node, hb.skb, hb.skbhead⟩) htoggle
  refine ⟨hfree.trans (hclear.trans hswap), .trans ?_ hspares⟩
  exact .trans (.athTgtSkbFree hothers) (.modBuf _ hothers)

theorem athBufComp (hwf : s.ledger.WF ⟨r, p, bf ::ₘ l⟩) (hcomp : (s.buf bf).bfComp = none)
    (hnext : (s.buf bf).bfNext = none) (h : athBufComp s bf = some s') :
    Track G s.ledger ⟨r, p, bf ::ₘ l⟩ s'.ledger ⟨r, p, l⟩ := by
  obtain ⟨⟨tmp, s₁⟩, htoggle, rfl⟩ := Option.map_eq_some_iff.mp h
  have hfree := athTgtSkbFree (G := G) hwf (Multiset.mem_cons_self bf l)
  have hclear := modBuf (G := G)
    (f := fun b => { b with bfSkb := none, bfNode := none })
    hfree.wf (Multiset.mem_cons_self bf l)
  obtain ⟨hheld, rfl⟩ := athBufToggle_false htoggle
  have hhold := Track.hold (G := G) hclear.wf hheld
    ⟨by simpa [TxState.modBuf, TxState.setBuf, TxState.ledger, Tx.athTgtSkbFree] using hcomp,
      by simpa [TxState.modBuf, TxState.setBuf, TxState.ledger, Tx.athTgtSkbFree] using hnext,
      by simp [TxState.modBuf, TxState.setBuf, TxState.ledger],
      by simp [TxState.modBuf, TxState.setBuf, TxState.ledger],
      by simp [TxState.modBuf, TxState.setBuf, TxState.ledger, Tx.athTgtSkbFree]⟩
  exact hfree.trans (hclear.trans (hhold.trans (free hhold.wf
    (hclear.wf.clean_held tmp hheld))))

end Track

end Ath9kHtc.Tx
