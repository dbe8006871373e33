import Ath9kHtc.Tx.Cleanup

/-!
# Frames that are sent again

The swap of a frame into the held buffer, and the way of a frame back to the queue of its TID.
-/

namespace Ath9kHtc.Tx

open Ledger

variable {G : TidId → Session → Action → Prop} {k : TidId} {q : QueueId} {s s' s₁ : TxState}
  {bf tmp c : BufId} {r p bs : List BufId} {l : Multiset BufId} {L L' : Ledger} {h : Hand}

/-- What `ath_buf_toggle` does where it moves the frame. -/
structure Toggled (s : TxState) (bf tmp : BufId) (s' : TxState) : Prop where
  held : s.scTxbufHeld = some tmp
  held' : s'.scTxbufHeld = some bf
  free : s'.scTxbuf = s.scTxbuf
  tid : s'.tid = s.tid
  txq : s'.txq = s.txq
  cfg : s'.cfg = s.cfg
  clean : Clean (s'.buf bf)
  same : SameFrame (s.buf bf) (s'.buf tmp)
  next : (s'.buf tmp).bfNext = (s.buf bf).bfNext
  aggr : (s'.buf tmp).bfIsaggr = (s.buf bf).bfIsaggr
  others : ∀ b, b ≠ bf → b ≠ tmp → s'.buf b = s.buf b

theorem athBufToggle_true (h : athBufToggle s bf true = some (tmp, s'))
    (hne : ∀ b ∈ s.scTxbufHeld, b ≠ bf) : Toggled s bf tmp s' := by
  unfold athBufToggle at h
  cases hheld : s.scTxbufHeld with
  | none =>
      rw [hheld] at h
      cases h
  | some b =>
      rw [hheld] at h
      simp only [if_true] at h
      obtain ⟨s₁, hmove, heq⟩ := Option.map_eq_some_iff.mp h
      obtain ⟨rfl, rfl⟩ := Prod.mk.inj heq
      have hb : b ≠ bf := hne b hheld
      unfold toggleMove at hmove
      dsimp only at hmove
      split at hmove
      · rename_i skb hskb
        obtain rfl := Option.some_inj.mp hmove
        have hbf : ((s.modBuf b fun x => { x with bfSkbhead := [] }).buf bf) = s.buf bf :=
          s.modBuf_buf_of_ne b _ hb.symm
        refine ⟨hheld, rfl, rfl, rfl, rfl, rfl, ?_, ?_, ?_, ?_, ?_⟩
        · constructor <;> simp [athFilltxdesc, TxState.modBuf, TxState.setBuf, TxState.modDs,
            Function.update_apply, hb.symm]
        · constructor <;>
            simp [athFilltxdesc, TxState.modBuf, TxState.setBuf, TxState.modDs, hb, hb.symm]
        · simp [athFilltxdesc, TxState.modBuf, TxState.setBuf, TxState.modDs, hb, hb.symm]
        · simp [athFilltxdesc, TxState.modBuf, TxState.setBuf, TxState.modDs, hb, hb.symm]
        · intro c hc hc'
          simp [athFilltxdesc, TxState.modBuf, TxState.setBuf, TxState.modDs,
            Function.update_apply, hc, hc']
      · cases hmove

namespace Ledger

theorem WF.held_apart (hwf : L.WF h) {b : BufId} (hb : b ∈ L.held) :
    b ∉ h.all ∧ b ∉ L.free ∧ b ∉ L.onHw ∧ ∀ k, b ∉ (L.tid k).bufQ := by
  have hmem : b ∈ (L.held.toList : Multiset BufId) :=
    Multiset.mem_coe.mpr (Option.mem_toList.mpr hb)
  have hplaces := hwf.nodup_places
  rw [places, Multiset.nodup_add, Multiset.nodup_add, Multiset.nodup_add] at hplaces
  obtain ⟨⟨⟨-, -, hfront⟩, -, hmid⟩, -, hback⟩ := hplaces
  refine ⟨fun hall => ?_, fun hfree => ?_, fun hhw => ?_, fun k hq => ?_⟩
  · exact hwf.not_mem_held hall hb
  · exact Multiset.disjoint_left.mp hfront (Multiset.mem_coe.mpr hfree) hmem
  · exact Multiset.disjoint_left.mp hback
      (Multiset.mem_add.mpr (.inl (Multiset.mem_add.mpr (.inr hmem)))) hhw
  · exact Multiset.disjoint_left.mp hmid (Multiset.mem_add.mpr (.inr hmem))
      (mem_queued.mpr ⟨k, hq⟩)

/-- Writing to a buffer of the hand, and to the held one. -/
theorem WF.keeps (hwf : L.WF h) {kept : Multiset BufId} (hbf : bf ∈ h.all)
    (htmp : tmp = bf ∨ tmp ∈ L.held) (hkept : bf ∉ kept ∧ tmp ∉ kept)
    (htxBufs : L'.txBufs = L.txBufs) (htid : L'.tid = L.tid) (hhwq : L'.hwq = L.hwq)
    (htidq : L'.tidq = L.tidq) (hothers : ∀ b, b ≠ bf → b ≠ tmp → L'.buf b = L.buf b) :
    L.Keeps L' kept := by
  have hhw : bf ∉ L.onHw ∧ tmp ∉ L.onHw := by
    have : bf ∉ L.onHw :=
      fun hmem => hwf.not_mem_places hbf (mem_places.mpr (.inr (.inr (.inr hmem))))
    rcases htmp with rfl | htmp
    · exact ⟨this, this⟩
    · exact ⟨this, (hwf.held_apart htmp).2.2.1⟩
  have hqueued : ∀ k, bf ∉ (L.tid k).bufQ ∧ tmp ∉ (L.tid k).bufQ := by
    intro k
    have : bf ∉ (L.tid k).bufQ := hwf.not_mem_bufQ hbf
    rcases htmp with rfl | htmp
    · exact ⟨this, this⟩
    · exact ⟨this, (hwf.held_apart htmp).2.2.2 k⟩
  refine ⟨htxBufs, htid, hhwq, htidq, fun b hb => ?_, fun k b hb => ?_, fun q e he b hb => ?_⟩
  · exact .of_eq (hothers b (ne_of_mem_of_not_mem hb hkept.1) (ne_of_mem_of_not_mem hb hkept.2))
  · exact .of_eq (hothers b (ne_of_mem_of_not_mem hb (hqueued k).1)
      (ne_of_mem_of_not_mem hb (hqueued k).2))
  · have hb' : b ∈ L.onHw := mem_onHw.mpr ⟨q, e, he, hb⟩
    exact hothers b (ne_of_mem_of_not_mem hb' hhw.1) (ne_of_mem_of_not_mem hb' hhw.2)

end Ledger

theorem Toggled.ledger (t : Toggled s bf tmp s') (hwf : s.ledger.WF h) (hbf : bf ∈ h.all)
    {kept : Multiset BufId} (hkept : bf ∉ kept) (hsub : ∀ b ∈ kept, b ∈ h.all) :
    s.ledger.Keeps s'.ledger kept ∧
      (∀ b ∈ s'.ledger.free, Clean (s'.ledger.buf b)) ∧
      (∀ b ∈ s'.ledger.held, Clean (s'.ledger.buf b)) ∧
      (∀ b ∈ kept, s'.buf b = s.buf b) := by
  have hheld : tmp ∈ s.ledger.held := t.held
  have hapart := hwf.held_apart hheld
  have htmp : tmp ∉ kept := fun hmem => hapart.1 (hsub tmp hmem)
  have hothers : ∀ b, b ≠ bf → b ≠ tmp → s'.ledger.buf b = s.ledger.buf b := t.others
  refine ⟨hwf.keeps hbf (.inr hheld) ⟨hkept, htmp⟩ (congrArg Config.txBufs t.cfg) ?_ ?_ ?_ hothers,
    fun b hb => ?_, fun b hb => ?_, fun b hb => ?_⟩
  · funext k
    exact congrArg Tid.unsched (congrFun t.tid k)
  · funext q
    exact congrArg Txq.axqQ (congrFun t.txq q)
  · funext q
    exact congrArg Txq.axqTidq (congrFun t.txq q)
  · have hb : b ∈ s.ledger.free := by
      have : b ∈ s'.scTxbuf := hb
      rwa [t.free] at this
    have hne := ne_of_mem_of_not_mem hb (hwf.not_mem_free hbf)
    have hne' := ne_of_mem_of_not_mem hb hapart.2.1
    rw [hothers b hne hne']
    exact hwf.clean_free b hb
  · have : some bf = some b := t.held'.symm.trans hb
    rw [← Option.some_inj.mp this]
    exact t.clean
  · exact t.others b (ne_of_mem_of_not_mem hb hkept) (ne_of_mem_of_not_mem hb htmp)

namespace Track

/-- The frame of a loose buffer moves to the held one. -/
theorem toggle (hwf : s.ledger.WF ⟨r, p, bf ::ₘ l⟩) (t : Toggled s bf tmp s') :
    Track G s.ledger ⟨r, p, bf ::ₘ l⟩ s'.ledger ⟨r, p, tmp ::ₘ l⟩ ∧
      ∀ b ∈ (r : Multiset BufId) + p + l, s'.buf b = s.buf b := by
  have hbf : bf ∈ Hand.all ⟨r, p, bf ::ₘ l⟩ := mem_all_of_loose (Multiset.mem_cons_self bf l)
  obtain ⟨hk, hfree, hheld, hbuf⟩ := t.ledger hwf hbf hwf.not_mem_others fun b hb => by
    simp only [Hand.all, Multiset.add_cons]
    exact Multiset.mem_cons_of_mem hb
  refine ⟨keep hwf hk (fun b hb => by simp [hb]) (fun b hb => by simp [hb]) rfl rfl ?_ hfree hheld,
    hbuf⟩
  have hfree' : s'.ledger.free = s.ledger.free := t.free
  have hheld' : s'.ledger.held = some bf := t.held'
  have hheld₀ : s.ledger.held = some tmp := t.held
  rw [hfree', hheld', hheld₀]
  simp only [Hand.all, Option.toList_some, Multiset.coe_singleton, ← Multiset.singleton_add]
  abel

end Track

theorem athTxSetRetry_some (h : athTxSetRetry s c = some s') :
    s'.ledger = s.ledger.setBuf c { s.buf c with
        bfIsretried := true, bfRetries := ((s.buf c).bfRetries + 1) % 256 } ∧
      s'.tid = s.tid ∧ s'.txq = s.txq := by
  obtain ⟨skb, -, rfl⟩ := Option.map_eq_some_iff.mp h
  exact ⟨rfl, rfl, rfl⟩

/-- What a frame that is sent again has become. -/
theorem retried_frame {b b' : TxBuf} (hsame : SameFrame b b') (n : ℕ) :
    frameOf { b' with bfIsretried := true, bfRetries := n } = (frameOf b).retry := by
  rw [frameOf, Frame.retry, frameOf, ← hsame.skb, ← hsame.seqno]

theorem retried_airFor {b b' : TxBuf} (hsame : SameFrame b b') (hair : AirFor k b) (n : ℕ) :
    AirFor k { b' with bfIsretried := true, bfRetries := n } := by
  have := hsame.airFor hair
  exact ⟨this.comp, this.key, this.txq⟩

/-- A frame goes back to its TID, from the held buffer it was moved to or from its own. -/
theorem Track.resend (hwf : s.ledger.WF ⟨bf :: r, p, l⟩) (hair : AirFor k (s.buf bf))
    (hc : (s.tid k).cleanupInprogres = false) (ha : (s.tid k).aggrEnabled = true)
    (hsafe : ∀ k v a, Action.Safe a → G k v a)
    (hmove : athBufToggle s bf true = some (c, s₁) ∨
      c = bf ∧ ∃ f : TxBuf → TxBuf, SameFrame (s.buf bf) (f (s.buf bf)) ∧ s₁ = s.modBuf bf f)
    (hset : athTxSetRetry s₁ c = some s') :
    Track G s.ledger ⟨bf :: r, p, l⟩ s'.ledger ⟨r, p ++ [c], l⟩ ∧ AirFor k (s'.buf c) ∧
      s'.tid = s.tid ∧ s'.txq = s.txq ∧
      ∀ b ∈ (r : Multiset BufId) + p + l, s'.buf b = s.buf b := by
  obtain ⟨hledger, htid, htxq⟩ := athTxSetRetry_some hset
  have hbf : bf ∈ Hand.all ⟨bf :: r, p, l⟩ := mem_all.mpr (.inl List.mem_cons_self)
  have hothers : bf ∉ (r : Multiset BufId) + p + l := by
    have hnodup := hwf.nodup_hand
    simp only [Hand.all, ← Multiset.cons_coe, Multiset.cons_add] at hnodup
    exact (Multiset.nodup_cons.mp hnodup).1
  have hsub : ∀ b ∈ (r : Multiset BufId) + p + l, b ∈ Hand.all ⟨bf :: r, p, l⟩ := by
    intro b hb
    simp only [Hand.all, ← Multiset.cons_coe, Multiset.cons_add]
    exact Multiset.mem_cons_of_mem hb
  have hsub' : ∀ b ∈ (r : Multiset BufId) + p, b ∈ (r : Multiset BufId) + p + l :=
    fun b hb => Multiset.mem_add.mpr (.inl hb)
  set x : TxBuf := { s₁.buf c with
    bfIsretried := true, bfRetries := ((s₁.buf c).bfRetries + 1) % 256 }
  have hbuf : ∀ b, s'.buf b = Function.update s₁.buf c x b :=
    fun b => congrFun (congrArg Ledger.buf hledger) b
  have hself : s'.buf c = x := (hbuf c).trans (Function.update_self ..)
  rcases hmove with htoggle | ⟨rfl, f, hf, rfl⟩
  · have hne : ∀ b ∈ s.scTxbufHeld, b ≠ bf := by
      rintro b hb rfl
      exact hwf.not_mem_held hbf hb
    have t := athBufToggle_true htoggle hne
    obtain ⟨hk, hfree, hheld, hkept⟩ := t.ledger hwf hbf hothers hsub
    have hapart := hwf.held_apart (b := c) t.held
    have hkept' : ∀ b ∈ (r : Multiset BufId) + p + l, s'.buf b = s.buf b := by
      intro b hb
      rw [hbuf, Function.update_of_ne (ne_of_mem_of_not_mem (hsub b hb) hapart.1)]
      exact hkept b hb
    have hcbf : c ≠ bf := hne c t.held
    refine ⟨retry hwf hair (k := k) (c := c) ?_ ?_ ?_ ?_ ?_ ?_ hc ha hsafe, ?_, htid.trans t.tid,
      htxq.trans t.txq, hkept'⟩
    · show AirFor k (s'.buf c)
      exact hself ▸ retried_airFor t.same hair _
    · show frameOf (s'.buf c) = _
      rw [hself]
      exact retried_frame t.same _
    · refine hwf.keeps hbf (.inr t.held) ⟨fun hmem => hothers (hsub' _ hmem),
        fun hmem => hapart.1 (hsub _ (hsub' _ hmem))⟩ ?_ ?_ ?_ ?_ fun b hb hb' => ?_
      · rw [hledger]
        exact congrArg Config.txBufs t.cfg
      · rw [hledger]
        exact hk.tid
      · rw [hledger]
        exact hk.hwq
      · rw [hledger]
        exact hk.tidq
      · exact (hbuf b).trans ((Function.update_of_ne hb' ..).trans (t.others b hb hb'))
    · rw [hledger]
      have hheld₀ : s.ledger.held = some c := t.held
      show _ + (s₁.scTxbuf : Multiset BufId) + (s₁.scTxbufHeld.toList : Multiset BufId) = _
      rw [t.free, t.held', hheld₀]
      show _ + (s.ledger.free : Multiset BufId) + _ = _ + (s.ledger.free : Multiset BufId) + _
      simp only [Hand.all, Option.toList_some, ← Multiset.coe_add, ← Multiset.cons_coe,
        ← Multiset.singleton_add, Multiset.coe_nil]
      abel
    · intro b hb
      rw [hledger] at hb ⊢
      have hb' : b ∈ s.ledger.free := by
        have : b ∈ s₁.scTxbuf := hb
        rwa [t.free] at this
      rw [setBuf_buf_of_ne (ne_of_mem_of_not_mem hb' hapart.2.1)]
      exact hfree b hb
    · intro b hb
      rw [hledger] at hb ⊢
      have hb' : b = bf := by
        have : some bf = some b := t.held'.symm.trans hb
        exact (Option.some_inj.mp this).symm
      rw [setBuf_buf_of_ne (hb' ▸ hcbf.symm)]
      exact hheld b hb
    · exact hself ▸ retried_airFor t.same hair _
  · have hx : SameFrame (s.buf c) ((s.modBuf c f).buf c) := by
      rw [TxState.modBuf_buf_self]
      exact hf
    have hledger' : s'.ledger = s.ledger.setBuf c x := by
      rw [hledger, TxState.ledger_modBuf, setBuf_setBuf]
    have hclean := setBuf_clean (x := x) (hwf.not_mem_free hbf) (hwf.not_mem_held hbf) hwf
    refine ⟨retry hwf hair (k := k) (c := c) ?_ ?_ ?_ ?_ ?_ ?_ hc ha hsafe, ?_, htid, htxq, ?_⟩
    · show AirFor k (s'.buf c)
      exact hself ▸ retried_airFor hx hair _
    · show frameOf (s'.buf c) = _
      rw [hself]
      exact retried_frame hx _
    · rw [hledger']
      exact hwf.keeps hbf (.inl rfl)
        ⟨fun hmem => hothers (hsub' _ hmem), fun hmem => hothers (hsub' _ hmem)⟩ rfl rfl rfl rfl
        fun b hb _ => setBuf_buf_of_ne hb
    · rw [hledger']
      show _ + (s.ledger.free : Multiset BufId) + (s.ledger.held.toList : Multiset BufId) = _
      simp only [Hand.all, ← Multiset.coe_add, ← Multiset.cons_coe, ← Multiset.singleton_add,
        Multiset.coe_nil]
      abel
    · rw [hledger']
      exact hclean.1
    · rw [hledger']
      exact hclean.2
    · exact hself ▸ retried_airFor hx hair _
    · intro b hb
      have hne := ne_of_mem_of_not_mem hb hothers
      rw [hbuf, Function.update_of_ne hne]
      exact s.modBuf_buf_of_ne c f hne

end Ath9kHtc.Tx
