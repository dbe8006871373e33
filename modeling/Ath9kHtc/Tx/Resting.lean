import Ath9kHtc.Tx.Refinement

/-!
# Frames that rest at the hardware

What waits in a hardware queue stays there, and stays as it is, until it is completed itself.
-/

namespace Ath9kHtc.Tx

open Ledger

variable {s s' : TxState} {q₀ q : QueueId} {b bf tmp : BufId} {k : TidId} {T : Set BufId}
  {x : TxBuf} {sc sc' : Softc} {e : Event} {l : Multiset BufId}

/-! ## A frame that rests at the hardware -/

/-- A buffer with the contents `x` waits at the hardware, and is nowhere else. -/
structure Rests (q₀ : QueueId) (b : BufId) (x : TxBuf) (s : TxState) : Prop where
  onQ : b ∈ (s.txq q₀).axqQ
  same : s.buf b = x
  free : b ∉ s.scTxbuf
  held : b ∉ s.scTxbufHeld
  queued : ∀ k, b ∉ (s.tid k).bufQ

/-- Buffers other than `b` that `bf_next` does not lead out of. -/
structure Shut (b : BufId) (T : Set BufId) (s : TxState) : Prop where
  apart : b ∉ T
  next : ∀ c ∈ T, ∀ d ∈ (s.buf c).bfNext, d ∈ T

theorem Shut.ne (h : Shut b T s) (hbf : bf ∈ T) : bf ≠ b := fun heq => h.apart (heq ▸ hbf)

theorem Shut.of_buf (h : Shut b T s) (hbuf : s'.buf = s.buf) : Shut b T s' :=
  ⟨h.apart, fun c hc d hd => h.next c hc d (hbuf ▸ hd)⟩

theorem Shut.modBuf (h : Shut b T s) (bf : BufId) (f : TxBuf → TxBuf)
    (hf : bf ∈ T → ∀ d ∈ (f (s.buf bf)).bfNext, d ∈ T) : Shut b T (s.modBuf bf f) := by
  refine ⟨h.apart, fun c hc d hd => ?_⟩
  rcases eq_or_ne c bf with rfl | hne
  · rw [TxState.modBuf_buf_self] at hd
    exact hf hc d hd
  · rw [TxState.modBuf_buf_of_ne _ _ f hne] at hd
    exact h.next c hc d hd

/-- What `ath_buf_toggle` does in both modes. -/
structure Swapped (s : TxState) (bf tmp : BufId) (s' : TxState) : Prop where
  was : s.scTxbufHeld = some tmp
  held : s'.scTxbufHeld = some bf
  free : s'.scTxbuf = s.scTxbuf
  tid : s'.tid = s.tid
  txq : s'.txq = s.txq
  others : ∀ c, c ≠ bf → c ≠ tmp → s'.buf c = s.buf c

theorem athBufToggle_swapped {retry : Bool} (h : athBufToggle s bf retry = some (tmp, s')) :
    Swapped s bf tmp s' := by
  rw [athBufToggle] at h
  split at h
  · cases h
  · rename_i tmp' hheld
    split at h
    · obtain ⟨s₁, hmove, hpair⟩ := Option.map_eq_some_iff.mp h
      obtain ⟨rfl, rfl⟩ := Prod.mk.inj hpair
      rw [toggleMove] at hmove
      dsimp only at hmove
      split at hmove
      · obtain rfl := Option.some_inj.mp hmove
        refine ⟨hheld, rfl, rfl, rfl, rfl, fun c hbf htmp => ?_⟩
        exact (Function.update_of_ne htmp ..).trans ((Function.update_of_ne hbf ..).trans
          ((Function.update_of_ne htmp ..).trans (Function.update_of_ne htmp ..)))
      · cases hmove
    · obtain ⟨rfl, rfl⟩ := Prod.mk.inj (Option.some_inj.mp h)
      exact ⟨hheld, rfl, rfl, rfl, rfl, fun _ _ _ => rfl⟩

theorem Shut.athFilltxdesc (h : Shut b T s) : Shut b T (athFilltxdesc s bf) :=
  Shut.modBuf (s := s.modDs bf fun ds => { ds with dsLink := none }) (h.of_buf rfl) bf _ (h.next bf)

theorem Shut.toggle {retry : Bool} (h : Shut b T s) (hbf : bf ∈ T)
    (htoggle : athBufToggle s bf retry = some (tmp, s')) : Shut b T s' := by
  rw [athBufToggle] at htoggle
  split at htoggle
  · cases htoggle
  · rename_i tmp' hheld
    split at htoggle
    · obtain ⟨s₁, hmove, hpair⟩ := Option.map_eq_some_iff.mp htoggle
      obtain ⟨rfl, rfl⟩ := Prod.mk.inj hpair
      refine Shut.of_buf (s := s₁) ?_ rfl
      rw [toggleMove] at hmove
      dsimp only at hmove
      split at hmove
      · obtain rfl := Option.some_inj.mp hmove
        have hemptied : Shut b T (s.modBuf tmp' fun b => { b with bfSkbhead := [] }) :=
          h.modBuf tmp' _ (h.next tmp')
        refine Shut.athFilltxdesc (Shut.modBuf (Shut.modBuf hemptied _ _ ?_) _ _ ?_)
        · exact fun _ => hemptied.next bf hbf
        · exact fun _ d hd => by cases hd
      · cases hmove
    · obtain ⟨rfl, rfl⟩ := Prod.mk.inj (Option.some_inj.mp htoggle)
      exact h.of_buf rfl

theorem Shut.athTxFreebuf (h : Shut b T s) (hbf : bf ∈ T) (hfree : athTxFreebuf s bf = some s') :
    Shut b T s' := by
  obtain ⟨⟨tmp, s₁⟩, htoggle, rfl⟩ := Option.map_eq_some_iff.mp hfree
  have hfreed : Shut b T (athTgtSkbFree s bf) :=
    (h.modBuf bf (fun b => { b with bfSkbhead := [] }) (h.next bf)).of_buf rfl
  have hcleared := hfreed.modBuf bf
    (fun b => { b with bfSkb := none, bfComp := none, bfNode := none, bfNext := none })
    fun _ d hd => by cases hd
  have hs₁ := hcleared.toggle hbf htoggle
  exact (hs₁.modBuf tmp (fun b => { b with bfRetries := 0, bfIsretried := false })
    (hs₁.next tmp)).of_buf rfl

theorem Shut.athTxSetRetry (h : Shut b T s) (hset : athTxSetRetry s bf = some s') :
    Shut b T s' := by
  obtain ⟨skb, -, rfl⟩ := Option.map_eq_some_iff.mp hset
  have hmarked := h.modBuf bf
    (fun b => { b with bfIsretried := true, bfRetries := (b.bfRetries + 1) % 256 }) (h.next bf)
  exact hmarked.of_buf rfl

theorem Shut.athTxStatusUpdateAggr (h : Shut b T s) (stat : TxStat)
    (rcs : Option (Fin 4 → RcSeries)) (txok : Bool) :
    Shut b T (athTxStatusUpdateAggr s bf stat rcs txok) := by
  rw [Tx.athTxStatusUpdateAggr]
  split
  · exact h
  · split
    · exact h
    · exact h.of_buf rfl

namespace Rests

theorem of_same (h : Rests q₀ b x s) (htxq : s'.txq = s.txq) (hbuf : s'.buf = s.buf)
    (hfree : s'.scTxbuf = s.scTxbuf) (hheld : s'.scTxbufHeld = s.scTxbufHeld)
    (htid : s'.tid = s.tid) : Rests q₀ b x s' where
  onQ := by rw [htxq]; exact h.onQ
  same := by rw [hbuf]; exact h.same
  free := by rw [hfree]; exact h.free
  held := by rw [hheld]; exact h.held
  queued := by rw [htid]; exact h.queued

theorem modBuf (h : Rests q₀ b x s) (hbf : bf ≠ b) (f : TxBuf → TxBuf) :
    Rests q₀ b x (s.modBuf bf f) :=
  ⟨h.onQ, by rw [TxState.modBuf_buf_of_ne _ _ f hbf.symm]; exact h.same, h.free, h.held, h.queued⟩

theorem modDs (h : Rests q₀ b x s) (bf : BufId) (f : TxDesc → TxDesc) : Rests q₀ b x (s.modDs bf f) :=
  ⟨h.onQ, h.same, h.free, h.held, h.queued⟩

theorem modNbuf (h : Rests q₀ b x s) (skb : SkbId) (f : Nbuf → Nbuf) :
    Rests q₀ b x (s.modNbuf skb f) := ⟨h.onQ, h.same, h.free, h.held, h.queued⟩

theorem emit (h : Rests q₀ b x s) (o : Output) : Rests q₀ b x (s.emit o) :=
  ⟨h.onQ, h.same, h.free, h.held, h.queued⟩

theorem modTid (h : Rests q₀ b x s) (f : Tid → Tid) (hf : b ∉ (f (s.tid k)).bufQ) :
    Rests q₀ b x (s.modTid k f) := by
  refine ⟨h.onQ, h.same, h.free, h.held, fun k' => ?_⟩
  rcases eq_or_ne k' k with rfl | hne
  · rw [TxState.modTid_tid_self]
    exact hf
  · rw [TxState.modTid_tid_of_ne _ _ f hne]
    exact h.queued k'

theorem modWindow (h : Rests q₀ b x s) (f : Tid → Tid)
    (hf : (f (s.tid k)).rest = (s.tid k).rest) : Rests q₀ b x (s.modTid k f) := by
  have hbufQ := congrArg Tid.bufQ hf
  refine h.modTid f ?_
  rw [show (f (s.tid k)).bufQ = (s.tid k).bufQ from hbufQ]
  exact h.queued k

theorem modTxq (h : Rests q₀ b x s) (f : Txq → Txq)
    (hf : b ∈ (s.txq q).axqQ → b ∈ (f (s.txq q)).axqQ) : Rests q₀ b x (s.modTxq q f) := by
  refine ⟨?_, h.same, h.free, h.held, h.queued⟩
  show b ∈ (Function.update s.txq q _ q₀).axqQ
  rcases eq_or_ne q₀ q with rfl | hne
  · rw [Function.update_self]
    exact hf h.onQ
  · rw [Function.update_of_ne hne]
    exact h.onQ

/-! ### Buffers -/

theorem athFilltxdesc (h : Rests q₀ b x s) (hbf : bf ≠ b) : Rests q₀ b x (athFilltxdesc s bf) :=
  (h.modDs bf _).modBuf hbf _

theorem swap (h : Rests q₀ b x s) (hbf : bf ≠ b) (hs : Swapped s bf tmp s') :
    tmp ≠ b ∧ Rests q₀ b x s' := by
  have htmp : tmp ≠ b := by
    rintro rfl
    exact h.held hs.was
  refine ⟨htmp, ⟨?_, ?_, ?_, ?_, ?_⟩⟩
  · rw [hs.txq]
    exact h.onQ
  · rw [hs.others b hbf.symm htmp.symm]
    exact h.same
  · rw [hs.free]
    exact h.free
  · rw [hs.held]
    exact fun hmem => hbf (Option.some_inj.mp hmem)
  · rw [hs.tid]
    exact h.queued

theorem athTgtSkbFree (h : Rests q₀ b x s) (hbf : bf ≠ b) : Rests q₀ b x (athTgtSkbFree s bf) := by
  rw [Tx.athTgtSkbFree]
  refine Rests.modBuf ?_ hbf _
  exact ⟨h.onQ, h.same, h.free, h.held, h.queued⟩

theorem insertTail (h : Rests q₀ b x s) (hbf : bf ≠ b) : Rests q₀ b x (scTxbufInsertTail s bf) := by
  refine ⟨h.onQ, h.same, fun hmem => ?_, h.held, h.queued⟩
  rcases List.mem_append.mp hmem with hmem | hmem
  · exact h.free hmem
  · exact hbf (List.mem_singleton.mp hmem).symm

theorem athBufComp (h : Rests q₀ b x s) (hbf : bf ≠ b) (hfree : athBufComp s bf = some s') :
    Rests q₀ b x s' := by
  obtain ⟨⟨tmp, s₁⟩, htoggle, rfl⟩ := Option.map_eq_some_iff.mp hfree
  obtain ⟨htmp, hs₁⟩ := ((h.athTgtSkbFree hbf).modBuf hbf _).swap hbf (athBufToggle_swapped htoggle)
  exact hs₁.insertTail htmp

theorem athTxFreebuf (h : Rests q₀ b x s) (hbf : bf ≠ b) (hfree : athTxFreebuf s bf = some s') :
    Rests q₀ b x s' := by
  obtain ⟨⟨tmp, s₁⟩, htoggle, rfl⟩ := Option.map_eq_some_iff.mp hfree
  obtain ⟨htmp, hs₁⟩ := ((h.athTgtSkbFree hbf).modBuf hbf _).swap hbf (athBufToggle_swapped htoggle)
  exact (hs₁.modBuf htmp _).insertTail htmp

theorem athTxSetRetry (h : Rests q₀ b x s) (hbf : bf ≠ b) (hset : athTxSetRetry s bf = some s') :
    Rests q₀ b x s' := by
  obtain ⟨skb, -, rfl⟩ := Option.map_eq_some_iff.mp hset
  exact (h.modBuf hbf _).modNbuf skb _

/-- The buffer a retry goes on with, which may have been toggled. -/
theorem toggled {p : Prop} [Decidable p] {s₀ : TxState} (h : Rests q₀ b x s) (hbf : bf ≠ b)
    (h₀ : Rests q₀ b x s₀)
    (hmove : (if p then athBufToggle s bf true else some (bf, s₀)) = some (tmp, s')) :
    tmp ≠ b ∧ Rests q₀ b x s' := by
  split at hmove
  · exact h.swap hbf (athBufToggle_swapped hmove)
  · obtain ⟨rfl, rfl⟩ := Prod.mk.inj (Option.some_inj.mp hmove)
    exact ⟨hbf, h₀⟩

/-! ### Transmit status -/

theorem athTxStatusUpdate (h : Rests q₀ b x s) : Rests q₀ b x (athTxStatusUpdate s bf) := by
  rw [Tx.athTxStatusUpdate]
  split
  · exact h
  · split
    · exact h
    · exact ⟨h.onQ, h.same, h.free, h.held, h.queued⟩

theorem athTxStatusUpdateAggr (h : Rests q₀ b x s) (stat : TxStat)
    (rcs : Option (Fin 4 → RcSeries)) (txok : Bool) :
    Rests q₀ b x (athTxStatusUpdateAggr s bf stat rcs txok) := by
  rw [Tx.athTxStatusUpdateAggr]
  split
  · exact h
  · split
    · exact h
    · exact ⟨h.onQ, h.same, h.free, h.held, h.queued⟩

theorem sendTxStatus (h : Rests q₀ b x s) (i : Fin 2) : Rests q₀ b x (sendTxStatus s i) := by
  rw [Tx.sendTxStatus]
  dsimp only
  split
  · exact h
  · exact ⟨h.onQ, h.same, h.free, h.held, h.queued⟩

theorem athTxStatusSend (h : Rests q₀ b x s) : Rests q₀ b x (athTxStatusSend s) := by
  rw [Tx.athTxStatusSend]
  split
  · exact h
  · exact (h.sendTxStatus 0).sendTxStatus 1

/-! ### Hardware queues -/

theorem axqLinkTo (h : Rests q₀ b x s) (link : Option BufId) : Rests q₀ b x (axqLinkTo s link bf) := by
  unfold Tx.axqLinkTo
  split
  · exact h
  · exact h.modDs _ _

theorem logHanded (h : Rests q₀ b x s) : Rests q₀ b x (logHanded s bf) := by
  rw [Tx.logHanded]
  split
  · exact h
  · exact h.modTid _ (h.queued _)

theorem athTgtTxqAddUcast (h : Rests q₀ b x s) : Rests q₀ b x (athTgtTxqAddUcast s bf) := by
  rw [Tx.athTgtTxqAddUcast]
  exact Rests.modTxq (h.axqLinkTo _) _ fun hmem => List.mem_append_left _ hmem

theorem athTgtTxqaddbuf (h : Rests q₀ b x s) (lastds : BufId) :
    Rests q₀ b x (athTgtTxqaddbuf s q bf lastds) := by
  rw [Tx.athTgtTxqaddbuf]
  exact Rests.modTxq (h.axqLinkTo _) _ fun hmem => List.mem_append_left _ hmem

theorem normalSeries (h : Rests q₀ b x s) (hbf : bf ≠ b) : Rests q₀ b x (normalSeries s bf) := by
  rw [Tx.normalSeries]
  split
  · exact h.modBuf hbf _
  · refine Rests.modBuf ?_ hbf _
    exact ⟨h.onQ, h.same, h.free, h.held, h.queued⟩

theorem athTgtTxSendNormal (h : Rests q₀ b x s) (hbf : bf ≠ b) :
    Rests q₀ b x (athTgtTxSendNormal s bf) := (h.logHanded.normalSeries hbf).athTgtTxqAddUcast

theorem athTgtTxEnqueue (h : Rests q₀ b x s) : Rests q₀ b x (athTgtTxEnqueue s q k) := by
  rw [Tx.athTgtTxEnqueue]
  split
  · exact h
  · split
    · exact h
    · exact (h.modTid _ (h.queued k)).modTxq _ id

theorem requeueTid (h : Rests q₀ b x s) : Rests q₀ b x (requeueTid s q k) := by
  rw [Tx.requeueTid]
  split
  · exact h
  · exact h.athTgtTxEnqueue

/-- A frame that waits is another one. -/
theorem ne_of_queued (h : Rests q₀ b x s) (hq : bf ∈ (s.tid k).bufQ) : bf ≠ b := by
  rintro rfl
  exact h.queued k hq

theorem bufQRemoveHead (h : Rests q₀ b x s) : Rests q₀ b x (bufQRemoveHead s k) :=
  h.modTid _ fun hmem => h.queued k (List.mem_of_mem_tail hmem)

theorem schedNormalLoop (h : Rests q₀ b x s) (n : ℕ) : Rests q₀ b x (schedNormalLoop k n s) := by
  induction n generalizing s with
  | zero => exact h
  | succ n ih =>
      rw [Tx.schedNormalLoop]
      split
      · exact h
      · rename_i bf rest hq
        have hbf : bf ≠ b := h.ne_of_queued (hq ▸ List.mem_cons_self)
        have hsent := h.bufQRemoveHead (k := k).athTgtTxSendNormal hbf
        dsimp only
        split
        · exact ih hsent
        · exact hsent

/-! ### Aggregates -/

theorem aggrRate (h : Rests q₀ b x s) (hbf : bf ≠ b) (acc : AggrAcc) :
    Rests q₀ b x (aggrRate s k bf acc).2 := by
  rw [Tx.aggrRate]
  split
  · exact h
  · rw [athLookupRate]
    dsimp only
    refine Rests.modBuf ?_ hbf _
    exact ⟨h.onQ, h.same, h.free, h.held, h.queued⟩

theorem linkSubframe (h : Rests q₀ b x s) {prev : Option BufId} (hprev : ∀ c ∈ prev, c ≠ b) :
    Rests q₀ b x (linkSubframe s prev bf) := by
  unfold Tx.linkSubframe
  split
  · exact h
  · exact (h.modBuf (hprev _ rfl) _).modDs _ _

theorem aggrTake {acc : AggrAcc} (h : Rests q₀ b x s) (hbf : bf ≠ b) (hacc : ∀ c ∈ acc.bfQ, c ≠ b)
    (htake : aggrTake s k bf acc = some s') : Rests q₀ b x s' := by
  rw [Tx.aggrTake] at htake
  dsimp only at htake
  split at htake
  · obtain rfl := Option.some_inj.mp htake
    have hmarked : Rests q₀ b x (s.modTid k fun tid => athTxAddtoBaw tid (s.buf bf)) :=
      h.modWindow _ (rest_athTxAddtoBaw ..)
    refine Rests.linkSubframe ((hmarked.bufQRemoveHead.logHanded).modBuf hbf _) ?_
    exact fun c hc => hacc c (List.mem_of_getLast? hc)
  · cases htake

theorem formAggrLoop {l : List BufId} {acc : AggrAcc} {out : AggrStatus × AggrAcc × TxState}
    (h : Rests q₀ b x s) (hl : ∀ c ∈ l, c ≠ b) (hacc : ∀ c ∈ acc.bfQ, c ≠ b)
    (hloop : formAggrLoop k l acc s = some out) :
    Rests q₀ b x out.2.2 ∧ ∀ c ∈ out.2.1.bfQ, c ≠ b := by
  induction l generalizing acc s with
  | nil =>
      obtain rfl := Option.some_inj.mp hloop
      exact ⟨h, hacc⟩
  | cons bf rest ih =>
      have hbf : bf ≠ b := hl bf List.mem_cons_self
      have hrated := h.aggrRate (k := k) hbf acc
      have hsame : (Tx.aggrRate s k bf acc).1.bfQ = acc.bfQ := by
        rw [Tx.aggrRate]
        split <;> rfl
      rw [Tx.formAggrLoop] at hloop
      split at hloop
      · dsimp only at hloop
        split at hloop
        · obtain rfl := Option.some_inj.mp hloop
          exact ⟨hrated, hsame ▸ hacc⟩
        · obtain ⟨s₁, htake, hloop⟩ := Option.bind_eq_some_iff.mp hloop
          refine ih (hrated.aggrTake hbf (hsame ▸ hacc) htake)
            (fun c hc => hl c (List.mem_cons_of_mem _ hc)) (fun c hc => ?_) hloop
          rcases List.mem_append.mp hc with hc | hc
          · exact hacc c (hsame ▸ hc)
          · rw [List.mem_singleton.mp hc]
            exact hbf
      · obtain rfl := Option.some_inj.mp hloop
        exact ⟨h, hacc⟩

theorem athTgtTxFormAggr {out : AggrStatus × List BufId × TxState} (h : Rests q₀ b x s)
    (hform : athTgtTxFormAggr s k = some out) :
    Rests q₀ b x out.2.2 ∧ ∀ c ∈ out.2.1, c ≠ b := by
  rw [Tx.athTgtTxFormAggr] at hform
  split at hform
  · cases hform
  · rename_i first rest hq
    obtain ⟨⟨status, acc, s₁⟩, hloop, rfl⟩ := Option.map_eq_some_iff.mp hform
    have hl : ∀ c ∈ first :: rest, c ≠ b := fun c hc => h.ne_of_queued (hq ▸ hc)
    obtain ⟨hs₁, hacc⟩ := h.formAggrLoop hl (fun c hc => by cases hc) hloop
    dsimp only
    exact ⟨hs₁.modBuf (hl first List.mem_cons_self) _, hacc⟩

theorem schedSingle (h : Rests q₀ b x s) (hbf : bf ≠ b) : Rests q₀ b x (schedSingle s bf) :=
  ((h.modBuf hbf _).modDs bf _).athTgtTxqAddUcast

theorem schedAggregate {bfLast : BufId} (h : Rests q₀ b x s) (hbf : bf ≠ b) (hlast : bfLast ≠ b) :
    Rests q₀ b x (schedAggregate s bf bfLast) := by
  rw [Tx.schedAggregate]
  exact Rests.athTgtTxqAddUcast (Rests.modBuf (Rests.modDs (h.modBuf hlast _) _ _) hbf _)

theorem schedAggrLoop {n : ℕ} (h : Rests q₀ b x s) (hloop : schedAggrLoop k n s = some s') :
    Rests q₀ b x s' := by
  induction n generalizing s with
  | zero =>
      obtain rfl := Option.some_inj.mp hloop
      exact h
  | succ n ih =>
      rw [Tx.schedAggrLoop] at hloop
      split at hloop
      · obtain rfl := Option.some_inj.mp hloop
        exact h
      · obtain ⟨⟨status, bfQ, s₁⟩, hform, hloop⟩ := Option.bind_eq_some_iff.mp hloop
        obtain ⟨hformed, hq⟩ := h.athTgtTxFormAggr hform
        dsimp only at hloop
        split at hloop
        · obtain rfl := Option.some_inj.mp hloop
          exact hformed
        · rename_i bf more
          have hsent : Rests q₀ b x (if (s₁.buf bf).bfNframes = 1 then Tx.schedSingle s₁ bf
              else Tx.schedAggregate s₁ bf ((bf :: more).getLastD bf)) := by
            have hbf : bf ≠ b := hq bf List.mem_cons_self
            split
            · exact hformed.schedSingle hbf
            · refine hformed.schedAggregate hbf (hq _ ?_)
              rw [List.getLastD_cons]
              exact List.getLastD_mem_cons
          generalize (if (s₁.buf bf).bfNframes = 1 then Tx.schedSingle s₁ bf
            else Tx.schedAggregate s₁ bf ((bf :: more).getLastD bf)) = s₂ at hloop hsent
          split at hloop
          · exact ih hsent hloop
          · obtain rfl := Option.some_inj.mp hloop
            exact hsent

/-! ### Scheduling -/

theorem txqScheduleLoop {l : List TidId} (h : Rests q₀ b x s)
    (hloop : txqScheduleLoop q l s = some s') : Rests q₀ b x s' := by
  induction l generalizing s with
  | nil =>
      obtain rfl := Option.some_inj.mp hloop
      exact h
  | cons k rest ih =>
      have hhead : Rests q₀ b x (tidqRemoveHead s q k) := (h.modTxq _ id).modTid _ (h.queued k)
      rw [Tx.txqScheduleLoop] at hloop
      split at hloop
      · exact ih hhead hloop
      · obtain ⟨s₁, hsend, rfl⟩ := Option.map_eq_some_iff.mp hloop
        refine Rests.requeueTid ?_
        split at hsend
        · exact hhead.schedAggrLoop hsend
        · obtain rfl := Option.some_inj.mp hsend
          exact hhead.schedNormalLoop _

theorem athTgtTxqSchedule (h : Rests q₀ b x s) (hsched : athTgtTxqSchedule s q = some s') :
    Rests q₀ b x s' := h.txqScheduleLoop hsched

theorem athAggrResumeTid (h : Rests q₀ b x s) (hresume : athAggrResumeTid s k = some s') :
    Rests q₀ b x s' := by
  have hresumed : Rests q₀ b x (s.modTid k fun tid => { tid with paused := false }) :=
    h.modTid _ (h.queued k)
  rw [Tx.athAggrResumeTid] at hresume
  dsimp only at hresume
  split at hresume
  · obtain rfl := Option.some_inj.mp hresume
    exact hresumed
  · exact hresumed.athTgtTxEnqueue.athTgtTxqSchedule hresume

/-! ### Draining and cleaning up a TID -/

theorem tidDrainLoop {l : List BufId} (h : Rests q₀ b x s) (hl : ∀ c ∈ l, c ≠ b)
    (hloop : tidDrainLoop k l s = some s') : Rests q₀ b x s' := by
  induction l generalizing s with
  | nil =>
      obtain rfl := Option.some_inj.mp hloop
      exact h
  | cons bf rest ih =>
      obtain ⟨s₁, hfree, hloop⟩ := Option.bind_eq_some_iff.mp hloop
      have hfreed := h.bufQRemoveHead.athTxFreebuf (hl bf List.mem_cons_self) hfree
      exact ih hfreed (fun c hc => hl c (List.mem_cons_of_mem _ hc)) hloop

theorem athTgtTidDrain (h : Rests q₀ b x s) (hdrain : athTgtTidDrain s k = some s') :
    Rests q₀ b x s' := by
  obtain ⟨s₁, hloop, rfl⟩ := Option.map_eq_some_iff.mp hdrain
  have hdrained := h.tidDrainLoop (fun c hc => h.ne_of_queued hc) hloop
  exact hdrained.modTid _ (hdrained.queued k)

theorem cleanupBufQ {discardAll : Bool} {l : List BufId} (h : Rests q₀ b x s)
    (hl : ∀ c ∈ l, c ≠ b) (hloop : cleanupBufQ k discardAll l s = some s') : Rests q₀ b x s' := by
  induction l generalizing s with
  | nil =>
      obtain rfl := Option.some_inj.mp hloop
      exact h
  | cons bf rest ih =>
      have hrest : ∀ c ∈ rest, c ≠ b := fun c hc => hl c (List.mem_cons_of_mem _ hc)
      rw [Tx.cleanupBufQ] at hloop
      split at hloop
      · split at hloop
        · cases hloop
        · rename_i first more hq
          obtain ⟨s₁, hfree, hloop⟩ := Option.bind_eq_some_iff.mp hloop
          have hdiscard : Rests q₀ b x (discardFromBaw (Tx.bufQRemoveHead s k) k first) := by
            rw [discardFromBaw]
            split
            · exact h.bufQRemoveHead.modWindow _ (rest_athTxUpdateBaw ..)
            · exact h.bufQRemoveHead
          have hfirst : first ≠ b := h.ne_of_queued (hq ▸ List.mem_cons_self)
          exact ih (hdiscard.athTxFreebuf hfirst hfree) hrest hloop
      · exact ih (h.modBuf (hl bf List.mem_cons_self) _) hrest hloop

theorem athTgtTxCleanup {discardAll : Bool} (h : Rests q₀ b x s)
    (hclean : athTgtTxCleanup s k discardAll = some s') : Rests q₀ b x s' := by
  obtain ⟨s₁, hwalk, hclean⟩ := Option.bind_eq_some_iff.mp hclean
  have hwalked := h.cleanupBufQ (fun c hc => h.ne_of_queued hc) hwalk
  have hpaused : Rests q₀ b x (athAggrPauseTid s₁ k) := hwalked.modTid _ (hwalked.queued k)
  have hcleaned : Rests q₀ b x ((athAggrPauseTid s₁ k).modTid k (cleanupBaw athTidMaxBufs)) := by
    refine hpaused.modTid _ ?_
    rw [cleanupBaw_bufQ]
    exact hpaused.queued k
  dsimp only at hclean
  split at hclean
  · obtain rfl := Option.some_inj.mp hclean
    exact hcleaned
  · exact hcleaned.athAggrResumeTid hclean

theorem owlTgtTidCleanup (h : Rests q₀ b x s) (hclean : owlTgtTidCleanup s k = some s') :
    Rests q₀ b x s' := by
  rw [Tx.owlTgtTidCleanup] at hclean
  dsimp only at hclean
  have hcounted : Rests q₀ b x
      (s.modTid k fun tid => { tid with incomp := aInt8 (tid.incomp - 1) }) :=
    h.modTid _ (h.queued k)
  split at hclean
  · obtain rfl := Option.some_inj.mp hclean
    exact hcounted
  · have hstopped := hcounted.modTid (k := k) (fun tid => { tid with cleanupInprogres := false })
      (hcounted.queued k)
    split at hclean
    · obtain rfl := Option.some_inj.mp hclean
      exact hstopped.modTid _ List.not_mem_nil
    · exact hstopped.athAggrResumeTid hclean

/-! ### Block-ack requests -/

theorem athTgtDelbaSend (h : Rests q₀ b x s) (hsend : athTgtDelbaSend s k = some s') :
    Rests q₀ b x s' := by
  obtain ⟨s₁, hclean, rfl⟩ := Option.map_eq_some_iff.mp hsend
  have hstopped : Rests q₀ b x (s.modTid k fun tid => { tid with aggrEnabled := false }) :=
    h.modTid _ (h.queued k)
  exact (hstopped.athTgtTxCleanup hclean).emit _

theorem athBarTx (h : Rests q₀ b x s) (hbf : bf ≠ b) (hbar : athBarTx s k bf = some s') :
    Rests q₀ b x s' := by
  rw [Tx.athBarTx] at hbar
  dsimp only at hbar
  split at hbar
  · cases hbar
  · obtain rfl := Option.some_inj.mp hbar
    have hpaused : Rests q₀ b x (athAggrPauseTid s k) := h.modTid _ (h.queued k)
    refine Rests.athTgtTxqAddUcast (Rests.athFilltxdesc ?_ hbf)
    exact Rests.modBuf (hpaused.modNbuf _ _) hbf _

theorem athBarRetry (h : Rests q₀ b x s) (hbf : bf ≠ b) (hretry : athBarRetry s k bf = some s') :
    Rests q₀ b x s' := by
  rw [Tx.athBarRetry] at hretry
  split at hretry
  · obtain ⟨s₁, hdelba, hretry⟩ := Option.bind_eq_some_iff.mp hretry
    obtain ⟨s₂, hdrain, hretry⟩ := Option.bind_eq_some_iff.mp hretry
    have hended := (h.athTgtDelbaSend hdelba).athTgtTidDrain hdrain
    exact (hended.modBuf hbf _).athBufComp hbf hretry
  · obtain ⟨⟨tmp, s₁⟩, hmove, hretry⟩ := Option.bind_eq_some_iff.mp hretry
    obtain ⟨s₂, hset, rfl⟩ := Option.map_eq_some_iff.mp hretry
    obtain ⟨htmp, hs₁⟩ := h.toggled hbf h hmove
    exact ((hs₁.modDs _ _).athTxSetRetry htmp hset).athTgtTxqAddUcast

theorem athBarTxComp (h : Rests q₀ b x s) (hbf : bf ≠ b) (hcomp : athBarTxComp s k bf = some s') :
    Rests q₀ b x s' := by
  rw [Tx.athBarTxComp] at hcomp
  split at hcomp
  · exact h.athBarRetry hbf hcomp
  · obtain ⟨s₁, hres, hcomp⟩ := Option.bind_eq_some_iff.mp hcomp
    exact ((h.athAggrResumeTid hres).modBuf hbf _).athBufComp hbf hcomp

/-! ### Data frames -/

theorem athTgtTxCompNormal (h : Rests q₀ b x s) (hbf : bf ≠ b)
    (hcomp : athTgtTxCompNormal s k bf = some s') : Rests q₀ b x s' := by
  obtain ⟨s₁, hclean, hcomp⟩ := Option.bind_eq_some_iff.mp hcomp
  have hcleaned : Rests q₀ b x s₁ := by
    split at hclean
    · exact h.owlTgtTidCleanup hclean
    · obtain rfl := Option.some_inj.mp hclean
      exact h
  exact (hcleaned.athTxStatusUpdate.emit _).athTxFreebuf hbf hcomp

theorem compCleanupLoop {stat : TxStat} {rcs : Fin 4 → RcSeries} {n : ℕ} {o : Option BufId}
    (h : Rests q₀ b x s) (hT : Shut b T s) (ho : ∀ c ∈ o, c ∈ T)
    (hloop : compCleanupLoop k stat rcs n o s = some s') : Rests q₀ b x s' := by
  induction n generalizing s o with
  | zero =>
      cases o with
      | none =>
          obtain rfl := Option.some_inj.mp hloop
          exact h
      | some bf => cases hloop
  | succ n ih =>
      cases o with
      | none =>
          obtain rfl := Option.some_inj.mp hloop
          exact h
      | some bf =>
          have hbf : bf ∈ T := ho bf rfl
          rw [Tx.compCleanupLoop] at hloop
          obtain ⟨s₁, hfree, hloop⟩ := Option.bind_eq_some_iff.mp hloop
          have hfreed := (h.athTxStatusUpdateAggr stat (some rcs) false).athTxFreebuf
            (hT.ne hbf) hfree
          have hshut := (hT.athTxStatusUpdateAggr stat (some rcs) false).athTxFreebuf hbf hfree
          have hcounted := hfreed.modTid (k := k)
            (fun tid => { tid with incomp := aInt8 (tid.incomp - 1) }) (hfreed.queued k)
          dsimp only at hloop
          split at hloop
          · exact (hcounted.modTid _ (hcounted.queued k)).athAggrResumeTid hloop
          · exact ih hcounted (hshut.of_buf rfl) (hT.next bf hbf) hloop

theorem athTxCompCleanup (h : Rests q₀ b x s) (hT : Shut b T s) (hbf : bf ∈ T)
    (hcomp : athTxCompCleanup s k bf = some s') : Rests q₀ b x s' := by
  rw [Tx.athTxCompCleanup] at hcomp
  split at hcomp
  · obtain ⟨s₁, hloop, rfl⟩ := Option.map_eq_some_iff.mp hcomp
    refine (h.compCleanupLoop hT (fun c hc => ?_) hloop).emit _
    obtain rfl := Option.some_inj.mp hc
    exact hbf
  · obtain ⟨s₁, hfree, hcomp⟩ := Option.bind_eq_some_iff.mp hcomp
    have hfreed := h.athTxStatusUpdate.athTxFreebuf (hT.ne hbf) hfree
    split at hcomp
    · exact hfreed.owlTgtTidCleanup hcomp
    · obtain rfl := Option.some_inj.mp hcomp
      exact hfreed

/-- A frame leaves the window, and its status is reported. -/
theorem updateBaw (h : Rests q₀ b x s) (hT : Shut b T s) (seqno : ℕ) (bf : BufId) (stat : TxStat)
    (rcs : Option (Fin 4 → RcSeries)) (txok : Bool) :
    Rests q₀ b x (Tx.athTxStatusUpdateAggr (s.modTid k fun tid => athTxUpdateBaw tid seqno) bf stat
        rcs txok) ∧
      Shut b T (Tx.athTxStatusUpdateAggr (s.modTid k fun tid => athTxUpdateBaw tid seqno) bf stat
        rcs txok) := by
  refine ⟨(h.modWindow _ (rest_athTxUpdateBaw ..)).athTxStatusUpdateAggr stat rcs txok, ?_⟩
  refine Shut.athTxStatusUpdateAggr ?_ stat rcs txok
  exact hT.of_buf rfl

/-- What a completion collects is not the frame that rests. -/
def Others (b : BufId) (acc : CompAcc) : Prop := (∀ c ∈ acc.bfQ, c ≠ b) ∧ ∀ c ∈ acc.bar, c ≠ b

theorem athTxRetrySubframe {acc : CompAcc} {out : CompAcc × TxState} (h : Rests q₀ b x s)
    (hT : Shut b T s) (hbf : bf ∈ T) (hacc : Others b acc)
    (hretry : athTxRetrySubframe s bf acc = some out) :
    Rests q₀ b x out.2 ∧ Shut b T out.2 ∧ Others b out.1 := by
  obtain ⟨k, -, hretry⟩ := Option.bind_eq_some_iff.mp hretry
  split at hretry
  · obtain ⟨hupdate, hshut⟩ := h.updateBaw hT (k := k) (seqnoFromBfSeqno (s.buf bf).bfSeqno) bf
      (s.ds (s.buf bf).bfLastds).dsTxstat none false
    dsimp only at hretry
    split at hretry
    · obtain rfl := Option.some_inj.mp hretry
      refine ⟨hupdate, hshut, hacc.1, fun c hc => ?_⟩
      obtain rfl := Option.some_inj.mp hc
      exact hT.ne hbf
    · obtain ⟨s₁, hfree, rfl⟩ := Option.map_eq_some_iff.mp hretry
      exact ⟨hupdate.athTxFreebuf (hT.ne hbf) hfree, hshut.athTxFreebuf hbf hfree, hacc⟩
  · obtain ⟨⟨tmp, s₁⟩, hmove, hretry⟩ := Option.bind_eq_some_iff.mp hretry
    obtain ⟨s₂, hset, rfl⟩ := Option.map_eq_some_iff.mp hretry
    obtain ⟨htmp, hs₁⟩ := h.toggled (hT.ne hbf) (h.modBuf (hT.ne hbf) _) hmove
    have hshut : Shut b T s₁ := by
      split at hmove
      · exact hT.toggle hbf hmove
      · obtain ⟨-, rfl⟩ := Prod.mk.inj (Option.some_inj.mp hmove)
        exact hT.modBuf bf _ (hT.next bf)
    refine ⟨hs₁.athTxSetRetry htmp hset, hshut.athTxSetRetry hset, fun c hc => ?_, hacc.2⟩
    rcases List.mem_append.mp hc with hc | hc
    · exact hacc.1 c hc
    · rw [List.mem_singleton.mp hc]
      exact htmp

theorem compAggrLoop {stat : TxStat} {rcs : Fin 4 → RcSeries} {acked : TxBuf → Bool} {n : ℕ}
    {o : Option BufId} {acc : CompAcc} {out : CompAcc × TxState} (h : Rests q₀ b x s)
    (hT : Shut b T s) (ho : ∀ c ∈ o, c ∈ T) (hacc : Others b acc)
    (hloop : compAggrLoop k stat rcs acked n o acc s = some out) :
    Rests q₀ b x out.2 ∧ Others b out.1 := by
  induction n generalizing s o acc with
  | zero =>
      cases o with
      | none =>
          obtain rfl := Option.some_inj.mp hloop
          exact ⟨h, hacc⟩
      | some bf => cases hloop
  | succ n ih =>
      cases o with
      | none =>
          obtain rfl := Option.some_inj.mp hloop
          exact ⟨h, hacc⟩
      | some bf =>
          have hbf : bf ∈ T := ho bf rfl
          rw [Tx.compAggrLoop] at hloop
          dsimp only at hloop
          split at hloop
          · obtain ⟨s₁, hack, hloop⟩ := Option.bind_eq_some_iff.mp hloop
            obtain ⟨hupdate, hshut⟩ := h.updateBaw hT (k := k)
              (seqnoFromBfSeqno (s.buf bf).bfSeqno) bf stat (some rcs) true
            exact ih (hupdate.athTxFreebuf (hT.ne hbf) hack) (hshut.athTxFreebuf hbf hack)
              (hT.next bf hbf) hacc hloop
          · obtain ⟨⟨acc', s₁⟩, hretry, hloop⟩ := Option.bind_eq_some_iff.mp hloop
            obtain ⟨hs₁, hshut, hacc'⟩ := h.athTxRetrySubframe hT hbf hacc hretry
            refine ih hs₁ hshut (hT.next bf hbf) ?_ hloop
            exact hacc'

theorem prepend (h : Rests q₀ b x s) {bfQ : List BufId} (hbfQ : ∀ c ∈ bfQ, c ≠ b) :
    Rests q₀ b x (Tx.athTgtTxEnqueue (prependBufQ s k bfQ) q k) := by
  refine Rests.athTgtTxEnqueue (h.modTid _ fun hmem => ?_)
  rcases List.mem_append.mp hmem with hmem | hmem
  · exact hbfQ b hmem rfl
  · exact h.queued k hmem

theorem finishAggr {acc : CompAcc} (h : Rests q₀ b x s) (hacc : Others b acc)
    (hfin : finishAggr s k q acc = some s') : Rests q₀ b x s' := by
  obtain ⟨s₁, hbar, rfl⟩ := Option.map_eq_some_iff.mp hfin
  have hs₁ : Rests q₀ b x s₁ := by
    split at hbar
    · obtain rfl := Option.some_inj.mp hbar
      exact h
    · rename_i bar hsome
      exact h.athBarTx (hacc.2 bar hsome) hbar
  split
  · exact hs₁
  · exact hs₁.prepend hacc.1

/-- The loop over the subframes of an aggregate, and what follows it. -/
theorem aggregate {stat : TxStat} {rcs : Fin 4 → RcSeries} {acked : TxBuf → Bool} {n : ℕ}
    {acc : CompAcc} {s₁ : TxState} {o : Output} (h : Rests q₀ b x s) (hT : Shut b T s)
    (hbf : bf ∈ T) (hloop : Tx.compAggrLoop k stat rcs acked n (some bf) {} s = some (acc, s₁))
    (hfin : Tx.finishAggr (s₁.emit o) k q acc = some s') : Rests q₀ b x s' := by
  have hnone : Others b {} := ⟨fun c hc => (by cases hc), fun c hc => (by cases hc)⟩
  obtain ⟨hs₁, hacc⟩ := h.compAggrLoop hT (fun c hc => Option.some_inj.mp hc ▸ hbf) hnone hloop
  exact (hs₁.emit o).finishAggr hacc hfin

theorem athTxCompAggrError (h : Rests q₀ b x s) (hT : Shut b T s) (hbf : bf ∈ T)
    (hcomp : athTxCompAggrError s k bf = some s') : Rests q₀ b x s' := by
  obtain ⟨⟨acc, s₁⟩, hloop, hfin⟩ := Option.bind_eq_some_iff.mp hcomp
  exact h.aggregate hT hbf hloop hfin

theorem athTxRetryUnaggr (h : Rests q₀ b x s) (hbf : bf ≠ b)
    (hretry : athTxRetryUnaggr s k bf = some s') : Rests q₀ b x s' := by
  rw [Tx.athTxRetryUnaggr] at hretry
  dsimp only at hretry
  split at hretry
  · exact (h.modWindow _ (rest_athTxUpdateBaw ..)).athTxStatusUpdate.athBarTx hbf hretry
  · obtain ⟨⟨tmp, s₁⟩, hmove, hretry⟩ := Option.bind_eq_some_iff.mp hretry
    obtain ⟨s₂, hset, rfl⟩ := Option.map_eq_some_iff.mp hretry
    obtain ⟨htmp, hs₁⟩ := h.toggled hbf h hmove
    refine (hs₁.athTxSetRetry htmp hset).prepend fun c hc => ?_
    rw [List.mem_singleton.mp hc]
    exact htmp

theorem athTxCompUnaggr (h : Rests q₀ b x s) (hbf : bf ≠ b)
    (hcomp : athTxCompUnaggr s k bf = some s') : Rests q₀ b x s' := by
  rw [Tx.athTxCompUnaggr] at hcomp
  dsimp only at hcomp
  split at hcomp
  · exact (h.emit _).athTxRetryUnaggr hbf hcomp
  · exact ((h.emit _).modWindow _ (rest_athTxUpdateBaw ..)).athTxStatusUpdate.athTxFreebuf hbf hcomp

theorem athTgtTxCompAggr (h : Rests q₀ b x s) (hT : Shut b T s) (hbf : bf ∈ T)
    (hcomp : athTgtTxCompAggr s k bf = some s') : Rests q₀ b x s' := by
  rw [Tx.athTgtTxCompAggr] at hcomp
  dsimp only at hcomp
  split at hcomp
  · exact h.athTxCompCleanup hT hbf hcomp
  · split at hcomp
    · cases hcomp
    · split at hcomp
      · exact h.athTxCompUnaggr (hT.ne hbf) hcomp
      · split at hcomp
        · exact h.athTxCompAggrError hT hbf hcomp
        · split at hcomp
          · exact h.athTxCompAggrError hT hbf hcomp
          · obtain ⟨⟨acc, s₁⟩, hloop, hfin⟩ := Option.bind_eq_some_iff.mp hcomp
            exact h.aggregate hT hbf hloop hfin

theorem completeBuf (h : Rests q₀ b x s) (hT : Shut b T s) (hbf : bf ∈ T)
    (hcomp : completeBuf s bf = some s') : Rests q₀ b x s' := by
  rw [Tx.completeBuf] at hcomp
  split at hcomp
  · exact h.athTxStatusUpdate.athBufComp (hT.ne hbf) hcomp
  · obtain ⟨k, -, hcomp⟩ := Option.bind_eq_some_iff.mp hcomp
    exact h.athTgtTxCompNormal (hT.ne hbf) hcomp
  · obtain ⟨k, -, hcomp⟩ := Option.bind_eq_some_iff.mp hcomp
    exact h.athTgtTxCompAggr hT hbf hcomp
  · obtain ⟨k, -, hcomp⟩ := Option.bind_eq_some_iff.mp hcomp
    exact h.athBarTxComp (hT.ne hbf) hcomp

/-- A round that completes another element, whose subframes are other frames too. -/
theorem processqRound {state : TxqState} {answer : Option TxStat} {more : Bool}
    (h : Rests q₀ b x s)
    (hother : ∀ bf ∈ processed q state answer s, bf ≠ b ∧ ∃ T, Shut b T s ∧ bf ∈ T)
    (hround : processqRound q state answer s = some (s', more)) : Rests q₀ b x s' := by
  rw [Tx.processqRound] at hround
  split at hround
  · obtain ⟨rfl, -⟩ := Prod.mk.inj (Option.some_inj.mp hround)
    exact h.modTxq _ id
  · rename_i bf rest hq
    split at hround
    · obtain ⟨rfl, -⟩ := Prod.mk.inj (Option.some_inj.mp hround)
      exact h
    · rename_i hbusy
      obtain ⟨s₁, hcomp, hround⟩ := Option.bind_eq_some_iff.mp hround
      obtain ⟨s₂, hsched, hpair⟩ := Option.map_eq_some_iff.mp hround
      obtain ⟨rfl, -⟩ := Prod.mk.inj hpair
      obtain ⟨hbf, T, hT, hmem⟩ := hother bf (by rw [processed, if_neg hbusy, hq]; rfl)
      have hremoved : Rests q₀ b x (txqRemoveHead (s.modDs (s.buf bf).bfLastds fun ds =>
          { ds with dsTxstat := procStatus state answer ds.dsTxstat }) q) := by
        refine Rests.modTxq (h.modDs _ _) _ fun hin => ?_
        have hin : b ∈ (s.txq q).axqQ := hin
        show b ∈ (s.txq q).axqQ.tail
        rw [hq] at hin ⊢
        exact (List.mem_cons.mp hin).resolve_left hbf.symm
      have hs₁ := hremoved.completeBuf (hT.of_buf rfl) hmem hcomp
      split at hsched
      · exact hs₁.athTgtTxqSchedule hsched
      · obtain rfl := Option.some_inj.mp hsched
        exact hs₁

/-! ### Frames from the host -/

theorem encapFrame {skb : SkbId} {keytype : KeyType} {ni : NodeId} (h : Rests q₀ b x sc.tx) :
    Rests q₀ b x (encapFrame sc ni skb keytype).tx := by
  rw [Tx.encapFrame]
  dsimp only
  split
  · exact ⟨h.onQ, h.same, h.free, h.held, h.queued⟩
  · exact h

theorem prepareBuf {dh : DataHdr} {skb : SkbId} (h : Rests q₀ b x s) (hbf : bf ≠ b) :
    Rests q₀ b x (prepareBuf sc k dh skb bf s).tx := by
  rw [Tx.prepareBuf]
  dsimp only
  refine Rests.athFilltxdesc (Rests.encapFrame ?_) hbf
  refine Rests.modBuf (s := athTgtTxSeqnoNormal _ k bf skb) ?_ hbf _
  have hfilled := h.modBuf hbf (fillBuf k dh skb)
  generalize s.modBuf bf (fillBuf k dh skb) = s₁ at hfilled
  rw [athTgtTxSeqnoNormal]
  exact Rests.modTid ((hfilled.modBuf hbf _).modNbuf _ _) _ (hfilled.queued k)

theorem sendPrepared {endpt : EndpointId} {dh : DataHdr} (h : Rests q₀ b x s) (hbf : bf ≠ b) :
    Rests q₀ b x (sendPrepared s k endpt dh bf) := by
  have hmarked := h.modBuf hbf fun x =>
    { x with bfEndpt := endpt, bfCookie := dh.cookie, vapIndex := dh.vapIndex }
  rw [Tx.sendPrepared]
  generalize (s.modBuf bf fun x =>
    { x with bfEndpt := endpt, bfCookie := dh.cookie, vapIndex := dh.vapIndex }) = s₁ at hmarked ⊢
  split
  · have hcomp := hmarked.modBuf hbf fun x => { x with bfComp := some .aggr }
    rw [athTgtHandleAggr]
    generalize (s₁.modBuf bf fun x => { x with bfComp := some .aggr }) = s₂ at hcomp ⊢
    split
    · refine Rests.athTgtTxEnqueue (hcomp.modTid _ fun hmem => ?_)
      rcases List.mem_append.mp hmem with hmem | hmem
      · exact hcomp.queued k hmem
      · exact hbf (List.mem_singleton.mp hmem).symm
    · exact (hcomp.modWindow _ (rest_athTxAddtoBaw ..)).athTgtTxSendNormal hbf
  · have hcomp := hmarked.modBuf hbf fun x => { x with bfComp := some .normal }
    exact (hcomp.modTid _ (hcomp.queued k)).athTgtTxSendNormal hbf

/-- The first free buffer is another one. -/
theorem takeFree {rest : List BufId} (h : Rests q₀ b x s) (hfree : s.scTxbuf = bf :: rest) :
    bf ≠ b ∧ Rests q₀ b x { s with scTxbuf := rest } := by
  have hnot := h.free
  rw [hfree, List.mem_cons, not_or] at hnot
  exact ⟨Ne.symm hnot.1, ⟨h.onQ, h.same, hnot.2, h.held, h.queued⟩⟩

theorem recvData {endpt : EndpointId} {skb : SkbId} {dh : DataHdr} (h : Rests q₀ b x sc.tx)
    (hrecv : tgtHtcRecvMessageHandler sc endpt skb dh = some sc') : Rests q₀ b x sc'.tx := by
  obtain ⟨⟨prepared, sc₁⟩, hprep, rfl⟩ := Option.map_eq_some_iff.mp hrecv
  rw [athTgtTxPrepare] at hprep
  obtain ⟨found, -, hprep⟩ := Option.bind_eq_some_iff.mp hprep
  have hreturned := h.emit (.returnBuffers endpt skb)
  cases found with
  | none =>
      obtain ⟨rfl, rfl⟩ := Prod.mk.inj (Option.some_inj.mp hprep)
      exact hreturned
  | some ni =>
      dsimp only at hprep
      split at hprep
      · split at hprep
        · obtain ⟨rfl, rfl⟩ := Prod.mk.inj (Option.some_inj.mp hprep)
          exact hreturned
        · obtain ⟨⟨bf, s⟩, halloc, hpair⟩ := Option.map_eq_some_iff.mp hprep
          obtain ⟨rfl, rfl⟩ := Prod.mk.inj hpair
          rw [athTxBufAlloc] at halloc
          split at halloc
          · cases halloc
          · rename_i bf' rest hfree
            obtain ⟨rfl, rfl⟩ := Prod.mk.inj (Option.some_inj.mp halloc)
            obtain ⟨hbf, htaken⟩ := h.takeFree hfree
            exact ((htaken.modBuf hbf _).prepareBuf hbf).sendPrepared hbf
      · cases hprep

theorem sendMgtBuf {endpt : EndpointId} {skb : SkbId} {mh : MgtHdr} {ni : NodeId}
    (h : Rests q₀ b x sc.tx) (hbf : bf ≠ b) :
    Rests q₀ b x (sendMgtBuf sc ni endpt skb mh bf).tx := by
  rw [Tx.sendMgtBuf]
  dsimp only
  exact Rests.athTgtTxqaddbuf (Rests.athFilltxdesc ((h.modBuf hbf _).modNbuf _ _) hbf) _

theorem recvMgmt {endpt : EndpointId} {skb : SkbId} {mh : MgtHdr} (h : Rests q₀ b x sc.tx)
    (hrecv : athTgtSendMgt sc endpt skb mh = some sc') : Rests q₀ b x sc'.tx := by
  rw [athTgtSendMgt] at hrecv
  split at hrecv
  · obtain rfl := Option.some_inj.mp hrecv
    exact h.emit _
  · rename_i bf rest hfree
    obtain ⟨hbf, htaken⟩ := h.takeFree hfree
    obtain ⟨found, -, rfl⟩ := Option.map_eq_some_iff.mp hrecv
    cases found with
    | none => exact htaken.emit _
    | some ni => exact Rests.sendMgtBuf htaken hbf

/-! ### Commands -/

theorem athEnableAggrTgt {nodeindex tidno : ℕ} {enable : Bool} (h : Rests q₀ b x sc.tx)
    (hcmd : athEnableAggrTgt sc nodeindex tidno enable = some sc') : Rests q₀ b x sc'.tx := by
  rw [Tx.athEnableAggrTgt] at hcmd
  dsimp only at hcmd
  split at hcmd
  · split at hcmd
    · split at hcmd
      · obtain rfl := Option.some_inj.mp hcmd
        exact h
      · split at hcmd
        · obtain rfl := Option.some_inj.mp hcmd
          dsimp only
          exact h.modTid _ (h.queued _)
        · split at hcmd
          · obtain ⟨s, hclean, rfl⟩ := Option.map_eq_some_iff.mp hcmd
            refine Rests.athTgtTxCleanup (h.modTid _ ?_) hclean
            exact h.queued _
          · obtain rfl := Option.some_inj.mp hcmd
            exact h
    · obtain rfl := Option.some_inj.mp hcmd
      exact h
  · obtain rfl := Option.some_inj.mp hcmd
    exact h

theorem owlTgtNodeInit (h : Rests q₀ b x s) (ni : NodeId) : Rests q₀ b x (owlTgtNodeInit s ni) := by
  refine ⟨h.onQ, h.same, h.free, h.held, fun k => ?_⟩
  show b ∉ (if k.1 = ni then nodeInitTid (s.tid k) else s.tid k).bufQ
  split
  · rw [nodeInitTid]
    split
    · exact h.queued k
    · exact List.not_mem_nil
  · exact h.queued k

theorem athNodeCreateTgt {cmd : NodeCmd} (h : Rests q₀ b x sc.tx)
    (hcmd : athNodeCreateTgt sc cmd = some sc') : Rests q₀ b x sc'.tx := by
  rw [Tx.athNodeCreateTgt] at hcmd
  split at hcmd
  · split at hcmd
    · cases hcmd
    · obtain rfl := Option.some_inj.mp hcmd
      refine Rests.owlTgtNodeInit ?_ _
      exact ⟨h.onQ, h.same, h.free, h.held, h.queued⟩
  · cases hcmd

theorem drainTidq (h : Rests q₀ b x s) (hdrain : drainTidq q s = some s') : Rests q₀ b x s' := by
  rw [Tx.drainTidq] at hdrain
  split at hdrain
  · refine Rests.athTgtTidDrain ?_ hdrain
    exact (h.modTxq _ id).modTid _ (h.queued _)
  · cases hdrain

end Rests

/-! ## Every event -/

/-- The subframes of another element are other frames, and stay among themselves. -/
theorem Rests.others {es : List BufId} (h : Rests q₀ b x s) (hwf : s.ledger.WF ⟨[], [], l⟩)
    (hq : (s.txq q).axqQ = bf :: es) (hbf : bf ≠ b) : ∃ T, Shut b T s ∧ bf ∈ T := by
  have hpop := (Track.pop (G := fun _ _ _ => False) hwf hq).wf
  have hel : Element s.ledger.buf s.ledger.txBufs q bf :=
    hwf.onHw q bf (show bf ∈ (s.txq q).axqQ from hq ▸ List.mem_cons_self)
  have helb : Element s.ledger.buf s.ledger.txBufs q₀ b := hwf.onHw q₀ b h.onQ
  refine ⟨{c | c ∈ s.subframes bf}, ⟨fun hmem => ?_, fun c hc d hd => ?_⟩, hel.mem_subframes⟩
  · have hon : b ∈ (s.ledger.setHwq q es).hwq q₀ := by
      show b ∈ Function.update (fun q => (s.txq q).axqQ) q es q₀
      rcases eq_or_ne q₀ q with rfl | hne
      · have honQ := h.onQ
        rw [hq] at honQ
        rw [Function.update_self]
        exact (List.mem_cons.mp honQ).resolve_left hbf.symm
      · rw [Function.update_of_ne hne]
        exact h.onQ
    exact hpop.not_mem_subframes (mem_all.mpr (.inl hmem)) hon helb.mem_subframes
  · obtain ⟨pre, post, hsplit⟩ := List.append_of_mem (show c ∈ s.subframes bf from hc)
    have hchain : Chain (fun b => (s.buf b).bfNext) (some bf) (pre ++ c :: post) :=
      hsplit ▸ hel.chain
    have hnext : (s.buf c).bfNext = post.head? := hchain.next_eq
    show d ∈ s.subframes bf
    rw [hsplit]
    rw [hnext] at hd
    exact List.mem_append_right _ (List.mem_cons_of_mem _ (List.mem_of_mem_head? hd))

/-- The event does not complete the element `b` of a hardware queue. -/
def Leaves (b : BufId) (sc : Softc) : Event → Prop
  | .processq q state answer => processed q state answer sc.tx ≠ some b
  | _ => True

instance (b : BufId) (sc : Softc) (e : Event) : Decidable (Leaves b sc e) :=
  match e with
  | .processq q state answer =>
    inferInstanceAs (Decidable (processed q state answer sc.tx ≠ some b))
  | .recvData .. | .recvMgmt .. | .statusClear | .statusSend | .drainStart | .drainTidq .. |
    .drainEnd | .enableAggr .. | .nodeCreate .. | .nodeCleanup .. | .nodeUpdate .. |
    .icUpdate .. => inferInstanceAs (Decidable True)

theorem Rests.step (h : Rests q₀ b x sc.tx) (hwf : sc.tx.ledger.WF ⟨[], [], l⟩)
    (hleaves : Leaves b sc e) (hstep : step e sc = some sc') : Rests q₀ b x sc'.tx := by
  cases e with
  | recvData endpt dh frame =>
      have harrived : Rests q₀ b x (arrive sc frame).tx :=
        ⟨h.onQ, h.same, h.free, h.held, h.queued⟩
      exact harrived.recvData hstep
  | recvMgmt endpt mh frame =>
      have harrived : Rests q₀ b x (arrive sc frame).tx :=
        ⟨h.onQ, h.same, h.free, h.held, h.queued⟩
      exact harrived.recvMgmt hstep
  | processq q state answer =>
      obtain ⟨⟨s', more⟩, hround, rfl⟩ := Option.map_eq_some_iff.mp hstep
      refine h.processqRound (fun bf hbf => ?_) hround
      have hne : bf ≠ b := by
        rintro rfl
        exact hleaves hbf
      have hproc : processed q state answer sc.tx = some bf := hbf
      rw [processed] at hproc
      split at hproc
      · cases hproc
      · obtain ⟨es, hq⟩ := List.head?_eq_some_iff.mp hproc
        exact ⟨hne, h.others hwf hq hne⟩
  | statusClear =>
      obtain rfl := Option.some_inj.mp hstep
      exact ⟨h.onQ, h.same, h.free, h.held, h.queued⟩
  | statusSend =>
      obtain rfl := Option.some_inj.mp hstep
      exact h.athTxStatusSend
  | drainStart =>
      obtain rfl := Option.some_inj.mp hstep
      exact ⟨h.onQ, h.same, h.free, h.held, h.queued⟩
  | drainTidq q =>
      obtain ⟨s', hdrain, rfl⟩ := Option.map_eq_some_iff.mp hstep
      exact h.drainTidq hdrain
  | drainEnd =>
      obtain rfl := Option.some_inj.mp hstep
      exact ⟨h.onQ, h.same, h.free, h.held, h.queued⟩
  | enableAggr nodeindex tidno enable => exact h.athEnableAggrTgt hstep
  | nodeCreate cmd => exact h.athNodeCreateTgt hstep
  | nodeCleanup nodeIndex =>
      rw [Tx.step, athNodeCleanupTgt] at hstep
      split at hstep
      · obtain rfl := Option.some_inj.mp hstep
        exact h
      · cases hstep
  | nodeUpdate cmd =>
      rw [Tx.step, athNodeUpdateTgt] at hstep
      split at hstep
      · obtain rfl := Option.some_inj.mp hstep
        exact ⟨h.onQ, h.same, h.free, h.held, h.queued⟩
      · cases hstep
  | icUpdate ampduLimit enableCoex =>
      obtain rfl := Option.some_inj.mp hstep
      exact ⟨h.onQ, h.same, h.free, h.held, h.queued⟩

/-- `TXQ_ADDBUF` writes the queue and a link of a descriptor. -/
theorem athTgtTxqaddbuf_eq (s : TxState) (q : QueueId) (bf lastds : BufId) :
    ∃ ds, athTgtTxqaddbuf s q bf lastds =
      { s with
        ds
        txq := Function.update s.txq q { s.txq q with
          axqQ := (s.txq q).axqQ ++ [bf]
          axqDepth := (s.txq q).axqDepth + 1
          axqLink := some lastds } } := by
  rw [athTgtTxqaddbuf]
  unfold axqLinkTo
  split
  · exact ⟨s.ds, rfl⟩
  · exact ⟨_, rfl⟩

end Ath9kHtc.Tx
