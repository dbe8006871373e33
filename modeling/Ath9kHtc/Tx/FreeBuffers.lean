import Ath9kHtc.Tx.Resting

/-!
# Free buffers

A buffer that no one uses holds nothing of its last frame.  A management frame, which relies on
that, stays as it is at the hardware until it is completed.
-/

namespace Ath9kHtc.Tx

open Ledger

variable {s : TxState} {q₀ : QueueId} {b : BufId} {x : TxBuf} {sc sc' : Softc} {e : Event}
  {lost l : Multiset BufId}

/-- `ath_tgt_send_mgt` leaves the completion function of the buffer as it is. -/
theorem rests_sendMgtBuf {endpt : EndpointId} {skb : SkbId} {mh : MgtHdr} {ni : NodeId}
    (hcomp : (sc.tx.buf b).bfComp = none) (hfree : b ∉ sc.tx.scTxbuf)
    (hheld : b ∉ sc.tx.scTxbufHeld) (hqueued : ∀ k, b ∉ (sc.tx.tid k).bufQ) :
    ∃ x, x.bfComp = none ∧ Rests 1 b x (sendMgtBuf sc ni endpt skb mh b).tx := by
  have hfilled : ((sc.tx.modBuf b (fillMgtBuf sc ni endpt skb mh)).buf b).bfComp = none := by
    rw [TxState.modBuf_buf_self]
    exact hcomp
  rw [sendMgtBuf]
  dsimp only
  obtain ⟨ds, hadd⟩ := athTgtTxqaddbuf_eq (athFilltxdesc ((sc.tx.modBuf b
    (fillMgtBuf sc ni endpt skb mh)).modNbuf skb (putMgtSeqno (sc.scSta ni).niTxseqmgmt)) b)
    1 b _
  rw [hadd]
  refine ⟨_, ?_, ⟨?_, rfl, hfree, hheld, hqueued⟩⟩
  · dsimp only
    rw [athFilltxdesc, TxState.modBuf_buf_self]
    exact hfilled
  · dsimp only
    rw [Function.update_self]
    exact List.mem_append_right _ List.mem_cons_self

/-- A management frame waits at the hardware with nothing left of an earlier frame. -/
theorem rests_of_recvMgmt {endpt : EndpointId} {mh : MgtHdr} {frame : Nbuf} {ni : NodeId}
    {rest : List BufId} (hwf : sc.tx.ledger.WF ⟨[], [], l⟩) (hfree : sc.tx.scTxbuf = b :: rest)
    (hfind : athTgtFindNode sc mh.niIndex = some (some ni))
    (hstep : step (.recvMgmt endpt mh frame) sc = some sc') :
    ∃ x, x.bfComp = none ∧ Rests 1 b x sc'.tx := by
  have hmem : b ∈ sc.tx.ledger.free := by
    show b ∈ sc.tx.scTxbuf
    rw [hfree]
    exact List.mem_cons_self
  have hclean : Clean (sc.tx.buf b) := hwf.clean_free b hmem
  have htake := (Track.alloc (G := fun _ _ _ => True) hwf (b := b) (f := rest) hfree).wf
  have hhand : b ∈ Hand.all ⟨[], [], b ::ₘ l⟩ := mem_all_of_loose (Multiset.mem_cons_self b l)
  have hfree' : (arrive sc frame).tx.scTxbuf = b :: rest := hfree
  rw [step, athTgtSendMgt, hfree'] at hstep
  obtain ⟨found, hfound, hsent⟩ := Option.map_eq_some_iff.mp hstep
  cases hfind.symm.trans hfound
  obtain rfl := hsent
  exact rests_sendMgtBuf hclean.comp (htake.not_mem_free hhand) (htake.not_mem_held hhand)
    fun k => htake.not_mem_bufQ hhand

theorem Fine.rests_of_steps {sc₁ : Softc} (hfine : Fine sc lost) (h : Rests q₀ b x sc.tx)
    (steps : transmit.StepsWhere (fun sc e => Settles sc e ∧ Leaves b sc e) sc sc₁) :
    Rests q₀ b x sc₁.tx := by
  suffices h : ∃ lost, Fine sc₁ lost ∧ Rests q₀ b x sc₁.tx by
    obtain ⟨_, _, hrests⟩ := h
    exact hrests
  induction steps with
  | refl => exact ⟨lost, hfine, h⟩
  | tail _ last ih =>
      obtain ⟨lost, hfine, hrests⟩ := ih
      obtain ⟨e, ⟨hsettles, hleaves⟩, hstep⟩ := last
      exact ⟨_, step_fine hfine hsettles hstep, hrests.step hfine.wf hleaves hstep⟩

/-- In every state that the machine reaches without completing an aggregation frame that its
TID has given up, the free buffers and the held one are clean.  A management frame that takes a
buffer stays on the queue until it is completed, and its completion is the default one. -/
theorem free_buffers_clean (h : transmit.ReachableWhere Settles sc) :
    (∀ b ∈ sc.tx.scTxbuf, Clean (sc.tx.buf b)) ∧
    (∀ b ∈ sc.tx.scTxbufHeld, Clean (sc.tx.buf b)) ∧
    ∀ (endpt : EndpointId) (mh : MgtHdr) (frame : Nbuf) (ni : NodeId) (b : BufId)
      (rest : List BufId) (sc₁ sc₂ : Softc), sc.tx.scTxbuf = b :: rest →
      athTgtFindNode sc mh.niIndex = some (some ni) →
      step (.recvMgmt endpt mh frame) sc = some sc₁ →
      transmit.StepsWhere (fun sc e => Settles sc e ∧ Leaves b sc e) sc₁ sc₂ →
      b ∈ (sc₂.tx.txq 1).axqQ ∧
        ∀ s : TxState, s.buf b = sc₂.tx.buf b →
          completeBuf s b = athBufComp (athTxStatusUpdate s b) b := by
  obtain ⟨lost, hfine⟩ : ∃ lost, Fine sc lost := by
    refine h.invariant (P := fun sc => ∃ lost, Fine sc lost) ?_ ?_
    · rintro _ ⟨cfg, rateAnswers, -, rfl⟩
      exact ⟨0, fine_attach cfg rateAnswers⟩
    · rintro sc e sc' ⟨lost, hfine⟩ hsettles hstep
      exact ⟨_, step_fine hfine hsettles hstep⟩
  refine ⟨hfine.wf.clean_free, hfine.wf.clean_held, ?_⟩
  intro endpt mh frame ni b rest sc₁ sc₂ hfree hfind hstep steps
  have hsettles : Settles sc (.recvMgmt endpt mh frame) := trivial
  obtain ⟨x, hidle, hsent⟩ := rests_of_recvMgmt hfine.wf hfree hfind hstep
  have hrests : Rests 1 b x sc₂.tx :=
    (step_fine hfine hsettles hstep).rests_of_steps hsent steps
  refine ⟨hrests.onQ, fun s hs => ?_⟩
  have hcomp : (s.buf b).bfComp = none := by
    rw [hs, hrests.same]
    exact hidle
  rw [completeBuf, hcomp]

theorem free_buffers_clean_run : ∃ sc sc₁ sc₂ : Softc, sc.tx.scTxbuf = [1, 2, 3] ∧
    step (.recvMgmt 0 (mgmtTo 0) blankFrame) sc = some sc₁ ∧
    step (.recvData 0 (dataTo 0) blankFrame) sc₁ = some sc₂ ∧
    Clean (sc.tx.buf 1) ∧ 1 ∈ (sc₂.tx.txq 1).axqQ := by
  obtain ⟨sc, steps, hfree, hfind, hsent⟩ := Machine.exists_of_runWhere transmit.Init step Settles
    (P := fun sc : Softc => sc.tx.scTxbuf = [1, 2, 3] ∧
      athTgtFindNode sc 0 = some (some 0) ∧
      ((step (.recvMgmt 0 (mgmtTo 0) blankFrame) sc).any fun sc =>
        (step (.recvData 0 (dataTo 0) blankFrame) sc).isSome) = true)
    (s := attach smallConfig steadyAnswers) [.nodeCreate (createNode 0)] (by decide +kernel)
  obtain ⟨sc₁, hstep₁, hsent⟩ := (Option.any_eq_true _ _).mp hsent
  obtain ⟨sc₂, hstep₂⟩ := Option.isSome_iff_exists.mp hsent
  have hreach : transmit.ReachableWhere Settles sc := ⟨_, ⟨_, _, by decide, rfl⟩, steps⟩
  obtain ⟨hclean, -, hmgmt⟩ := free_buffers_clean hreach
  have hok : Settles sc₁ (.recvData 0 (dataTo 0) blankFrame) ∧
      Leaves 1 sc₁ (.recvData 0 (dataTo 0) blankFrame) := ⟨trivial, trivial⟩
  obtain ⟨hon, -⟩ := hmgmt 0 (mgmtTo 0) blankFrame 0 1 [2, 3] sc₁ sc₂ hfree hfind hstep₁
    (.single ⟨_, hok, hstep₂⟩)
  exact ⟨sc, sc₁, sc₂, hfree, hstep₁, hstep₂, hclean 1 (hfree ▸ List.mem_cons_self), hon⟩

/-- The node is created again while an aggregate is on its way: the buffer of its second frame is
freed by the retry and once more by the block-ack, which still follows `bf_next` to it. -/
theorem held_buffer_dirty : ¬ ∀ sc, transmit.Reachable sc →
    ∀ b ∈ sc.tx.scTxbufHeld, Clean (sc.tx.buf b) := by
  intro h
  obtain ⟨sc, steps, hheld, hcomp⟩ := Machine.exists_of_runWhere transmit.Init step
    (fun _ _ => True)
    (P := fun sc : Softc => sc.tx.scTxbufHeld = some 3 ∧ (sc.tx.buf 3).bfComp = some .normal)
    (s := attach smallConfig steadyAnswers)
    [.icUpdate 65535 false, .nodeCreate (createNode 0), .enableAggr 0 0 true,
      .recvData 0 (dataTo 0) blankFrame, .recvData 0 (dataTo 0) blankFrame,
      .recvData 0 (dataTo 0) blankFrame, .processq 0 .active sent, .nodeCreate (createNode 0),
      .processq 0 .active failed,
      .processq 0 .active (some { tsFlags := halTxBa, ba := 0b110 }),
      .recvData 0 (dataTo 0) blankFrame, .recvData 0 (dataTo 0) blankFrame]
    (by decide +kernel)
  have hclean := h sc ⟨_, ⟨_, _, by decide, rfl⟩, steps⟩ 3 (by rw [hheld]; rfl)
  rw [hclean.comp] at hcomp
  cases hcomp

end Ath9kHtc.Tx
