import Ath9kHtc.Tx.Discipline

/-!
# The block-ack window between two handlers

What the window of a TID says about its frames.
-/

namespace Ath9kHtc.Tx

open Ledger

variable {t : Tier} {sc sc' : Softc} {s : TxState} {k : TidId} {R F : List Frame} {n : ℕ}

/-- The frames that were added to the window of a TID and are neither acknowledged nor
abandoned: those at the hardware and those that wait to be sent again. -/
def TxState.unacked (s : TxState) (k : TidId) : Multiset Frame :=
  s.ledger.hwAir k + (s.ledger.waiting k).filter Frame.retried

/-- The set bits of a TID are those of the numbers in `W`. -/
def Tid.Marks (tid : Tid) (W : Multiset ℕ) : Prop :=
  ∀ j < athTidMaxBufs, tid.txBufBitmap ((tid.bawHead + j) % athTidMaxBufs) = true ↔
    (tid.seqStart + j) % ieee80211SeqMax ∈ W

/-- The window of a TID is well formed.  A cleanup abandons the frames of the window. -/
structure WindowOk (s : TxState) (k : TidId) : Prop where
  size_le : ((s.tid k).bawTail + athTidMaxBufs - (s.tid k).bawHead) % athTidMaxBufs ≤
    (s.tid k).bawSize
  inside : ∀ i < athTidMaxBufs, (s.tid k).txBufBitmap i = true →
    (i + athTidMaxBufs - (s.tid k).bawHead) % athTidMaxBufs <
      ((s.tid k).bawTail + athTidMaxBufs - (s.tid k).bawHead) % athTidMaxBufs
  distinct : (s.tid k).cleanupInprogres = false → ((s.unacked k).map Frame.seq).Nodup
  marks : (s.tid k).cleanupInprogres = false → (s.tid k).Marks ((s.unacked k).map Frame.seq)
  blank : (s.tid k).cleanupInprogres = true → (s.tid k).Blank
  update : (s.tid k).cleanupInprogres = false → ∀ f ∈ s.unacked k,
    (athTxUpdateBaw (s.tid k) f.seq).Marks (((s.unacked k).map Frame.seq).erase f.seq)

theorem filter_retried (hR : ∀ f ∈ R, f.retried = true) (hF : ∀ f ∈ F, f.retried = false) :
    (R ++ F).filter Frame.retried = R := by
  rw [List.filter_append, List.filter_eq_self.mpr hR, List.filter_eq_nil_iff.mpr, List.append_nil]
  intro f hf
  rw [hF f hf]
  decide

theorem unacked_numbers (h : (s.view k).Sound t R F n) :
    (s.unacked k).map Frame.seq = (s.view k).numbers R := by
  have hqueue : s.ledger.waiting k = R ++ F := h.queue_eq
  have hpend : (s.view k).pend = [] := rfl
  rw [TxState.unacked, hqueue, filter_retried _ h.fresh, Session.numbers, hpend, view_air,
    Multiset.coe_nil, add_zero]
  exact fun f hf => h.retried f (List.mem_append_left _ hf)

theorem view_win (s : TxState) (k : TidId) : (s.view k).win = (s.tid k).window := rfl

/-- The marks of a window are the bits of its TID. -/
theorem Tid.marks_of_holds {tid : Tid} {W : Multiset ℕ} (hv : tid.window.Valid 4096 128)
    (hW : tid.window.Holds 4096 128 W) (hO : tid.window.Owned 4096 128 W)
    (hC : tid.window.Clear 128) : tid.Marks W :=
  fun _ hj => hW.slot_iff hO hC hv (by decide) hj

theorem windowOk_of_sound (h : (s.view k).IsSound .clear) : WindowOk s k := by
  obtain ⟨R, F, n, h⟩ := h
  have hv : (s.tid k).window.Valid 4096 128 := h.valid
  have hclear : (s.tid k).window.Clear 128 := h.clear rfl
  have howned := h.owned (by decide)
  have hslot : ∀ i < 128, (s.tid k).txBufBitmap i = (s.tid k).window.slot 128
      (fwd 128 (s.tid k).bawHead i) := fun i hi =>
    (congrArg (s.tid k).txBufBitmap (add_fwd hv.head_lt hi)).symm
  have hinside : ∀ i < 128, (s.tid k).txBufBitmap i = true →
      fwd 128 (s.tid k).bawHead i < (s.view k).size := fun i hi hset =>
    hclear _ (fwd_lt (by decide)) (hslot i hi ▸ hset)
  refine ⟨h.size_le, hinside, fun hc => ?_, fun hc => ?_, fun hc i hi => ?_, fun hc f hf => ?_⟩
  · rw [unacked_numbers h]
    exact (h.holds hc).nodup
  · rw [unacked_numbers h]
    exact Tid.marks_of_holds hv (h.holds hc) howned hclear
  · by_contra hset
    have := hinside i hi (by simpa using hset)
    rw [(h.busy hc).2.1] at this
    exact absurd this (Nat.not_lt_zero _)
  · have hmem : f.seq ∈ (s.unacked k).map Frame.seq := Multiset.mem_map_of_mem _ hf
    rw [unacked_numbers h] at hmem ⊢
    have hcons := Multiset.cons_erase hmem
    have hholds := h.holds hc
    rw [← hcons] at hholds howned
    have hoff : (s.tid k).window.offset 4096 f.seq < 128 := by
      have := hholds.within _ (Multiset.mem_cons_self _ _)
      exact this.trans hv.size_lt
    apply Tid.marks_of_holds
    · rw [window_athTxUpdateBaw]
      exact hv.valid_retire _
    · rw [window_athTxUpdateBaw]
      exact hholds.retire hv
    · rw [window_athTxUpdateBaw]
      exact howned.retire hholds hv
    · rw [window_athTxUpdateBaw]
      exact hclear.retire hv hoff

/-- On every run of the clear tier the window of every TID is well formed. -/
theorem window_wellFormed (h : transmit.ReachableWhere (Disciplined .clear) sc) (k : TidId) :
    WindowOk sc.tx k :=
  windowOk_of_sound ((reachable_sound h).2 k)

theorem window_wellFormed_run : ∃ sc : Softc,
    (sc.tx.tid (0, 0)).bawTail = 2 ∧ WindowOk sc.tx (0, 0) := by
  obtain ⟨sc, steps, htail⟩ := Machine.exists_of_runWhere transmit.Init step
    (Disciplined .clear)
    (P := fun sc => (sc.tx.tid (0, 0)).bawTail = 2) (s := attach smallConfig steadyAnswers)
    [.icUpdate 65535 false, .nodeCreate (createNode 0), .enableAggr 0 0 true,
      .recvData 0 (dataTo 0) blankFrame, .recvData 0 (dataTo 0) blankFrame,
      .processq 0 .active failed] (by decide +kernel)
  exact ⟨sc, htail, window_wellFormed ⟨_, ⟨_, _, by decide, rfl⟩, steps⟩ (0, 0)⟩

/-- A drain of the queues leaves the bit of a frame behind that waited to be sent again. -/
theorem drain_leaves_bit : ¬ ∀ sc, transmit.Reachable sc → ∀ k, WindowOk sc.tx k := by
  intro h
  obtain ⟨sc, steps, hset, hhead, htail⟩ := Machine.exists_of_runWhere transmit.Init step
    (fun _ _ => True)
    (P := fun sc => (sc.tx.tid (0, 0)).txBufBitmap 0 = true ∧ (sc.tx.tid (0, 0)).bawHead = 0 ∧
      (sc.tx.tid (0, 0)).bawTail = 0) (s := attach smallConfig steadyAnswers)
    [.nodeCreate (createNode 0), .enableAggr 0 0 true, .recvData 0 (dataTo 0) blankFrame,
      .drainStart, .processq 0 .stopped failed, .drainTidq 0, .drainEnd] (by decide +kernel)
  have hok := h sc ⟨_, ⟨_, _, by decide, rfl⟩, steps⟩ (0, 0)
  have := hok.inside 0 (by decide) hset
  rw [hhead, htail] at this
  exact absurd this (by decide)

end Ath9kHtc.Tx
