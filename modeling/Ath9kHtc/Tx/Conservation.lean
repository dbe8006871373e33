import Ath9kHtc.Tx.Refinement

/-!
# No buffer is lost

Every transmit buffer is in one place, on every run on which no buffer is thrown away.
-/

namespace Ath9kHtc.Tx

open Ledger

variable {sc sc' : Softc} {lost : Multiset BufId}

/-- Every place a transmit buffer can be in between two handlers: the free list, the held slot,
the queues of the TIDs and those of the hardware, subframes included. -/
def TxState.places (s : TxState) : Multiset BufId := s.ledger.places

/-- What keeps a step from throwing buffers away: a management frame that takes a buffer finds
its node, a TID is initialised with an empty queue only, and an aggregation frame completes
while its TID has aggregation or counts it. -/
def Conserving (sc : Softc) : Event → Prop
  | .recvMgmt _ mh _ => sc.tx.scTxbuf = [] ∨ athTgtFindNode sc mh.niIndex ≠ some none
  | .processq q state answer =>
    Settles sc (.processq q state answer) ∧
      ∀ bf ∈ processed q state answer sc.tx, ∀ k ∈ keyOf (sc.tx.buf bf),
        (sc.tx.tid k).cleanupInprogres = true →
        ((sc.tx.buf bf).bfComp = some .normal ∨
          (sc.tx.buf bf).bfComp = some .aggr ∧ (sc.tx.buf bf).bfIsaggr = false) →
        (sc.tx.tid k).resets = true → (sc.tx.tid k).bufQ = []
  | .nodeCreate cmd =>
    ∀ k : TidId, cmd.niNodeindex = k.1 → (sc.tx.tid k).cleanupInprogres = false →
      (sc.tx.tid k).bufQ = []
  | _ => True

instance (sc : Softc) (e : Event) : Decidable (Conserving sc e) :=
  match e with
  | .recvMgmt _ mh _ =>
    inferInstanceAs (Decidable (sc.tx.scTxbuf = [] ∨ athTgtFindNode sc mh.niIndex ≠ some none))
  | .processq q state answer =>
    inferInstanceAs (Decidable (Settles sc (.processq q state answer) ∧
      ∀ bf ∈ processed q state answer sc.tx, ∀ k ∈ keyOf (sc.tx.buf bf), _ → _ → _ → _))
  | .nodeCreate cmd =>
    inferInstanceAs (Decidable (∀ k : TidId, cmd.niNodeindex = k.1 → _ → _))
  | .recvData .. | .statusClear | .statusSend | .drainStart | .drainTidq .. | .drainEnd |
    .enableAggr .. | .nodeCleanup .. | .nodeUpdate .. | .icUpdate .. =>
    inferInstanceAs (Decidable True)

theorem Conserving.settles {e : Event} (h : Conserving sc e) : Settles sc e := by
  cases e with
  | processq q state answer => exact h.1
  | _ => exact trivial

theorem Conserving.spill_eq {q : QueueId} {state : TxqState} {answer : Option TxStat}
    (h : Conserving sc (.processq q state answer)) : spilledBy q state answer sc.tx = 0 := by
  rw [spilledBy]
  split
  · rfl
  · rename_i bf hproc
    rw [spill]
    split
    · rfl
    · rename_i k hkey
      split
      · rename_i hspill
        rw [Tid.spilled]
        split
        · rename_i hresets
          rw [h.2 bf hproc k hkey hspill.1 hspill.2 hresets]
          rfl
        · rfl
      · rfl

theorem Conserving.lostBy_eq {e : Event} (h : Conserving sc e) : lostBy sc e = 0 := by
  cases e with
  | recvMgmt endpt mh frame =>
      show leaked sc mh = 0
      rw [leaked]
      split
      · rename_i hfree hfind
        rcases h with hnil | hnode
        · cases hfree.symm.trans hnil
        · exact absurd hfind hnode
      · rfl
  | processq q state answer => exact h.spill_eq
  | nodeCreate cmd =>
      rw [lostBy]
      split
      · rename_i hlt
        apply List.sum_eq_zero
        intro x hx
        obtain ⟨t, -, rfl⟩ := List.mem_map.mp hx
        rw [dropped]
        split
        · rfl
        · rename_i hc
          rw [h (⟨cmd.niNodeindex, hlt⟩, t) rfl (by simpa using hc)]
          rfl
      · rfl
  | _ => rfl

/-- A run of steps that lose nothing. -/
theorem fine_of_conserving (steps : transmit.StepsWhere Conserving sc sc') (hfine : Fine sc lost) :
    Fine sc' lost ∧ sc'.tx.ledger.total ⟨[], [], lost⟩ = sc.tx.ledger.total ⟨[], [], lost⟩ := by
  induction steps with
  | refl => exact ⟨hfine, rfl⟩
  | tail _ last ih =>
      obtain ⟨e, he, hstep⟩ := last
      obtain ⟨hmid, htotal⟩ := ih
      have hnext := step_fine hmid he.settles hstep
      have htrack := step_track hmid he.settles hstep
      rw [he.lostBy_eq, zero_add] at hnext htrack
      exact ⟨hnext, htrack.total.trans htotal⟩

theorem total_idle (s : TxState) : s.ledger.total ⟨[], [], lost⟩ = lost + s.places := by
  rw [Ledger.total, Hand.all, Multiset.coe_nil, zero_add, zero_add]
  rfl

/-- Every buffer allocated at the attachment stays in exactly one place. -/
theorem buffers_conserved {cfg : Config} {rateAnswers : ℕ → RateAnswer}
    (steps : transmit.StepsWhere Conserving (attach cfg rateAnswers) sc) :
    sc.tx.places = Multiset.range cfg.txBufs := by
  have htotal := (fine_of_conserving steps (fine_attach cfg rateAnswers)).2
  rw [total_idle, zero_add] at htotal
  exact htotal.trans (total_attach cfg rateAnswers)

theorem buffers_conserved_run : ∃ sc : Softc, sc.tx.scTxbuf = [3, 0] ∧
    sc.tx.places = Multiset.range 4 := by
  obtain ⟨sc, steps, hfree⟩ := Machine.exists_of_runWhere transmit.Init step Conserving
    (P := fun sc => sc.tx.scTxbuf = [3, 0]) (s := attach smallConfig steadyAnswers)
    [.nodeCreate (createNode 0), .recvMgmt 0 (mgmtTo 0) blankFrame,
      .recvData 0 (dataTo 0) blankFrame, .processq 1 .active sent] (by decide +kernel)
  exact ⟨sc, hfree, buffers_conserved steps⟩

/-- A management frame for a node that is not there costs a buffer. -/
theorem mgmt_frame_loses_buffer :
    ¬ ∀ cfg rateAnswers sc, 0 < cfg.txBufs →
      transmit.StepsWhere (fun _ _ => True) (attach cfg rateAnswers) sc →
      sc.tx.places = Multiset.range cfg.txBufs := by
  intro h
  obtain ⟨sc, hstep⟩ : ∃ sc, step (.recvMgmt 0 (mgmtTo 0) blankFrame)
      (attach smallConfig steadyAnswers) = some sc := ⟨_, rfl⟩
  have hplaces := h smallConfig steadyAnswers sc (by decide)
    (.single ⟨.recvMgmt 0 (mgmtTo 0) blankFrame, trivial, hstep⟩)
  have htrack := step_track (e := .recvMgmt 0 (mgmtTo 0) blankFrame)
    (fine_attach smallConfig steadyAnswers) trivial hstep
  have htotal := htrack.total
  have hlost : lostBy (attach smallConfig steadyAnswers) (.recvMgmt 0 (mgmtTo 0) blankFrame) =
      {1} := by decide +kernel
  rw [hlost, total_idle, hplaces, show (attach smallConfig steadyAnswers).tx.ledger.total
    ⟨[], [], 0⟩ = _ from total_attach ..] at htotal
  have := congrArg Multiset.card htotal
  simp [smallConfig] at this

end Ath9kHtc.Tx
