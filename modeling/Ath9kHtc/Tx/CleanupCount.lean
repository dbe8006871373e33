import Ath9kHtc.Tx.WindowState

/-!
# What a cleanup counts

While a TID waits for the frames of its old window, `incomp` is the number of them at the
hardware, and the last of them ends the wait.
-/

namespace Ath9kHtc.Tx

open Ledger

variable {t : Tier} {sc sc' : Softc} {s : TxState} {k : TidId} {v v₀ : Session} {R F : List Frame}
  {n : ℕ} {f : Frame} {e : Event} {a : Action} {lost : Multiset BufId}

/-- The step completes an element with aggregation frames of the TID. -/
def CompletesAggr (sc : Softc) (e : Event) (k : TidId) (bf : BufId) : Prop :=
  ∃ q state answer, e = .processq q state answer ∧ processed q state answer sc.tx = some bf ∧
    (sc.tx.buf bf).bfComp = some .aggr ∧ keyOf (sc.tx.buf bf) = some k

/-- The step completes an element with all the frames that the cleanup of the TID counts. -/
def CompletesLast (sc : Softc) (e : Event) (k : TidId) : Prop :=
  ∃ bf, CompletesAggr sc e k bf ∧ ((sc.tx.subframes bf).length : Int) = (sc.tx.tid k).incomp

namespace Session

/-- A second cleanup finds nothing to count. -/
theorem Sound.cleanUp_busy (h : v.Sound t R F n) (hc : v.cleanup = true) :
    v.stopAggr.cleanUp.cleanup = true ∧ v.stopAggr.cleanUp.air = v.air ∧
      v.stopAggr.cleanUp.incomp = v.incomp := by
  obtain ⟨-, hsize, rfl, -⟩ := h.busy hc
  have hwin : v.win.head = v.win.tail := (h.valid.size_eq_zero).mp hsize
  have hqueue : v.queue = F := h.queue_eq
  have hflush : (discard v.stopAggr.win v.stopAggr.queue).flush 4096 128 128 = (0, v.win) := by
    show (discard v.win v.queue).flush 4096 128 128 = (0, v.win)
    rw [hqueue, discard_fresh _ h.fresh, SlidingWindow.flush, if_pos hwin]
  rw [Session.cleanUp, hflush]
  refine ⟨?_, rfl, rfl⟩
  show (v.cleanup || decide ((0 : ℕ) ≠ 0)) = true
  rw [hc]
  rfl

end Session

/-- Where a cleanup stands in the middle of a step, `v₀` being the session before the step. -/
inductive CleanupAt (sc : Softc) (e : Event) (k : TidId) (v₀ v : Session) : Prop
  | running : v.cleanup = true → v.air ≤ v₀.air →
      ((¬∃ bf, CompletesAggr sc e k bf) → v.incomp = v₀.incomp) → CleanupAt sc e k v₀ v
  | ended : v.cleanup = false → CompletesLast sc e k → CleanupAt sc e k v₀ v

theorem countDown_incomp_eq_one (h : v.Sound t R F n) (hc : v.cleanup = true)
    (hzero : (v.land f).countDown.incomp = 0) : v.incomp = 1 := by
  have := h.countDown_incomp (f := f) hc
  omega

theorem CleanupAt.completed (h : v.Sound t R F n) (hc : v.cleanup = true)
    (hair : v.air ≤ v₀.air) {bf : BufId} (hbf : CompletesAggr sc e k bf)
    (hlast : v.incomp = 1 → CompletesLast sc e k) :
    CleanupAt sc e k v₀ (v.land f).completed := by
  have hair' : (v.land f).air ≤ v₀.air := (Multiset.erase_le _ _).trans hair
  rw [Session.completed]
  split
  · exact .running hc hair' fun hno => absurd ⟨bf, hbf⟩ hno
  · have hone := countDown_incomp_eq_one h hc (not_not.mp ‹_›)
    split
    · exact .ended rfl (hlast hone)
    · exact .ended rfl (hlast hone)

theorem CleanupAt.completedSubframe (h : v.Sound t R F n) (hc : v.cleanup = true)
    (hair : v.air ≤ v₀.air) {bf : BufId} (hbf : CompletesAggr sc e k bf)
    (hlast : v.incomp = 1 → CompletesLast sc e k) :
    CleanupAt sc e k v₀ (v.land f).completedSubframe := by
  have hair' : (v.land f).air ≤ v₀.air := (Multiset.erase_le _ _).trans hair
  rw [Session.completedSubframe]
  split
  · have hone := countDown_incomp_eq_one h hc ‹_›
    exact .ended rfl (hlast hone)
  · exact .running hc hair' fun hno => absurd ⟨bf, hbf⟩ hno

/-- A frame that was sent alone has no subframes. -/
theorem subframes_of_single {q : QueueId} {state : TxqState} {answer : Option TxStat}
    {bf : BufId} (hwf : sc.tx.ledger.WF ⟨[], [], lost⟩)
    (hproc : processed q state answer sc.tx = some bf)
    (hcomp : (sc.tx.buf bf).bfComp = some .aggr) (haggr : (sc.tx.buf bf).bfIsaggr = false) :
    sc.tx.subframes bf = [bf] := by
  have hmem : bf ∈ sc.tx.ledger.hwq q := by
    rw [processed] at hproc
    split at hproc
    · cases hproc
    · exact List.mem_of_head? hproc
  have hel := hwf.onHw q bf hmem
  have hlt : bf < sc.tx.ledger.txBufs := by
    apply hwf.lt
    refine Multiset.mem_add.mpr (.inr (mem_places.mpr (.inr (.inr (.inr ?_)))))
    exact mem_onHw.mpr ⟨q, bf, hmem, hel.mem_subframes⟩
  rcases hel.kind with ⟨hnone, -⟩ | ⟨k', -, halone⟩ | ⟨k', -, -, hnext⟩
  · cases hnone.symm.trans hcomp
  · rcases halone.comp with h | h <;> cases h.symm.trans hcomp
  · exact subframesOf_of_next hlt (hnext haggr)

/-- One action of a step that starts during a cleanup. -/
theorem CleanupAt.act (hfine : Fine sc lost) (hd : Disciplined .clear sc e)
    (hc₀ : (sc.tx.tid k).cleanupInprogres = true) (hsound : v.IsSound .clear)
    (h : CleanupAt sc e k (sc.tx.view k) v) (hok : Allowed sc e k v a) (hcan : v.Can a) :
    CleanupAt sc e k (sc.tx.view k) (v.act a) := by
  obtain ⟨R, F, n, hs⟩ := hsound
  have horderly := hok.orderly hd
  cases h with
  | running hc hair hincomp =>
      have hbusy := hs.busy hc
      have hpaused : v.paused ≠ false := by
        rw [hbusy.1]
        decide
      have hquiet : v.cleanup ≠ false := by
        rw [hc]
        decide
      rcases hok with hsafe | hrisk
      · cases a with
        | sendQueued => exact absurd hcan.2.1 hpaused
        | retire f => exact absurd hcan.1 hquiet
        | retry f => exact absurd hcan.1 hquiet
        | prepend => exact .running hc hair hincomp
        | pause => exact .running hc hair hincomp
        | enable => exact .running hc hair hincomp
        | postpone => exact .running hc hair hincomp
        | _ => exact False.elim hsafe
      · cases hrisk with
        | send hfind htid hsends =>
            rcases hsends with ⟨-, rfl⟩ | ⟨-, rfl | rfl⟩
            · exact .running hc hair hincomp
            · exact absurd hcan.2.1 hpaused
            · exact .running hc hair hincomp
        | @complete q state answer bf _ _ hproc hkey hcomp =>
            cases hcomp with
            | other => exact horderly.elim
            | resume => exact absurd horderly hquiet
            | teardown =>
                obtain ⟨hc', hair', hincomp'⟩ := hs.cleanUp_busy hc
                exact .running hc' (hair'.trans_le hair) fun hno => hincomp'.trans (hincomp hno)
            | single hcomp haggr _ =>
                have hbf : CompletesAggr sc (.processq q state answer) k bf :=
                  ⟨q, state, answer, rfl, hproc, hcomp, hkey⟩
                refine .completed hs hc hair hbf fun hone => ⟨bf, hbf, ?_⟩
                rw [subframes_of_single hfine.wf hproc hcomp haggr]
                exact hone.symm
        | @subframe q state answer bf _ _ _ hproc hkey hsub =>
            have hbf : CompletesAggr sc (.processq q state answer) k bf :=
              ⟨q, state, answer, rfl, hproc, hsub.comp, hkey⟩
            exact .completedSubframe hs hc hair hbf fun hone => ⟨bf, hbf, (hsub.last hone).symm⟩
        | drain =>
            have hcount := hs.exact_count (by decide) hc
            rw [hcan.1, Multiset.card_zero] at hcount
            have := hbusy.2.2.2.2.1
            omega
        | disable =>
            obtain ⟨hc', hair', hincomp'⟩ := hs.cleanUp_busy hc
            exact .running hc' (hair'.trans_le hair) fun hno => hincomp'.trans (hincomp hno)
        | init _ hnot => exact absurd (hc₀.symm.trans hnot) (by decide)
  | ended hc hlast =>
      obtain ⟨bf, ⟨q, state, answer, rfl, hproc, hcomp, hkey⟩, hlen⟩ := hlast
      have hlast : CompletesLast sc (.processq q state answer) k :=
        ⟨bf, ⟨q, state, answer, rfl, hproc, hcomp, hkey⟩, hlen⟩
      have hquiet : v.cleanup ≠ true := by
        rw [hc]
        decide
      rcases hok with hsafe | hrisk
      · cases a with
        | sendQueued =>
            refine .ended ?_ hlast
            exact Session.sendQueued_cases (P := fun v => v.cleanup = false) hc fun _ _ => hc
        | retire f => exact .ended hc hlast
        | retry f => exact .ended hc hlast
        | prepend => exact .ended hc hlast
        | pause => exact .ended hc hlast
        | enable => exact .ended hc hlast
        | postpone => exact absurd hcan hquiet
        | _ => exact False.elim hsafe
      · cases hrisk with
        | complete hproc' _ hcomp' =>
            obtain rfl := Option.some_inj.mp (hproc.symm.trans hproc')
            cases hcomp' with
            | other h => cases hcomp.symm.trans h
            | resume h => cases hcomp.symm.trans h
            | teardown h => cases hcomp.symm.trans h
            | single _ _ hc' => exact absurd hcan.1 hquiet
        | subframe => exact absurd hcan.1 hquiet

/-- A cleanup after a step that started during it. -/
theorem cleanupAt_step (h : transmit.ReachableWhere (Disciplined .clear) sc)
    (hd : Disciplined .clear sc e) (hstep : step e sc = some sc')
    (hc : (sc.tx.tid k).cleanupInprogres = true) :
    CleanupAt sc e k (sc.tx.view k) (sc'.tx.view k) := by
  obtain ⟨⟨lost, hfine⟩, hsound⟩ := reachable_sound h
  have htrack := step_track hfine (settles_of_sound hfine hsound e) hstep
  refine (Session.steps_invariant (G := Allowed sc e k)
    (P := fun v => v.IsSound .clear ∧ CleanupAt sc e k (sc.tx.view k) v)
    (fun v a hv hok hcan => ⟨hv.1.act hcan (hok.orderly hd), hv.2.act hfine hd hc hv.1 hok hcan⟩)
    ⟨hsound k, ?_⟩ (htrack.runs k)).2
  exact .running hc le_rfl fun _ => rfl

/-- The aggregation frames of a TID at the hardware, every subframe of an aggregate by itself. -/
def TxState.airborne (s : TxState) (k : TidId) : Multiset Frame := s.ledger.hwAir k

/-- The cleanup of a TID waits for the frames it counts. -/
structure CleanupCounts (s : TxState) (k : TidId) : Prop where
  counts : (s.tid k).incomp = (s.airborne k).card
  pos : 0 < (s.tid k).incomp
  paused : (s.tid k).paused = true

/-- What a step does to a TID that was in cleanup before it.  The frames counted are gone
when the cleanup ends, and frames that are at the hardware then were sent since. -/
structure CleanupStep (sc : Softc) (e : Event) (sc' : Softc) (k : TidId) : Prop where
  before : CleanupCounts sc.tx k
  going : (sc'.tx.tid k).cleanupInprogres = true →
    CleanupCounts sc'.tx k ∧ sc'.tx.airborne k ≤ sc.tx.airborne k
  others : (¬∃ bf, CompletesAggr sc e k bf) →
    (sc'.tx.tid k).cleanupInprogres = true ∧ (sc'.tx.tid k).incomp = (sc.tx.tid k).incomp
  last : (sc'.tx.tid k).cleanupInprogres = false → CompletesLast sc e k
  window : (sc'.tx.tid k).cleanupInprogres = false → ∀ f ∈ sc'.tx.airborne k,
    bawWithin (sc'.tx.tid k).seqStart (sc'.tx.tid k).bawSize f.seq = true

theorem cleanupCounts_of_sound (h : (s.view k).IsSound .clear)
    (hc : (s.tid k).cleanupInprogres = true) : CleanupCounts s k := by
  obtain ⟨R, F, n, h⟩ := h
  obtain ⟨hpaused, -, -, -, hpos, -⟩ := h.busy hc
  have hcount := h.exact_count (by decide) hc
  rw [view_air] at hcount
  exact ⟨hcount, hpos, hpaused⟩

/-- Outside a cleanup every aggregation frame at the hardware lies in the window. -/
theorem airborne_within (h : (s.view k).IsSound t) (hc : (s.tid k).cleanupInprogres = false)
    {f : Frame} (hf : f ∈ s.airborne k) :
    bawWithin (s.tid k).seqStart (s.tid k).bawSize f.seq = true := by
  obtain ⟨R, F, n, h⟩ := h
  have hmem : f.seq ∈ (s.view k).numbers R := by
    refine Multiset.mem_map_of_mem _ (Multiset.mem_add.mpr (.inl (Multiset.mem_add.mpr (.inl ?_))))
    rw [view_air]
    exact hf
  exact bawWithin_iff.mpr (((h.holds hc).within _ hmem).trans_le h.size_le)

/-- On every run of the clear tier a cleanup counts the frames of the old window exactly. -/
theorem cleanup_counts (h : transmit.ReachableWhere (Disciplined .clear) sc)
    (hd : Disciplined .clear sc e) (hstep : step e sc = some sc')
    (hc : (sc.tx.tid k).cleanupInprogres = true) : CleanupStep sc e sc' k := by
  have hafter := (reachable_sound (h.step hd hstep)).2 k
  have hat := cleanupAt_step h hd hstep hc
  refine ⟨cleanupCounts_of_sound ((reachable_sound h).2 k) hc, fun hc' => ?_, fun hno => ?_,
    fun hc' => ?_, fun hc' f hf => airborne_within hafter hc' hf⟩
  · refine ⟨cleanupCounts_of_sound hafter hc', ?_⟩
    cases hat with
    | running _ hair _ =>
        rw [view_air, view_air] at hair
        exact hair
    | ended hnot _ => exact absurd (hc'.symm.trans hnot) (by decide)
  · cases hat with
    | running hc' _ hincomp => exact ⟨hc', hincomp hno⟩
    | ended _ hlast => exact absurd ⟨hlast.choose, hlast.choose_spec.1⟩ hno
  · cases hat with
    | running hnot _ _ => exact absurd (hc'.symm.trans hnot) (by decide)
    | ended _ hlast => exact hlast

/-- A frame at the hardware whose TID is switched off, and one that follows it. -/
def cleanupEvents : List Event :=
  [.nodeCreate (createNode 0), .enableAggr 0 0 true, .recvData 0 (dataTo 0) blankFrame,
    .enableAggr 0 0 false, .recvData 0 (dataTo 0) blankFrame]

theorem cleanup_counts_run : ∃ sc sc', (sc.tx.tid (0, 0)).incomp = 1 ∧
    (sc'.tx.tid (0, 0)).cleanupInprogres = false ∧
    CleanupStep sc (.processq 0 .active sent) sc' (0, 0) := by
  obtain ⟨sc, steps, hc, hincomp, hd, hend⟩ := Machine.exists_of_runWhere transmit.Init step
    (Disciplined .clear)
    (P := fun sc => (sc.tx.tid (0, 0)).cleanupInprogres = true ∧
      (sc.tx.tid (0, 0)).incomp = 1 ∧ Disciplined .clear sc (.processq 0 .active sent) ∧
      (step (.processq 0 .active sent) sc).any (fun sc' =>
        !(sc'.tx.tid (0, 0)).cleanupInprogres) = true)
    (s := attach smallConfig steadyAnswers) cleanupEvents (by decide +kernel)
  obtain ⟨sc', hstep, hend⟩ := (Option.any_eq_true _ _).mp hend
  exact ⟨sc, sc', hincomp, by simpa using hend,
    cleanup_counts ⟨_, ⟨_, _, by decide, rfl⟩, steps⟩ hd hstep hc⟩

/-- A frame sent without aggregation is behind the window when the cleanup ends. -/
theorem frame_behind_window : ¬ ∀ sc e sc' k, transmit.Reachable sc → step e sc = some sc' →
    (sc.tx.tid k).cleanupInprogres = true → (sc'.tx.tid k).cleanupInprogres = false →
    ∀ q, ∀ el ∈ (sc'.tx.txq q).axqQ, ∀ b ∈ sc'.tx.subframes el, keyOf (sc'.tx.buf b) = some k →
      bawWithin (sc'.tx.tid k).seqStart (sc'.tx.tid k).bawSize
        (seqnoFromBfSeqno (sc'.tx.buf b).bfSeqno) = true := by
  intro h
  obtain ⟨sc, steps, hc, hend⟩ := Machine.exists_of_runWhere transmit.Init step
    (fun _ _ => True)
    (P := fun sc => (sc.tx.tid (0, 0)).cleanupInprogres = true ∧
      (step (.processq 0 .active sent) sc).any (fun sc' =>
        !(sc'.tx.tid (0, 0)).cleanupInprogres && decide ((sc'.tx.txq 0).axqQ = [2]) &&
        decide (2 ∈ sc'.tx.subframes 2) && decide (keyOf (sc'.tx.buf 2) = some (0, 0)) &&
        !bawWithin (sc'.tx.tid (0, 0)).seqStart (sc'.tx.tid (0, 0)).bawSize
          (seqnoFromBfSeqno (sc'.tx.buf 2).bfSeqno)) = true)
    (s := attach smallConfig steadyAnswers) cleanupEvents (by decide +kernel)
  obtain ⟨sc', hstep, hend⟩ := (Option.any_eq_true _ _).mp hend
  simp only [Bool.and_eq_true, Bool.not_eq_true', decide_eq_true_eq] at hend
  obtain ⟨⟨⟨⟨hc', hq⟩, hmem⟩, hkey⟩, hout⟩ := hend
  have := h sc _ sc' (0, 0) ⟨_, ⟨_, _, by decide, rfl⟩, steps⟩ hstep hc hc' 0 2
    (by rw [hq]; exact List.mem_singleton_self 2) 2 hmem hkey
  rw [hout] at this
  cases this

end Ath9kHtc.Tx
