import Ath9kHtc.Rate.Control

/-!
# Packet error rates

Along every run the PER of a rate is a percentage, and of two neighbours of one phy the higher rate
has the higher PER.
-/

namespace Ath9kHtc.Rate

/-- No more subframes are bad than were sent. -/
def CountsFrames (_ : RatedNode) : Event → Prop
  | .update _ _ _ _ nFrames nBad => nBad ≤ nFrames
  | _ => True

instance decidableCountsFrames (rc : RatedNode) :
    (event : Event) → Decidable (CountsFrames rc event)
  | .update _ _ _ _ _ _ => inferInstanceAs (Decidable (_ ≤ _))
  | .newassoc _ _ => inferInstanceAs (Decidable True)
  | .findRate _ _ => inferInstanceAs (Decidable True)

def RateConfig.phy (cfg : RateConfig) (rate : ℕ) : WlanPhy := (cfg.table.info rate).phy

/-- The PERs of a node are percentages, in order. -/
structure PerOrdered (cfg : RateConfig) (an : AtherosNode) : Prop where
  percentage : ∀ rate, an.per rate ≤ 100
  rising : Sweep.Rising cfg.phy an.rateTableSize an.per

theorem PerOrdered.of_eq {cfg : RateConfig} {an an' : AtherosNode} (h : PerOrdered cfg an)
    (hper : an'.per = an.per) (hsize : an'.rateTableSize = an.rateTableSize) :
    PerOrdered cfg an' := by
  constructor
  · rw [hper]
    exact h.percentage
  · rw [hper, hsize]
    exact h.rising

section

variable {cfg : RateConfig} {an an' : AtherosNode} {nowMsec : BitVec 32}
variable {txRate retries nFrames nBad : ℕ} {Xretries : Int}

/-! ## One frame -/

theorem averagedPer_le {per eighth : ℕ} (hper : per ≤ 100) (height : eighth ≤ 12) :
    averagedPer per eighth ≤ 100 := by
  unfold averagedPer
  omega

/-- Bad subframes and retries together are no more than all attempts. -/
theorem attempts_le (h : nBad ≤ nFrames) :
    100 * (retries * nFrames + nBad) / (nFrames * (retries + 1)) ≤ 100 := by
  have hle : retries * nFrames + nBad ≤ nFrames * (retries + 1) := by
    rw [Nat.mul_succ, Nat.mul_comm nFrames]
    exact Nat.add_le_add_left h _
  apply Nat.div_le_of_le_mul
  rw [Nat.mul_comm]
  exact Nat.mul_le_mul_right 100 hle

theorem nRetry2PerLookup_le (retries : ℕ) : nRetry2PerLookup.getD retries 0 ≤ 90 := by
  have hall : ∀ per ∈ nRetry2PerLookup, per ≤ 90 := by decide
  rw [List.getD_eq_getElem?_getD]
  cases hget : nRetry2PerLookup[retries]? with
  | none => exact Nat.zero_le _
  | some per => exact hall per (List.mem_of_getElem? hget)

theorem measuredPer_le {per : ℕ} (hper : per ≤ 100) (h : nBad ≤ nFrames) :
    measuredPer Xretries retries nFrames nBad per ≤ 100 := by
  unfold measuredPer
  split
  · split
    · split <;> omega
    · exact averagedPer_le hper (by decide)
  · split
    · split
      · have hall : 100 * (retries * nFrames + nBad) / (nFrames * (retries + 1)) ≤ 100 :=
          attempts_le h
        apply averagedPer_le hper
        omega
      · exact hper
    · have hlookup := nRetry2PerLookup_le retries
      apply averagedPer_le hper
      omega

theorem settleProbe_per (hper : an.per txRate ≤ 100) : ∃ v ≤ 100,
    (settleProbe cfg nowMsec txRate retries nFrames nBad an).per =
      Function.update an.per txRate v := by
  unfold settleProbe
  split
  · rename_i hprobe
    split
    · exact ⟨an.per txRate, hper, (Function.update_eq_self _ _).symm⟩
    · dsimp only
      split
      · refine ⟨20, by decide, ?_⟩
        rw [← hprobe.2]
        rfl
      · exact ⟨an.per txRate, hper, (Function.update_eq_self _ _).symm⟩
  · exact ⟨an.per txRate, hper, (Function.update_eq_self _ _).symm⟩

theorem countRetryFree_per (an : AtherosNode) :
    (countRetryFree txRate retries an).per = an.per := by
  unfold countRetryFree
  split
  · rfl
  · split <;> rfl

/-- A frame changes the PER of its own rate only. -/
theorem noteOutcome_per (hper : an.per txRate ≤ 100) (h : nBad ≤ nFrames) : ∃ v ≤ 100,
    (noteOutcome cfg nowMsec txRate Xretries retries nFrames nBad an).per =
      Function.update an.per txRate v := by
  set v := measuredPer Xretries (clampRetries retries) nFrames nBad (an.per txRate) with hv
  have hle : v ≤ 100 := measuredPer_le hper h
  unfold noteOutcome
  dsimp only
  rw [← hv]
  split
  · refine ⟨v, hle, ?_⟩
    split <;> rfl
  · have hown : (an.setPer txRate v).per txRate ≤ 100 := by
      simp only [AtherosNode.setPer, Function.update_self]
      exact hle
    obtain ⟨w, hw, heq⟩ : ∃ w ≤ 100, (settleProbe cfg nowMsec txRate (clampRetries retries) nFrames
        nBad (an.setPer txRate v)).per = Function.update (an.setPer txRate v).per txRate w :=
      settleProbe_per hown
    refine ⟨w, hw, ?_⟩
    rw [countRetryFree_per, heq]
    simp only [AtherosNode.setPer, Function.update_idem]

theorem noteOutcome_rateTableSize (an : AtherosNode) :
    (noteOutcome cfg nowMsec txRate Xretries retries nFrames nBad an).rateTableSize =
      an.rateTableSize := by
  unfold noteOutcome countRetryFree settleProbe
  dsimp only [AtherosNode.setPer]
  repeat' split
  all_goals rfl

theorem backOff_per (an : AtherosNode) :
    (backOff cfg nowMsec txRate an).per = an.per ∧
      (backOff cfg nowMsec txRate an).rateTableSize = an.rateTableSize := by
  unfold backOff
  split <;> exact ⟨rfl, rfl⟩

/-! ## The loops -/

/-- Whatever the frame's own rate has come to, the two loops put the neighbours in order. -/
theorem PerOrdered.keepMonotone (h : PerOrdered cfg an) {v : ℕ} (hv : v ≤ 100)
    (hper : an'.per = Function.update an.per txRate v)
    (hsize : an'.rateTableSize = an.rateTableSize) :
    PerOrdered cfg (keepMonotone cfg txRate (an.per txRate) an') := by
  have hpercentage : ∀ rate, an'.per rate ≤ 100 := by
    intro rate
    rw [hper]
    by_cases hrate : rate = txRate
    · subst hrate
      rwa [Function.update_self]
    · rw [Function.update_of_ne hrate]
      exact h.percentage rate
  have hown : an'.per txRate = v := by
    rw [hper, Function.update_self]
  have hend : an'.rateTableSize ≤ txRate + (an'.rateTableSize - 1 - txRate) + 1 := by omega
  unfold Rate.keepMonotone
  rw [hown]
  constructor
  · intro rate
    apply Sweep.raiseAbove_le
    intro r
    split
    · exact Sweep.lowerBelow_le _ _ hpercentage r
    · exact hpercentage r
  · apply Sweep.RisingBut.raiseAbove hend
    have hrising := h.rising
    rw [← hsize] at hrising
    split
    · rename_i hlt
      have hbut := hrising.update_le hlt.le
      rw [← hper] at hbut
      have hlow := hbut.lowerBelow (fun _ => Iff.rfl) rfl
      exact fun r hr hcls _ => hlow r hr hcls
    · rename_i hge
      have hbut := hrising.update_ge (Nat.le_of_not_lt hge)
      rwa [← hper] at hbut

theorem PerOrdered.decayPer (h : PerOrdered cfg an) : PerOrdered cfg (decayPer cfg nowMsec an) := by
  unfold Rate.decayPer
  split
  · constructor
    · intro rate
      have hle := h.percentage rate
      dsimp only
      split <;> omega
    · have hmono : Monotone fun per : ℕ => 7 * per / 8 := by
        intro a b hab
        exact Nat.div_le_div_right (Nat.mul_le_mul_left 7 hab)
      exact h.rising.map hmono
  · exact h

theorem PerOrdered.rcUpdateHt (h : PerOrdered cfg an) (hbad : nBad ≤ nFrames)
    (hupdate : rcUpdateHt cfg nowMsec txRate Xretries retries nFrames nBad an = some an') :
    PerOrdered cfg an' := by
  simp only [Rate.rcUpdateHt, Option.ite_none_left_eq_some, Option.some.injEq] at hupdate
  obtain ⟨-, rfl⟩ := hupdate
  obtain ⟨v, hv, hper⟩ : ∃ v ≤ 100, (noteOutcome cfg nowMsec txRate Xretries retries nFrames nBad
      an).per = Function.update an.per txRate v :=
    noteOutcome_per (h.percentage txRate) hbad
  apply PerOrdered.decayPer
  apply h.keepMonotone hv
  · rw [(backOff_per _).1, hper]
  · rw [(backOff_per _).2, noteOutcome_rateTableSize]

/-! ## Runs -/

theorem rcSibUpdateHt_perOrdered {capflag : BitVec 32} {rs : RateSet}
    (h : rcSibUpdateHt cfg capflag rs an = some an') : PerOrdered cfg an' := by
  simp only [rcSibUpdateHt, Option.ite_none_left_eq_some, Option.some.injEq] at h
  obtain ⟨-, rfl⟩ := h
  exact ⟨fun _ => Nat.zero_le _, fun _ _ _ => le_rfl⟩

theorem rcRateFindHt_per {probeAllowed : Bool} (an : AtherosNode) :
    (rcRateFindHt cfg nowMsec probeAllowed an).node.per = an.per ∧
      (rcRateFindHt cfg nowMsec probeAllowed an).node.rateTableSize = an.rateTableSize := by
  unfold rcRateFindHt chooseRate
  dsimp only
  split
  · split <;> exact ⟨rfl, rfl⟩
  · exact ⟨rfl, rfl⟩

end

theorem step_perOrdered {cfg : RateConfig} {rc rc' : RatedNode} {event : Event}
    (h : rc.rated = true → PerOrdered cfg rc.node) (hok : CountsFrames rc event)
    (hstep : step cfg event rc = some rc') : PerOrdered cfg rc'.node := by
  cases event with
  | newassoc capflag rs =>
      obtain ⟨an, hassoc, rfl⟩ := Option.map_eq_some_iff.mp hstep
      exact rcSibUpdateHt_perOrdered hassoc
  | findRate nowMsec probeAllowed =>
      simp only [step, Option.ite_none_right_eq_some, Option.some.injEq] at hstep
      obtain ⟨hrated, rfl⟩ := hstep
      exact (h hrated).of_eq (rcRateFindHt_per rc.node).1 (rcRateFindHt_per rc.node).2
  | update nowMsec txRate Xretries retries nFrames nBad =>
      simp only [step, Option.ite_none_right_eq_some] at hstep
      obtain ⟨hrated, hupdate⟩ := hstep
      obtain ⟨an, hrun, rfl⟩ := Option.map_eq_some_iff.mp hupdate
      exact (h hrated).rcUpdateHt hok hrun

/-- Every PER is a percentage, and neighbours of one phy are in order. -/
theorem per_table_ordered {cfg : RateConfig} {rc : RatedNode}
    (h : (rateControl cfg).ReachableWhere CountsFrames rc) (hrated : rc.rated = true) :
    (∀ rate, rc.node.per rate ≤ 100) ∧
      ∀ rate, rate + 1 < rc.node.rateTableSize →
        (cfg.table.info rate).phy = (cfg.table.info (rate + 1)).phy →
        rc.node.per rate ≤ rc.node.per (rate + 1) := by
  have hinv : rc.rated = true → PerOrdered cfg rc.node := by
    refine h.invariant (P := fun rc => rc.rated = true → PerOrdered cfg rc.node) ?_ ?_
    · intro s hinit hs
      exact absurd (hinit.symm.trans hs) (by decide)
    · intro s event s' hs hok hstep _
      exact step_perOrdered hs hok hstep
  have hordered := hinv hrated
  exact ⟨hordered.percentage, hordered.rising⟩

/-! ## Transmit completions -/

section

variable {cfg : RateConfig} {clock : ℕ → BitVec 32} {Xretries : Int}
variable {nFrames nBad : ℕ} {an an' : AtherosNode}

/-- A rated node of the machine. -/
def ratedNode (fresh : Bool) (an : AtherosNode) : RatedNode := ⟨an, true, fresh⟩

theorem rcUpdateHt_stepWhere {nowMsec : BitVec 32} {txRate retries : ℕ} (fresh : Bool)
    (hbad : nBad ≤ nFrames)
    (h : rcUpdateHt cfg nowMsec txRate Xretries retries nFrames nBad an = some an') :
    (rateControl cfg).StepWhere CountsFrames (ratedNode fresh an) (ratedNode fresh an') := by
  refine ⟨.update nowMsec txRate Xretries retries nFrames nBad, hbad, ?_⟩
  simp [rateControl, step, ratedNode, h]

theorem rcUpdateFailed_steps {failed : List Tx.RcSeries} {goesOn : Bool} (fresh : Bool)
    (h : rcUpdateFailed cfg clock Xretries nFrames failed an = some (an', goesOn)) :
    (rateControl cfg).StepsWhere CountsFrames (ratedNode fresh an) (ratedNode fresh an') := by
  induction failed generalizing an with
  | nil =>
      cases h
      exact .refl
  | cons rcs rest ih =>
      rw [rcUpdateFailed] at h
      split at h
      · exact ih h
      split at h
      · cases h
        exact .refl
      · obtain ⟨mid, hupdate, hrest⟩ := Option.bind_eq_some_iff.mp h
        exact .head (rcUpdateHt_stepWhere fresh le_rfl hupdate) (ih hrest)

/-- A completion is a run of updates, one for each series that was tried. -/
theorem rcUpdate11n_steps {finalTSIdx : Fin 4} {rcs : Fin 4 → Tx.RcSeries} {longRetry : ℕ}
    (fresh : Bool) (hbad : nBad ≤ nFrames)
    (h : rcUpdate11n cfg clock finalTSIdx Xretries rcs nFrames nBad longRetry an = some an') :
    (rateControl cfg).StepsWhere CountsFrames (ratedNode fresh an) (ratedNode fresh an') := by
  obtain ⟨⟨mid, goesOn⟩, hfailed, hfinal⟩ := Option.bind_eq_some_iff.mp h
  have hmid := rcUpdateFailed_steps fresh hfailed
  dsimp only at hfinal
  split at hfinal
  · cases hfinal
    exact hmid
  · exact hmid.tail (rcUpdateHt_stepWhere fresh hbad hfinal)

end

/-- Frames at 12 Mb/s fail: its PER rises and takes that of 18 Mb/s with it. -/
theorem per_table_ordered_failing : ∃ rc, (rateControl k2Config).ReachableWhere CountsFrames rc ∧
    rc.node.per 6 = 41 ∧ rc.node.per 6 ≤ rc.node.per 7 := by
  obtain ⟨rc, steps, hrated, hsize, hper⟩ := Machine.exists_of_runWhere
    (fun rc => rc.rated = false) (step k2Config) CountsFrames
    (P := fun rc => rc.rated = true ∧ rc.node.rateTableSize = 10 ∧ rc.node.per 6 = 41)
    (s := clearedNode)
    [.newassoc 0 peer11g, .update 10 6 1 0 1 1, .update 20 6 2 3 1 0, .update 30 6 0 0 2 1]
    (by decide +kernel)
  have hreach : (rateControl k2Config).ReachableWhere CountsFrames rc :=
    .trans (.init (clearedNode_init _)) steps
  obtain ⟨-, hrising⟩ := per_table_ordered hreach hrated
  exact ⟨rc, hreach, hper, hrising 6 (by rw [hsize]; decide) rfl⟩

end Ath9kHtc.Rate
