import Ath9kHtc.Rate.Control
import Mathlib.Data.List.MinMax
import Mathlib.Data.List.Perm.Basic

/-!
# The rate ceiling

The ceiling comes from the rate set, from a probe that went well or from a rate that looked bad.
It is a rate of the current set as long as the probe is one.
-/

namespace Ath9kHtc.Rate

/-- The ceiling and the probe are rates of the current set, and all of these are in the table. -/
structure CeilingUsable (cfg : RateConfig) (an : AtherosNode) : Prop where
  ceiling : an.rateMaxPhy ∈ an.validRateIndex
  probe : an.probeRate ≠ 0 → an.probeRate ∈ an.validRateIndex
  sized : ∀ rate ∈ an.validRateIndex, rate < an.rateTableSize
  carries : ∀ rate ∈ an.validRateIndex, 0 < (cfg.table.info rate).userRateKbps

/-- The rates and the size of the table are those of the node before. -/
def SameRates (an an' : AtherosNode) : Prop :=
  an'.validRateIndex = an.validRateIndex ∧ an'.rateTableSize = an.rateTableSize

section

variable {cfg : RateConfig} {an an' an'' : AtherosNode} {nowMsec : BitVec 32}
variable {txRate retries nFrames nBad : ℕ} {Xretries : Int}

theorem SameRates.refl (an : AtherosNode) : SameRates an an := ⟨rfl, rfl⟩

theorem SameRates.trans (h : SameRates an an') (h' : SameRates an' an'') : SameRates an an'' :=
  ⟨h'.1.trans h.1, h'.2.trans h.2⟩

theorem CeilingUsable.change (h : CeilingUsable cfg an) (hsame : SameRates an an')
    (hceiling : an'.rateMaxPhy ∈ an.validRateIndex)
    (hprobe : an'.probeRate ≠ 0 → an'.probeRate ∈ an.validRateIndex) : CeilingUsable cfg an' := by
  obtain ⟨hvalid, hsize⟩ := hsame
  constructor
  · rwa [hvalid]
  · rwa [hvalid]
  · rw [hvalid, hsize]
    exact h.sized
  · rw [hvalid]
    exact h.carries

/-! ## Rate sets -/

theorem bubble_perm (key : ℕ → ℕ) (i : ℕ) (l : List ℕ) : (bubble key i l).Perm l := by
  fun_induction bubble key i l with
  | case1 l => exact .refl l
  | case2 i a b l hlt ih => exact (ih.cons b).trans (.swap a b l)
  | case3 i a b l hge ih => exact ih.cons a
  | case4 i l _ => exact .refl l

theorem bubbles_perm (key : ℕ → ℕ) (i : ℕ) (l : List ℕ) : (bubbles key i l).Perm l := by
  induction i generalizing l with
  | zero => exact .refl l
  | succ i ih => exact (ih _).trans (bubble_perm key (i + 1) l)

theorem rcSortValidRates_perm (cfg : RateConfig) (l : List ℕ) : (rcSortValidRates cfg l).Perm l :=
  bubbles_perm _ _ l

theorem mem_validRates {stbc : Bool} {capflag : BitVec 32} {rs : RateSet} {rate : ℕ} :
    rate ∈ validRates cfg stbc capflag rs ↔ rate ∈ enteredRates cfg stbc capflag rs := by
  simp [validRates, WlanPhy.mem_all]

theorem enteredRates_lt {stbc : Bool} {capflag : BitVec 32} {rs : RateSet} {rate : ℕ}
    (h : rate ∈ enteredRates cfg stbc capflag rs) : rate < cfg.table.rateCount := by
  unfold enteredRates at h
  split at h
  · exact List.mem_range.mp (List.mem_of_mem_filter h)
  · rcases List.mem_append.mp h with hlegacy | hht
    · obtain ⟨_, -, hmem⟩ := List.mem_flatMap.mp hlegacy
      exact List.mem_range.mp (List.mem_of_mem_filter hmem)
    · split at hht
      · obtain ⟨_, -, hmem⟩ := List.mem_flatMap.mp hht
        exact List.mem_range.mp (List.mem_of_mem_filter hmem)
      · cases hht

theorem fourthHighest_mem {filled : List ℕ} (an : AtherosNode) (h : 4 ≤ filled.length) :
    fourthHighest an filled ∈ filled := by
  rw [fourthHighest, if_pos h, List.getD_eq_getElem?_getD, List.getElem?_eq_getElem (by omega)]
  exact List.getElem_mem _

/-- A set of four rates or more gives a usable ceiling, if no probe is out. -/
theorem rcSibUpdateHt_usable {capflag : BitVec 32} {rs : RateSet}
    (h : rcSibUpdateHt cfg capflag rs an = some an')
    (hfour : 4 ≤ (validRates cfg an.stbc capflag rs).length) (hprobe : an.probeRate = 0) :
    CeilingUsable cfg an' := by
  simp only [rcSibUpdateHt, Option.ite_none_left_eq_some, Option.some.injEq] at h
  obtain ⟨-, rfl⟩ := h
  have hsorted := rcSortValidRates_perm cfg (validRates cfg an.stbc capflag rs)
  constructor
  · exact hsorted.mem_iff.mpr (fourthHighest_mem an hfour)
  · exact fun hne => absurd hprobe hne
  · intro rate hrate
    have hentered := mem_validRates.mp (hsorted.mem_iff.mp hrate)
    exact Nat.lt_succ_of_le (List.le_max_of_le' 0 hentered le_rfl)
  · intro rate hrate
    have hentered := mem_validRates.mp (hsorted.mem_iff.mp hrate)
    exact cfg.table.userRateKbps_pos (enteredRates_lt hentered)

/-! ## Neighbours in the set -/

theorem rcGetNextValidTxRate_mem {cur next : ℕ} {l : List ℕ}
    (h : rcGetNextValidTxRate cur l = some next) : next ∈ l := by
  fun_induction rcGetNextValidTxRate cur l with
  | case1 b l =>
      obtain rfl := Option.some.inj h
      simp
  | case2 a b l hne ih => exact List.mem_cons_of_mem a (ih h)
  | case3 => cases h

theorem rcGetNextLowerValidTxRate_mem {cur next : ℕ} {l : List ℕ}
    (h : rcGetNextLowerValidTxRate cur l = some next) : next ∈ l := by
  fun_induction rcGetNextLowerValidTxRate cur l with
  | case1 a l =>
      obtain rfl := Option.some.inj h
      simp
  | case2 a b l hne ih => exact List.mem_cons_of_mem a (ih h)
  | case3 => cases h

/-! ## Selection -/

/-- Once a rate was found, only rates of the list replace it. -/
theorem findBest_mem (cfg : RateConfig) (an : AtherosNode) (l : List ℕ) (best : ℕ × ℕ) :
    (findBest cfg an l best).2 = best.2 ∨ (findBest cfg an l best).2 ∈ l := by
  induction l generalizing best with
  | nil => exact .inl rfl
  | cons rate rest ih =>
      have hkept := (ih best).imp_right (List.mem_cons_of_mem rate)
      rw [findBest]
      split
      · exact hkept
      split
      · exact .inl rfl
      split
      · rcases ih (thruput cfg an rate, rate) with heq | hmem
        · apply Or.inr
          rw [heq]
          exact List.mem_cons_self
        · exact .inr (List.mem_cons_of_mem rate hmem)
      · exact hkept

/-- The ceiling itself is found at the latest. -/
theorem findBest_of_ceiling {l : List ℕ} (bestRate : ℕ) (hceiling : an.rateMaxPhy ∈ l)
    (hcarries : ∀ rate ∈ l, 0 < (cfg.table.info rate).userRateKbps) :
    (findBest cfg an l (0, bestRate)).2 ∈ l := by
  induction l with
  | nil => cases hceiling
  | cons rate rest ih =>
      rw [findBest]
      by_cases habove : an.rateMaxPhy < rate
      · rw [if_pos habove]
        have hrest : an.rateMaxPhy ∈ rest :=
          (List.mem_cons.mp hceiling).resolve_left (Nat.ne_of_lt habove)
        apply List.mem_cons_of_mem
        exact ih hrest fun r hr => hcarries r (List.mem_cons_of_mem rate hr)
      · have hpos := hcarries rate List.mem_cons_self
        rw [if_neg habove, if_neg (Nat.not_le_of_lt hpos), if_pos (Nat.zero_le _)]
        rcases findBest_mem cfg an rest (thruput cfg an rate, rate) with heq | hmem
        · rw [heq]
          exact List.mem_cons_self
        · exact List.mem_cons_of_mem rate hmem

theorem probeDue_mem {next : ℕ} (h : probeDue cfg nowMsec an = some next) :
    next ∈ an.validRateIndex := by
  simp only [probeDue, Option.ite_none_right_eq_some] at h
  exact rcGetNextValidTxRate_mem h.2

/-- The rate that is chosen, and the node with the probe noted. -/
theorem CeilingUsable.chooseRate (h : CeilingUsable cfg an) (nowMsec : BitVec 32)
    (probeAllowed : Bool) {best : ℕ} (hbest : best ∈ an.validRateIndex) :
    (chooseRate cfg nowMsec probeAllowed best an).rate ∈ an.validRateIndex ∧
      SameRates an (chooseRate cfg nowMsec probeAllowed best an).node ∧
      CeilingUsable cfg (chooseRate cfg nowMsec probeAllowed best an).node := by
  unfold Rate.chooseRate
  split
  · cases hdue : probeDue cfg nowMsec an with
    | some nextRate =>
        have hnext := probeDue_mem hdue
        have hsame : SameRates an { an with
            probeRate := nextRate, probeTime := nowMsec, hwMaxRetryPktCnt := 0 } := ⟨rfl, rfl⟩
        exact ⟨hnext, hsame, h.change hsame h.ceiling fun _ => hnext⟩
    | none => exact ⟨h.ceiling, .refl an, h⟩
  · exact ⟨hbest, .refl an, h⟩

/-- Selection returns a rate of the set. -/
theorem CeilingUsable.rcRateFindHt (h : CeilingUsable cfg an) (nowMsec : BitVec 32)
    (probeAllowed : Bool) :
    (rcRateFindHt cfg nowMsec probeAllowed an).rate ∈ an.validRateIndex ∧
      CeilingUsable cfg (rcRateFindHt cfg nowMsec probeAllowed an).node := by
  have hbest : (findBest cfg an an.validRateIndex.reverse (0, 0)).2 ∈ an.validRateIndex := by
    rw [← List.mem_reverse]
    apply findBest_of_ceiling 0
    · exact List.mem_reverse.mpr h.ceiling
    · exact fun rate hrate => h.carries rate (List.mem_reverse.mp hrate)
  obtain ⟨hrate, hsame, husable⟩ := h.chooseRate nowMsec probeAllowed hbest
  have hbelow := h.sized _ hrate
  unfold Rate.rcRateFindHt
  dsimp only
  rw [if_neg (by omega)]
  refine ⟨hrate, ?_⟩
  split
  · exact husable
  · exact ⟨husable.ceiling, husable.probe, husable.sized, husable.carries⟩

/-! ## Completions -/

theorem CeilingUsable.settleProbe (h : CeilingUsable cfg an) :
    CeilingUsable cfg (settleProbe cfg nowMsec txRate retries nFrames nBad an) := by
  unfold Rate.settleProbe
  split
  · rename_i hprobe
    have hmem := h.probe hprobe.1
    split
    · exact h.change ⟨rfl, rfl⟩ h.ceiling fun hne => absurd rfl hne
    · dsimp only
      split
      · exact h.change ⟨rfl, rfl⟩ hmem fun hne => absurd rfl hne
      · exact h.change ⟨rfl, rfl⟩ hmem fun hne => absurd rfl hne
  · exact h

theorem CeilingUsable.countRetryFree (h : CeilingUsable cfg an) :
    CeilingUsable cfg (countRetryFree txRate retries an) := by
  unfold Rate.countRetryFree
  split
  · exact h.change ⟨rfl, rfl⟩ h.ceiling h.probe
  · split
    · exact h.change ⟨rfl, rfl⟩ h.ceiling h.probe
    · exact h

theorem CeilingUsable.noteOutcome (h : CeilingUsable cfg an) :
    CeilingUsable cfg (noteOutcome cfg nowMsec txRate Xretries retries nFrames nBad an) := by
  have hper : ∀ per, CeilingUsable cfg (an.setPer txRate per) :=
    fun _ => h.change ⟨rfl, rfl⟩ h.ceiling h.probe
  unfold Rate.noteOutcome
  dsimp only
  split
  · split
    · exact h.change ⟨rfl, rfl⟩ h.ceiling fun hne => absurd rfl hne
    · exact hper _
  · exact (hper _).settleProbe.countRetryFree

theorem CeilingUsable.backOff (h : CeilingUsable cfg an) :
    CeilingUsable cfg (backOff cfg nowMsec txRate an) := by
  unfold Rate.backOff
  split
  · refine h.change ⟨rfl, rfl⟩ ?_ h.probe
    cases hlower : rcGetNextLowerValidTxRate txRate an.validRateIndex with
    | some lower => exact rcGetNextLowerValidTxRate_mem hlower
    | none => exact h.ceiling
  · exact h

theorem CeilingUsable.rcUpdateHt (h : CeilingUsable cfg an)
    (hupdate : rcUpdateHt cfg nowMsec txRate Xretries retries nFrames nBad an = some an') :
    CeilingUsable cfg an' := by
  simp only [Rate.rcUpdateHt, Option.ite_none_left_eq_some, Option.some.injEq] at hupdate
  obtain ⟨-, rfl⟩ := hupdate
  have hback : CeilingUsable cfg (Rate.backOff cfg nowMsec txRate
      (Rate.noteOutcome cfg nowMsec txRate Xretries retries nFrames nBad an)) :=
    h.noteOutcome.backOff
  unfold decayPer
  split
  · exact hback.change ⟨rfl, rfl⟩ hback.ceiling hback.probe
  · exact hback.change ⟨rfl, rfl⟩ hback.ceiling hback.probe

/-- A completion ends a probe and starts none. -/
theorem rcUpdateHt_probeRate
    (h : rcUpdateHt cfg nowMsec txRate Xretries retries nFrames nBad an = some an')
    (hprobe : an.probeRate = 0) : an'.probeRate = 0 := by
  simp only [rcUpdateHt, Option.ite_none_left_eq_some, Option.some.injEq] at h
  obtain ⟨-, rfl⟩ := h
  have hdecay : ∀ node, (decayPer cfg nowMsec node).probeRate = node.probeRate := by
    intro node
    unfold decayPer
    split <;> rfl
  have hback : ∀ node, (backOff cfg nowMsec txRate node).probeRate = node.probeRate := by
    intro node
    unfold backOff
    split <;> rfl
  have hcount : ∀ node, (countRetryFree txRate (clampRetries retries) node).probeRate =
      node.probeRate := by
    intro node
    unfold countRetryFree
    repeat' split
    all_goals rfl
  rw [hdecay]
  refine (hback _).trans ?_
  unfold noteOutcome
  dsimp only
  split
  · split
    · rfl
    · exact hprobe
  · rw [hcount, settleProbe, if_neg fun hset => hset.1 hprobe]
    exact hprobe

theorem chooseRate_idle {probeAllowed : Bool} {best : ℕ}
    (h : (chooseRate cfg nowMsec probeAllowed best an).isProbing = false) :
    (chooseRate cfg nowMsec probeAllowed best an).node = an := by
  revert h
  unfold chooseRate
  split
  · split
    · exact fun h => absurd h (by simp)
    · exact fun _ => rfl
  · exact fun _ => rfl

theorem rcRateFindHt_probeRate {probeAllowed : Bool}
    (h : (rcRateFindHt cfg nowMsec probeAllowed an).isProbing = false) :
    (rcRateFindHt cfg nowMsec probeAllowed an).node.probeRate = an.probeRate := by
  have hidle := chooseRate_idle h
  unfold rcRateFindHt
  dsimp only
  split
  · rw [hidle]
  · dsimp only
    rw [hidle]

/-- An update of the rate set leaves the probe alone. -/
theorem rcSibUpdateHt_probeRate {capflag : BitVec 32} {rs : RateSet}
    (h : rcSibUpdateHt cfg capflag rs an = some an') : an'.probeRate = an.probeRate := by
  simp only [rcSibUpdateHt, Option.ite_none_left_eq_some, Option.some.injEq] at h
  obtain ⟨-, rfl⟩ := h
  rfl

end

/-! ## Runs -/

/-- A rate set comes while no probe is out, and leaves four valid rates or more. -/
def Settled (cfg : RateConfig) (rc : RatedNode) : Event → Prop
  | .newassoc capflag rs =>
      rc.node.probeRate = 0 ∧
        4 ≤ (validRates cfg (assocStbc cfg capflag rc.node) capflag rs).length
  | _ => True

instance decidableSettled (cfg : RateConfig) (rc : RatedNode) :
    (event : Event) → Decidable (Settled cfg rc event)
  | .newassoc _ _ => inferInstanceAs (Decidable (_ ∧ _))
  | .findRate _ _ => inferInstanceAs (Decidable True)
  | .update _ _ _ _ _ _ => inferInstanceAs (Decidable True)

/-- The ceiling is usable, and a probe that is out was chosen from the current set. -/
structure RateInv (cfg : RateConfig) (rc : RatedNode) : Prop where
  usable : CeilingUsable cfg rc.node
  fresh : rc.node.probeRate ≠ 0 → rc.probeFresh = true

theorem RateInv.step {cfg : RateConfig} {rc rc' : RatedNode} {event : Event}
    (h : rc.rated = true → RateInv cfg rc) (hok : Settled cfg rc event)
    (hstep : step cfg event rc = some rc') : RateInv cfg rc' := by
  cases event with
  | newassoc capflag rs =>
      obtain ⟨an, hassoc, rfl⟩ := Option.map_eq_some_iff.mp hstep
      obtain ⟨hprobe, hfour⟩ := hok
      have hnone : an.probeRate = 0 := (rcSibUpdateHt_probeRate hassoc).trans hprobe
      have husable : CeilingUsable cfg an := rcSibUpdateHt_usable hassoc hfour hprobe
      exact ⟨husable, fun hne => absurd hnone hne⟩
  | findRate nowMsec probeAllowed =>
      simp only [Rate.step, Option.ite_none_right_eq_some, Option.some.injEq] at hstep
      obtain ⟨hrated, rfl⟩ := hstep
      obtain ⟨husable, hfresh⟩ := h hrated
      refine ⟨(husable.rcRateFindHt nowMsec probeAllowed).2, fun hne => ?_⟩
      cases hprobing : (rcRateFindHt cfg nowMsec probeAllowed rc.node).isProbing with
      | true => rfl
      | false =>
          apply hfresh
          rwa [← rcRateFindHt_probeRate hprobing]
  | update nowMsec txRate Xretries retries nFrames nBad =>
      simp only [Rate.step, Option.ite_none_right_eq_some] at hstep
      obtain ⟨hrated, hupdate⟩ := hstep
      obtain ⟨an, hrun, rfl⟩ := Option.map_eq_some_iff.mp hupdate
      obtain ⟨husable, hfresh⟩ := h hrated
      refine ⟨husable.rcUpdateHt hrun, fun hne => hfresh fun hzero => hne ?_⟩
      exact rcUpdateHt_probeRate hrun hzero

/-- The ceiling is a rate of the set and in the table, selection stays within the set, and a probe
from before the set leaves its ceiling alone. -/
theorem ceiling_usable {cfg : RateConfig} {rc : RatedNode}
    (h : (rateControl cfg).ReachableWhere (Settled cfg) rc) (hrated : rc.rated = true) :
    (rc.node.rateMaxPhy ∈ rc.node.validRateIndex ∧
        rc.node.rateMaxPhy < rc.node.rateTableSize) ∧
      (∀ nowMsec probeAllowed,
        (rcRateFindHt cfg nowMsec probeAllowed rc.node).rate ∈ rc.node.validRateIndex) ∧
      (rc.probeFresh = false → ∀ nowMsec txRate Xretries retries nFrames nBad,
        (rcUpdateHt cfg nowMsec txRate Xretries retries nFrames nBad rc.node).map
            AtherosNode.rateMaxPhy =
          (rcUpdateHt cfg nowMsec txRate Xretries retries nFrames nBad
            { rc.node with probeRate := 0 }).map AtherosNode.rateMaxPhy) := by
  have hinv : rc.rated = true → RateInv cfg rc := by
    refine h.invariant (P := fun rc => rc.rated = true → RateInv cfg rc) ?_ ?_
    · intro s hinit hs
      exact absurd (hinit.symm.trans hs) (by decide)
    · intro s event s' hs hok hstep _
      exact RateInv.step hs hok hstep
  obtain ⟨husable, hfresh⟩ := hinv hrated
  refine ⟨⟨husable.ceiling, husable.sized _ husable.ceiling⟩, ?_, ?_⟩
  · exact fun nowMsec probeAllowed => (husable.rcRateFindHt nowMsec probeAllowed).1
  · intro hstale nowMsec txRate Xretries retries nFrames nBad
    have hzero : rc.node.probeRate = 0 := by
      by_contra hne
      exact absurd ((hfresh hne).symm.trans hstale) (by decide)
    have hsame : { rc.node with probeRate := 0 } = rc.node := by
      rw [← hzero]
    rw [hsame]

/-- A frame at the ceiling allows a probe, and the probe raises the ceiling. -/
theorem ceiling_usable_probed : ∃ rc, (rateControl k2Config).ReachableWhere (Settled k2Config) rc ∧
    rc.node.rateMaxPhy = 7 ∧ rc.node.rateMaxPhy ∈ rc.node.validRateIndex := by
  obtain ⟨rc, steps, hrated, hceiling⟩ := Machine.exists_of_runWhere
    (fun rc => rc.rated = false) (step k2Config) (Settled k2Config)
    (P := fun rc => rc.rated = true ∧ rc.node.rateMaxPhy = 7) (s := clearedNode)
    [.newassoc 0 peer11g, .update 10 6 0 0 1 0, .findRate 200 true, .update 210 7 0 0 1 0]
    (by decide +kernel)
  have hreach : (rateControl k2Config).ReachableWhere (Settled k2Config) rc :=
    .trans (.init (clearedNode_init _)) steps
  obtain ⟨⟨husable, -⟩, -⟩ := ceiling_usable hreach hrated
  exact ⟨rc, hreach, hceiling, husable⟩

/-- Of three rates the ceiling is what lies in front of the array, the size of the set before;
and a probe from before a set of four raises its ceiling to a rate it does not have. -/
theorem ceiling_not_usable :
    (¬∀ rc, (rateControl k2Config).Reachable rc → rc.rated = true →
      rc.node.rateMaxPhy ∈ rc.node.validRateIndex ∧
        rc.node.rateMaxPhy < rc.node.rateTableSize) ∧
    ¬∀ rc, (rateControl k2Config).Reachable rc → rc.rated = true → rc.probeFresh = false →
      ∀ nowMsec txRate Xretries retries nFrames nBad,
        (rcUpdateHt k2Config nowMsec txRate Xretries retries nFrames nBad rc.node).map
            AtherosNode.rateMaxPhy =
          (rcUpdateHt k2Config nowMsec txRate Xretries retries nFrames nBad
            { rc.node with probeRate := 0 }).map AtherosNode.rateMaxPhy := by
  constructor
  · intro claim
    obtain ⟨rc, steps, hrated, hout⟩ := Machine.exists_of_runWhere
      (fun rc => rc.rated = false) (step k2Config) (fun _ _ => True)
      (P := fun rc => rc.rated = true ∧ rc.node.rateMaxPhy ∉ rc.node.validRateIndex)
      (s := clearedNode) [.newassoc 0 peer11g, .newassoc 0 ⟨[4, 11, 22], []⟩] (by decide +kernel)
    have hreach : (rateControl k2Config).Reachable rc :=
      Machine.ReachableWhere.trans (.init (clearedNode_init _)) steps
    exact hout (claim rc hreach hrated).1
  · intro claim
    obtain ⟨rc, steps, hrated, hfresh, hraised⟩ := Machine.exists_of_runWhere
      (fun rc => rc.rated = false) (step k2Config) (fun _ _ => True)
      (P := fun rc => rc.rated = true ∧ rc.probeFresh = false ∧
        (rcUpdateHt k2Config 210 7 0 0 1 0 rc.node).map AtherosNode.rateMaxPhy ≠
          (rcUpdateHt k2Config 210 7 0 0 1 0 { rc.node with probeRate := 0 }).map
            AtherosNode.rateMaxPhy)
      (s := clearedNode)
      [.newassoc 0 peer11g, .update 10 6 0 0 1 0, .findRate 200 true,
        .newassoc 0 ⟨[2, 4, 11, 22], []⟩] (by decide +kernel)
    have hreach : (rateControl k2Config).Reachable rc :=
      Machine.ReachableWhere.trans (.init (clearedNode_init _)) steps
    exact hraised (claim rc hreach hrated hfresh 210 7 0 0 1 0)

end Ath9kHtc.Rate
