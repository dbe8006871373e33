import Ath9kHtc.Lib.Scan
import Ath9kHtc.Rate.Ceiling
import Ath9kHtc.Rate.PacketErrors

/-!
# The choice of a rate

`rcRateFind_ht` without a probe: the rate its search ends with, and when the early exit of the
search misses nothing.
-/

namespace Ath9kHtc.Rate

def RateConfig.userRate (cfg : RateConfig) (rate : ℕ) : ℕ := (cfg.table.info rate).userRateKbps

/-- What a rate is expected to carry. -/
def expected (cfg : RateConfig) (an : AtherosNode) (rate : ℕ) : ℕ :=
  cfg.userRate rate * (100 - max (an.per rate) 12)

/-- The valid rates up to the ceiling, in the order of the search. -/
def candidates (an : AtherosNode) : List ℕ :=
  an.validRateIndex.reverse.filter fun rate => rate ≤ an.rateMaxPhy

/-- What a search over every valid rate ends with. -/
def scanAll (cfg : RateConfig) (an : AtherosNode) : ℕ :=
  ((candidates an).foldl (Scan.keep (expected cfg an)) (0, 0)).2

/-- The rates are distinct rates of the table, the ceiling is one of them, and the PERs are
percentages. -/
structure TableSound (cfg : RateConfig) (an : AtherosNode) : Prop where
  usable : CeilingUsable cfg an
  distinct : an.validRateIndex.Nodup
  inTable : ∀ rate ∈ an.validRateIndex, rate < cfg.table.rateCount
  percentage : ∀ rate, an.per rate ≤ 100

/-- No valid rate up to the ceiling is expected to carry more. -/
def Optimal (cfg : RateConfig) (an : AtherosNode) (rate : ℕ) : Prop :=
  rate ∈ an.validRateIndex ∧ rate ≤ an.rateMaxPhy ∧
    ∀ r ∈ an.validRateIndex, r ≤ an.rateMaxPhy → expected cfg an r ≤ expected cfg an rate

section

variable {cfg : RateConfig} {beyond : ℕ → RateInfo} {an : AtherosNode} {nowMsec : BitVec 32}
  {probeAllowed : Bool} {rate : ℕ}

theorem userRateKbps_le (hcfg : cfg ∈ firmwareTables beyond) :
    ∀ row ∈ cfg.table.rows, row.userRateKbps ≤ 207000 := by
  simp only [firmwareTables, List.mem_cons, List.not_mem_nil, or_false] at hcfg
  rcases hcfg with rfl | rfl | rfl
  · exact (by decide : ∀ row ∈ ar5416NgRateTableK2, row.userRateKbps ≤ 207000)
  · exact (by decide : ∀ row ∈ ar5416NgRateTable, row.userRateKbps ≤ 207000)
  · exact (by decide : ∀ row ∈ ar5416NaRateTable, row.userRateKbps ≤ 207000)

/-- The product fits into 32 bits. -/
theorem thruput_eq (hcfg : cfg ∈ firmwareTables beyond) (hrate : rate < cfg.table.rateCount)
    (hper : an.per rate ≤ 100) : thruput cfg an rate = expected cfg an rate := by
  have huser : cfg.userRate rate ≤ 207000 := by
    rw [RateConfig.userRate, RateTable.info, List.getD_eq_getElem?_getD,
      List.getElem?_eq_getElem hrate]
    exact userRateKbps_le hcfg _ (List.getElem_mem hrate)
  have hfactor : 100 - max (an.per rate) 12 ≤ 88 := by omega
  have hproduct := Nat.mul_le_mul huser hfactor
  have hcast : (100 - (max (an.per rate) 12 : ℕ) : Int) = (100 - max (an.per rate) 12 : ℕ) := by
    omega
  unfold thruput expected RateConfig.userRate at *
  dsimp only
  rw [hcast, ← Int.natCast_mul]
  generalize (cfg.table.info rate).userRateKbps * (100 - max (an.per rate) 12) = product at *
  omega

theorem findBest_eq (l : List ℕ) (best : ℕ × ℕ)
    (hvalue : ∀ rate ∈ l, thruput cfg an rate = expected cfg an rate) :
    findBest cfg an l best = Scan.untilBound (expected cfg an) cfg.userRate
      (l.filter fun rate => rate ≤ an.rateMaxPhy) best := by
  induction l generalizing best with
  | nil => rfl
  | cons rate l ih =>
    have hrest : ∀ r ∈ l, thruput cfg an r = expected cfg an r :=
      fun r hr => hvalue r (List.mem_cons_of_mem rate hr)
    rw [findBest]
    by_cases habove : an.rateMaxPhy < rate
    · rw [if_pos habove, ih best hrest,
        List.filter_cons_of_neg (by simpa using habove)]
    · rw [if_neg habove, List.filter_cons_of_pos (by simpa using habove), Scan.untilBound,
        hvalue rate List.mem_cons_self]
      by_cases hstop : (cfg.table.info rate).userRateKbps ≤ best.1
      · rw [if_pos hstop]
        exact (if_pos hstop).symm
      · rw [if_neg hstop, ih _ hrest, ih _ hrest, Scan.keep]
        apply Eq.trans _ (if_neg hstop).symm
        split <;> rfl

theorem mem_candidates : rate ∈ candidates an ↔ rate ∈ an.validRateIndex ∧ rate ≤ an.rateMaxPhy := by
  simp [candidates]

theorem TableSound.candidates_ne_nil (h : TableSound cfg an) : candidates an ≠ [] :=
  List.ne_nil_of_mem (mem_candidates.mpr ⟨h.usable.ceiling, le_rfl⟩)

theorem TableSound.candidates_carry (h : TableSound cfg an) :
    ∀ rate ∈ candidates an, 0 < cfg.userRate rate := by
  intro rate hrate
  exact h.usable.carries rate (mem_candidates.mp hrate).1

/-- The search over every rate ends with an optimal one. -/
theorem TableSound.scanAll_optimal (h : TableSound cfg an) : Optimal cfg an (scanAll cfg an) := by
  have hlead : Scan.Leads (expected cfg an) (candidates an)
      ((candidates an).foldl (Scan.keep (expected cfg an)) (0, 0)) := Scan.leads_foldl _ _
  rcases hlead.kept with ⟨hnone, -⟩ | ⟨hmem, hvalue⟩
  · exact absurd hnone h.candidates_ne_nil
  · obtain ⟨hvalid, hle⟩ := mem_candidates.mp hmem
    refine ⟨hvalid, hle, fun r hr hrle => ?_⟩
    rw [scanAll, ← hvalue]
    exact hlead.highest r (mem_candidates.mpr ⟨hr, hrle⟩)

/-- Without a probe the choice is what the search ended with. -/
theorem chooseRate_rate {best : ℕ} (hbest : best ≤ an.rateMaxPhy)
    (hprobe : (chooseRate cfg nowMsec probeAllowed best an).isProbing = false) :
    (chooseRate cfg nowMsec probeAllowed best an).rate = best := by
  unfold chooseRate at hprobe ⊢
  split
  case isTrue htop =>
    rw [if_pos htop] at hprobe
    cases hdue : probeDue cfg nowMsec an with
    | some next =>
      rw [hdue] at hprobe
      cases hprobe
    | none => exact Nat.le_antisymm htop.1 hbest
  case isFalse => rfl

theorem TableSound.rate_eq (h : TableSound cfg an) (hcfg : cfg ∈ firmwareTables beyond)
    (hprobe : (rcRateFindHt cfg nowMsec probeAllowed an).isProbing = false) :
    (rcRateFindHt cfg nowMsec probeAllowed an).rate =
      (Scan.untilBound (expected cfg an) cfg.userRate (candidates an) (0, 0)).2 := by
  have hvalue : ∀ rate ∈ an.validRateIndex.reverse,
      thruput cfg an rate = expected cfg an rate := by
    intro rate hrate
    exact thruput_eq hcfg (h.inTable rate (List.mem_reverse.mp hrate)) (h.percentage rate)
  have hbest := findBest_eq an.validRateIndex.reverse (0, 0) hvalue
  rw [← candidates] at hbest
  have hmem : (Scan.untilBound (expected cfg an) cfg.userRate (candidates an) (0, 0)).2 ∈
      candidates an := Scan.untilBound_mem_of_ne_nil h.candidates_ne_nil h.candidates_carry 0
  obtain ⟨hvalid, hle⟩ := mem_candidates.mp hmem
  have hsized := h.usable.sized _ hvalid
  unfold rcRateFindHt at hprobe ⊢
  dsimp only at hprobe ⊢
  rw [hbest] at hprobe ⊢
  rw [chooseRate_rate hle hprobe]
  exact if_neg (by omega)

end

/-- The choice is an optimal rate, the one a search over every valid rate ends with, exactly when
the early exit misses nothing. -/
theorem rate_choice_iff {cfg : RateConfig} {beyond : ℕ → RateInfo}
    (hcfg : cfg ∈ firmwareTables beyond) {an : AtherosNode} (h : TableSound cfg an)
    {nowMsec : BitVec 32} {probeAllowed : Bool}
    (hprobe : (rcRateFindHt cfg nowMsec probeAllowed an).isProbing = false) :
    (Optimal cfg an (rcRateFindHt cfg nowMsec probeAllowed an).rate ∧
        (rcRateFindHt cfg nowMsec probeAllowed an).rate = scanAll cfg an) ↔
      Scan.ExitSound (expected cfg an) cfg.userRate (candidates an) := by
  have hnodup : (candidates an).Nodup := (List.nodup_reverse.mpr h.distinct).filter _
  rw [h.rate_eq hcfg hprobe, ← Scan.untilBound_eq_foldl_iff hnodup h.candidates_carry 0]
  constructor
  · intro hchoice
    exact hchoice.2
  · intro hscan
    refine ⟨?_, hscan⟩
    rw [hscan]
    exact h.scanAll_optimal

/-- Where the rates are sorted by what they carry, as in the K2 build, the search ends with the
first rate whose PER is below 100. -/
theorem exitSound_iff_first {cfg : RateConfig} {an : AtherosNode} (h : TableSound cfg an)
    (hsorted : an.validRateIndex.Pairwise fun a b => cfg.userRate a ≤ cfg.userRate b) :
    Scan.ExitSound (expected cfg an) cfg.userRate (candidates an) ↔
      ∀ higher rate lower, candidates an = higher ++ rate :: lower →
        (∀ r ∈ higher, an.per r = 100) → an.per rate < 100 →
        ∀ r ∈ lower, expected cfg an r < expected cfg an rate := by
  have hfalling : (candidates an).Pairwise fun a b => cfg.userRate b ≤ cfg.userRate a :=
    (List.pairwise_reverse.mpr hsorted).filter _
  have hzero : ∀ r ∈ candidates an, expected cfg an r = 0 ↔ an.per r = 100 := by
    intro r hr
    have huser := h.candidates_carry r hr
    have hper := h.percentage r
    rw [expected, Nat.mul_eq_zero]
    omega
  have hscale : ∀ r ∈ candidates an, 0 < expected cfg an r → cfg.userRate r ≤ expected cfg an r := by
    intro r _ hpos
    exact Nat.le_mul_of_pos_right _ (Nat.pos_of_mul_pos_left hpos)
  rw [Scan.exitSound_iff_first hfalling hscale h.candidates_carry]
  apply forall_congr'
  intro higher
  apply forall_congr'
  intro rate
  apply forall_congr'
  intro lower
  apply forall_congr'
  intro hsplit
  have hrate : rate ∈ candidates an := hsplit ▸ by simp
  have hper := h.percentage rate
  have hfirst : 0 < expected cfg an rate ↔ an.per rate < 100 := by
    have hrate := hzero rate hrate
    omega
  have hhigher : (∀ r ∈ higher, expected cfg an r = 0) ↔ ∀ r ∈ higher, an.per r = 100 := by
    apply forall₂_congr
    intro r hr
    exact hzero r (hsplit ▸ List.mem_append_left _ hr)
  rw [hfirst, hhigher]

/-- A node on the K2 table after the rates of an 11g peer. -/
def node11g (per : ℕ → ℕ) : AtherosNode :=
  { clearedNode.node with
    per := per
    validRateIndex := [0, 1, 2, 3, 6, 7, 8, 9]
    rateMaxPhy := 6
    rateTableSize := 10 }

theorem node11g_sound {per : ℕ → ℕ} (hper : ∀ rate, per rate ≤ 100) :
    TableSound k2Config (node11g per) := by
  have hsized : ∀ rate ∈ [0, 1, 2, 3, 6, 7, 8, 9], rate < 10 := by decide
  have hcarries : ∀ rate ∈ [0, 1, 2, 3, 6, 7, 8, 9], 0 < k2Config.userRate rate := by decide
  have hdistinct : [0, 1, 2, 3, 6, 7, 8, 9].Nodup := by decide
  have hinTable : ∀ rate ∈ [0, 1, 2, 3, 6, 7, 8, 9], rate < k2Config.table.rateCount := by decide
  have hceiling : 6 ∈ [0, 1, 2, 3, 6, 7, 8, 9] := by decide
  exact ⟨⟨hceiling, fun hne => absurd rfl hne, hsized, hcarries⟩, hdistinct, hinTable, hper⟩

/-- Without errors the highest rate is the best. -/
theorem rate_choice_clean : Optimal k2Config (node11g fun _ => 0) 6 := by
  have hcfg : k2Config ∈ firmwareTables fun _ => clearedInfo := List.mem_cons_self
  have hprobe : (rcRateFindHt k2Config 0 false (node11g fun _ => 0)).isProbing = false := by decide
  have hchoice := (rate_choice_iff hcfg (node11g_sound fun _ => Nat.zero_le _) hprobe).mpr
    (by decide +kernel)
  exact hchoice.1

/-- With half of the frames from 12 Mb/s on in error, and none at 11 Mb/s, the choice is
12 Mb/s. -/
theorem errors_ignored : ¬ ∀ an, TableSound k2Config an → PerOrdered k2Config an →
    ∀ nowMsec probeAllowed, (rcRateFindHt k2Config nowMsec probeAllowed an).isProbing = false →
    Optimal k2Config an (rcRateFindHt k2Config nowMsec probeAllowed an).rate := by
  intro hall
  have hper : ∀ rate, (if 6 ≤ rate then 50 else 0) ≤ 100 := by
    intro rate
    split <;> omega
  have hordered : PerOrdered k2Config (node11g fun rate => if 6 ≤ rate then 50 else 0) := by
    refine ⟨hper, fun r _ _ => ?_⟩
    change (if 6 ≤ r then 50 else 0) ≤ if 6 ≤ r + 1 then 50 else 0
    split <;> split <;> omega
  obtain ⟨-, -, hbest⟩ := hall _ (node11g_sound hper) hordered 0 false (by decide)
  exact absurd (hbest 3 (by decide) (by decide)) (by decide +kernel)

end Ath9kHtc.Rate
