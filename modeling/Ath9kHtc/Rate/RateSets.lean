import Ath9kHtc.Rate.Ceiling

/-!
# The construction of a rate set

What `rcSibUpdate_ht` makes of the rates of the host, and for which of them it is the set of the
allowed rates.
-/

namespace Ath9kHtc.Rate

/-! ## Sorting -/

section

variable (key : ℕ → ℕ) {i : ℕ} {front suffix : List ℕ}

/-- One pass moves the highest of the entries it looks at behind them. -/
theorem bubble_spec (suffix : List ℕ) (hlen : front.length = i + 1) :
    ∃ next highest, bubble key i (front ++ suffix) = next ++ highest :: suffix ∧
      (next ++ [highest]).Perm front ∧ ∀ a ∈ next, key a ≤ key highest := by
  induction i generalizing front with
  | zero =>
    obtain ⟨a, rfl⟩ := List.length_eq_one_iff.mp hlen
    exact ⟨[], a, rfl, .refl _, by simp⟩
  | succ i ih =>
    match front, hlen with
    | a :: b :: front, hlen =>
      have hrest : ∀ c : ℕ, (c :: front).length = i + 1 := fun c => Nat.succ.inj hlen
      rw [List.cons_append, List.cons_append, bubble]
      by_cases hlt : key b < key a
      · obtain ⟨next, highest, heq, hperm, hle⟩ := ih (hrest a)
        rw [if_pos hlt]
        refine ⟨b :: next, highest, ?_, ?_, ?_⟩
        · rw [← List.cons_append, heq]
          rfl
        · exact (hperm.cons b).trans (.swap a b front)
        · have ha : key a ≤ key highest := by
            rcases List.mem_append.mp (hperm.mem_iff.mpr List.mem_cons_self) with ha | ha
            · exact hle a ha
            · rw [List.mem_singleton.mp ha]
          intro c hc
          rcases List.mem_cons.mp hc with rfl | hc
          · exact hlt.le.trans ha
          · exact hle c hc
      · obtain ⟨next, highest, heq, hperm, hle⟩ := ih (hrest b)
        rw [if_neg hlt]
        refine ⟨a :: next, highest, ?_, hperm.cons a, ?_⟩
        · rw [← List.cons_append, heq]
          rfl
        · have hb : key b ≤ key highest := by
            rcases List.mem_append.mp (hperm.mem_iff.mpr List.mem_cons_self) with hb | hb
            · exact hle b hb
            · rw [List.mem_singleton.mp hb]
          intro c hc
          rcases List.mem_cons.mp hc with rfl | hc
          · exact (Nat.le_of_not_lt hlt).trans hb
          · exact hle c hc

/-- The passes settle the list from its end. -/
theorem bubbles_sorted (hlen : front.length = i + 1)
    (hsuffix : suffix.Pairwise fun a b => key a ≤ key b)
    (habove : ∀ a ∈ front, ∀ b ∈ suffix, key a ≤ key b) :
    (bubbles key i (front ++ suffix)).Pairwise fun a b => key a ≤ key b := by
  induction i generalizing front suffix with
  | zero =>
    obtain ⟨a, rfl⟩ := List.length_eq_one_iff.mp hlen
    exact List.pairwise_cons.mpr ⟨habove a List.mem_cons_self, hsuffix⟩
  | succ i ih =>
    obtain ⟨next, highest, heq, hperm, hle⟩ := bubble_spec key suffix hlen
    have hnext : next.length = i + 1 := by
      have hcount := hperm.length_eq
      rw [List.length_append, List.length_singleton, hlen] at hcount
      omega
    have hfront : ∀ a ∈ next ++ [highest], a ∈ front := fun a ha => hperm.mem_iff.mp ha
    rw [bubbles, heq]
    apply ih hnext
    · refine List.pairwise_cons.mpr ⟨?_, hsuffix⟩
      exact habove highest (hfront highest (by simp))
    · intro a ha b hb
      rcases List.mem_cons.mp hb with rfl | hb
      · exact hle a ha
      · exact habove a (hfront a (List.mem_append_left _ ha)) b hb

theorem rcSortValidRates_sorted (cfg : RateConfig) (l : List ℕ) :
    (rcSortValidRates cfg l).Pairwise fun a b => sortKey cfg a ≤ sortKey cfg b := by
  cases l with
  | nil => exact .nil
  | cons a l =>
    have hsorted : (bubbles (sortKey cfg) l.length (a :: l ++ [])).Pairwise fun a b =>
        sortKey cfg a ≤ sortKey cfg b := bubbles_sorted (sortKey cfg) rfl .nil (by simp)
    rwa [List.append_nil] at hsorted

end

/-! ## The rates entered -/

/-- A legacy rate that the flags allow. -/
def LegacyAllowed (cfg : RateConfig) (stbc : Bool) (capflag : BitVec 32) (j : ℕ) : Prop :=
  validColumn cfg stbc capflag (cfg.table.info j) &&& capMode capflag = capMode capflag ∧
    ¬(cfg.table.info j).phy.isHt ∧ rcIsValidPhyRate (cfg.table.info j).phy capflag

/-- An HT rate that the flags allow. -/
def HtAllowed (cfg : RateConfig) (stbc : Bool) (capflag : BitVec 32) (j : ℕ) : Prop :=
  (cfg.table.info j).phy.isHt ∧ htValid (validColumn cfg stbc capflag (cfg.table.info j)) capflag ∧
    ¬((cfg.table.info j).dot11Rate = 15 ∧
      validColumn cfg stbc capflag (cfg.table.info j) &&& true20 ≠ 0 ∧
      capflag &&& wlanRcWepTkipFlag ≠ 0) ∧
    rcIsValidPhyRate (cfg.table.info j).phy capflag

/-- A rate that is entered when there is no rate set. -/
def Initial (cfg : RateConfig) (capflag : BitVec 32) (j : ℕ) : Prop :=
  (if singleStream capflag then (cfg.table.info j).validSingleStream
    else (cfg.table.info j).valid) = validTrue ∧
    rcIsValidPhyRate (cfg.table.info j).phy capflag

instance (cfg : RateConfig) (stbc : Bool) (capflag : BitVec 32) (j : ℕ) :
    Decidable (LegacyAllowed cfg stbc capflag j) := inferInstanceAs (Decidable (_ ∧ _ ∧ _))

instance (cfg : RateConfig) (stbc : Bool) (capflag : BitVec 32) (j : ℕ) :
    Decidable (HtAllowed cfg stbc capflag j) := inferInstanceAs (Decidable (_ ∧ _ ∧ _ ∧ _))

instance (cfg : RateConfig) (capflag : BitVec 32) (j : ℕ) : Decidable (Initial cfg capflag j) :=
  inferInstanceAs (Decidable (_ ∧ _))

/-- How often a rate of the table occurs in a list of the host. -/
def occurrences (cfg : RateConfig) (rates : List ℕ) (j : ℕ) : ℕ :=
  rates.countP fun rate => rate % 128 = (cfg.table.info j).dot11Rate % 128

/-- The rates the set is meant to consist of. -/
def InRateSet (cfg : RateConfig) (stbc : Bool) (capflag : BitVec 32) (rs : RateSet) (j : ℕ) : Prop :=
  j < cfg.table.rateCount ∧
    if rs.rates = [] then LegacyAllowed cfg stbc capflag j ∨ HtAllowed cfg stbc capflag j
    else
      LegacyAllowed cfg stbc capflag j ∧ 0 < occurrences cfg rs.rates j ∨
        HtAllowed cfg stbc capflag j ∧ 0 < occurrences cfg rs.htrates j

instance (cfg : RateConfig) (stbc : Bool) (capflag : BitVec 32) (rs : RateSet) (j : ℕ) :
    Decidable (InRateSet cfg stbc capflag rs j) := inferInstanceAs (Decidable (_ ∧ ite _ _ _))

section

variable {cfg : RateConfig} {stbc : Bool} {capflag : BitVec 32} {rs : RateSet} {j : ℕ}

theorem count_filter_range (p : ℕ → Bool) (n j : ℕ) :
    ((List.range n).filter p).count j = if j < n ∧ p j = true then 1 else 0 := by
  have hnodup : ((List.range n).filter p).Nodup := List.nodup_range.filter p
  rw [hnodup.count]
  simp

/-- A filter of the table for every rate of a list counts a row as often as it is met. -/
theorem count_flatMap_rates (rates : List ℕ) (n : ℕ) (p : ℕ → ℕ → Bool) (A : Prop) [Decidable A]
    (hp : ∀ rate ∈ rates, p rate j = true ↔
      rate % 128 = (cfg.table.info j).dot11Rate % 128 ∧ A) :
    (rates.flatMap fun rate => (List.range n).filter (p rate)).count j =
      if j < n ∧ A then occurrences cfg rates j else 0 := by
  induction rates with
  | nil => simp [occurrences]
  | cons rate rates ih =>
    have hrate := hp rate List.mem_cons_self
    rw [List.flatMap_cons, List.count_append, count_filter_range,
      ih fun r hr => hp r (List.mem_cons_of_mem rate hr), occurrences, occurrences,
      List.countP_cons]
    simp only [hrate]
    by_cases hA : j < n ∧ A
    · simp [hA]
      omega
    · rw [if_neg hA, if_neg hA, if_neg fun h => hA ⟨h.1, h.2.2⟩]

theorem count_setValidRates (rates : List ℕ) :
    (rcSibSetValidRates cfg stbc rates capflag).count j =
      if j < cfg.table.rateCount ∧ LegacyAllowed cfg stbc capflag j then occurrences cfg rates j
      else 0 := by
  apply count_flatMap_rates
  intro rate _
  rw [decide_eq_true_eq]
  exact Iff.rfl

theorem count_setValidHtRates (rates : List ℕ) :
    (rcSibSetValidHtRates cfg stbc rates capflag).count j =
      if j < cfg.table.rateCount ∧ HtAllowed cfg stbc capflag j then occurrences cfg rates j
      else 0 := by
  apply count_flatMap_rates
  intro rate _
  rw [decide_eq_true_eq]
  exact Iff.rfl

theorem HtAllowed.not_legacy (h : HtAllowed cfg stbc capflag j) :
    ¬LegacyAllowed cfg stbc capflag j := fun hlegacy => hlegacy.2.1 h.1

/-- HT rates are allowed by the HT flag only. -/
theorem HtAllowed.flag (h : HtAllowed cfg stbc capflag j) : capflag &&& wlanRcHtFlag ≠ 0 := by
  intro hnone
  have hphy := h.2.2.2
  rw [rcIsValidPhyRate, if_pos ⟨h.1, hnone⟩] at hphy
  cases hphy

theorem count_enteredRates (hrates : rs.rates ≠ []) :
    (enteredRates cfg stbc capflag rs).count j =
      (if j < cfg.table.rateCount ∧ LegacyAllowed cfg stbc capflag j then
        occurrences cfg rs.rates j else 0) +
      if j < cfg.table.rateCount ∧ HtAllowed cfg stbc capflag j then
        occurrences cfg rs.htrates j else 0 := by
  rw [enteredRates, if_neg hrates, List.count_append, count_setValidRates]
  congr 1
  split
  case isTrue => exact count_setValidHtRates _
  case isFalse hflag =>
    rw [List.count_nil, if_neg]
    intro hht
    exact hflag hht.2.flag

theorem mem_initialRates : j ∈ rcSibInitValidRates cfg capflag ↔
    j < cfg.table.rateCount ∧ Initial cfg capflag j := by
  rw [rcSibInitValidRates, List.mem_filter, List.mem_range, decide_eq_true_eq]
  exact Iff.rfl

/-- The rows of the phys one behind the other hold the rates entered. -/
theorem validRates_perm (cfg : RateConfig) (stbc : Bool) (capflag : BitVec 32) (rs : RateSet) :
    (validRates cfg stbc capflag rs).Perm (enteredRates cfg stbc capflag rs) := by
  rw [List.perm_iff_count]
  intro j
  have hcount : ∀ phy, ((enteredRates cfg stbc capflag rs).filter fun j =>
      (cfg.table.info j).phy = phy).count j =
      if (cfg.table.info j).phy = phy then (enteredRates cfg stbc capflag rs).count j else 0 := by
    intro phy
    split
    case isTrue hphy => exact List.count_filter (by simpa using hphy)
    case isFalse hphy =>
      apply List.count_eq_zero_of_not_mem
      intro hmem
      exact hphy (by simpa using (List.mem_filter.mp hmem).2)
  rw [validRates, List.count_flatMap]
  simp only [Function.comp_def, hcount, WlanPhy.all]
  cases (cfg.table.info j).phy <;> simp

/-! ## The set -/

/-- The rates of the node are the set they are meant to be, in order, and no index of the update
was outside of the arrays. -/
structure Constructed (cfg : RateConfig) (capflag : BitVec 32) (rs : RateSet) (an an' : AtherosNode) :
    Prop where
  updated : rcSibUpdateHt cfg capflag rs an = some an'
  ceilingRead : 4 ≤ an'.maxValidRate
  distinct : an'.validRateIndex.Nodup
  sorted : an'.validRateIndex.Pairwise fun a b => sortKey cfg a ≤ sortKey cfg b
  members : ∀ j, j ∈ an'.validRateIndex ↔ InRateSet cfg an.stbc capflag rs j
  size : ∃ highest ∈ an'.validRateIndex, an'.rateTableSize = highest + 1 ∧
    ∀ j ∈ an'.validRateIndex, j ≤ highest

/-- At least four rates are to be in the set, each occurs once, and without a rate set the peer has
no HT and the table no CCK rate. -/
structure SetFits (cfg : RateConfig) (stbc : Bool) (capflag : BitVec 32) (rs : RateSet) : Prop where
  enough : 4 ≤ ((List.range cfg.table.rateCount).filter fun j =>
    InRateSet cfg stbc capflag rs j).length
  once : rs.rates ≠ [] → ∀ j < cfg.table.rateCount,
    (LegacyAllowed cfg stbc capflag j → occurrences cfg rs.rates j ≤ 1) ∧
      (HtAllowed cfg stbc capflag j → occurrences cfg rs.htrates j ≤ 1)
  initial : rs.rates = [] → capflag &&& wlanRcHtFlag = 0 ∧
    ∀ j < cfg.table.rateCount, (cfg.table.info j).phy ≠ .cck

theorem nodup_enteredRates_iff (hrates : rs.rates ≠ []) :
    (enteredRates cfg stbc capflag rs).Nodup ↔ ∀ j < cfg.table.rateCount,
      (LegacyAllowed cfg stbc capflag j → occurrences cfg rs.rates j ≤ 1) ∧
        (HtAllowed cfg stbc capflag j → occurrences cfg rs.htrates j ≤ 1) := by
  rw [List.nodup_iff_count_le_one]
  constructor
  · intro h j hj
    have hcount := h j
    rw [count_enteredRates hrates] at hcount
    constructor
    · intro hlegacy
      rw [if_pos ⟨hj, hlegacy⟩] at hcount
      omega
    · intro hht
      rw [if_pos (c := j < _ ∧ HtAllowed cfg stbc capflag j) ⟨hj, hht⟩] at hcount
      omega
  · intro h j
    rw [count_enteredRates hrates]
    by_cases hj : j < cfg.table.rateCount
    · obtain ⟨hlegacy, hht⟩ := h j hj
      by_cases hallowed : HtAllowed cfg stbc capflag j
      · rw [if_neg fun hl => hallowed.not_legacy hl.2, if_pos ⟨hj, hallowed⟩]
        have hle := hht hallowed
        omega
      · rw [if_neg (c := j < _ ∧ HtAllowed cfg stbc capflag j) fun hl => hallowed hl.2]
        split
        case isTrue hl => exact hlegacy hl.2
        case isFalse => exact Nat.zero_le 1
    · rw [if_neg fun hl => hj hl.1, if_neg fun hl => hj hl.1]
      exact Nat.zero_le 1

theorem mem_enteredRates_iff (hrates : rs.rates ≠ []) :
    j ∈ enteredRates cfg stbc capflag rs ↔ InRateSet cfg stbc capflag rs j := by
  rw [← List.count_pos_iff, count_enteredRates hrates, InRateSet, if_neg hrates]
  by_cases hj : j < cfg.table.rateCount
  · by_cases hallowed : HtAllowed cfg stbc capflag j
    · have hnot := hallowed.not_legacy
      simp [hj, hallowed, hnot]
    · by_cases hlegacy : LegacyAllowed cfg stbc capflag j
      · simp [hj, hallowed, hlegacy]
      · simp [hallowed, hlegacy]
  · simp [hj]

/-! ## The tables -/

/-- The columns of a rate that is not HT agree, and allow it for everything, for legacy only or not
at all; an HT rate is not valid for legacy only. -/
def RateInfo.Consistent (build : Build) (info : RateInfo) : Prop :=
  if info.phy.isHt then info.validSingleStream ≠ validTrue ∧ info.valid ≠ validTrue
  else
    info.validSingleStream = info.valid ∧ (build = .magpie → info.validSTBC = info.valid) ∧
      if info.phy = .cck then info.valid = 7 else info.valid = validTrue ∨ info.valid = 0

instance (build : Build) (info : RateInfo) : Decidable (info.Consistent build) :=
  inferInstanceAs (Decidable (ite _ _ _))

variable {beyond : ℕ → RateInfo}

/-- The builds and the rows of the tables they have. -/
def builtRows : List (Build × List RateInfo) :=
  [(.k2, ar5416NgRateTableK2), (.magpie, ar5416NgRateTable), (.magpie, ar5416NaRateTable)]

theorem mem_builtRows (hcfg : cfg ∈ firmwareTables beyond) :
    (cfg.build, cfg.table.rows) ∈ builtRows := by
  simp only [firmwareTables, List.mem_cons, List.not_mem_nil, or_false] at hcfg
  rcases hcfg with rfl | rfl | rfl <;> simp [builtRows]

theorem rateCount_le (hcfg : cfg ∈ firmwareTables beyond) :
    cfg.table.rateCount ≤ maxTxRateTbl cfg.build := by
  have hall : ∀ built ∈ builtRows, built.2.length ≤ maxTxRateTbl built.1 := by decide
  exact hall _ (mem_builtRows hcfg)

theorem rows_consistent (hcfg : cfg ∈ firmwareTables beyond) :
    ∀ row ∈ cfg.table.rows, row.Consistent cfg.build := by
  have hall : ∀ built ∈ builtRows, ∀ row ∈ built.2, row.Consistent built.1 := by decide +kernel
  exact hall _ (mem_builtRows hcfg)

theorem some_ofdm (hcfg : cfg ∈ firmwareTables beyond) :
    ∃ row ∈ cfg.table.rows, row.phy = .ofdm ∧ row.valid = validTrue := by
  have hall : ∀ built ∈ builtRows, ∃ row ∈ built.2, row.phy = .ofdm ∧ row.valid = validTrue := by
    decide +kernel
  exact hall _ (mem_builtRows hcfg)

theorem info_mem (hj : j < cfg.table.rateCount) : cfg.table.info j ∈ cfg.table.rows := by
  rw [RateTable.info, List.getD_eq_getElem?_getD, List.getElem?_eq_getElem hj]
  exact List.getElem_mem hj

theorem exists_info {info : RateInfo} (h : info ∈ cfg.table.rows) :
    ∃ j < cfg.table.rateCount, cfg.table.info j = info := by
  obtain ⟨j, hj, rfl⟩ := List.getElem_of_mem h
  refine ⟨j, hj, ?_⟩
  rw [RateTable.info, List.getD_eq_getElem?_getD, List.getElem?_eq_getElem hj, Option.getD_some]

/-- What the consistent columns say of a rate that is not HT. -/
theorem validColumn_of_not_ht (stbc : Bool) (capflag : BitVec 32) {info : RateInfo}
    (h : info.Consistent cfg.build) (hht : ¬info.phy.isHt) :
    validColumn cfg stbc capflag info = info.valid ∧
      (if singleStream capflag then info.validSingleStream else info.valid) = info.valid := by
  rw [RateInfo.Consistent, if_neg hht] at h
  obtain ⟨hsingle, hstbc, -⟩ := h
  constructor
  · rw [validColumn]
    split
    case isTrue hon => exact hstbc hon.1
    case isFalse =>
      rw [hsingle]
      split <;> rfl
  · rw [hsingle]
    split <;> rfl

theorem validPhy_of_not_ht (capflag : BitVec 32) {phy : WlanPhy} (hht : ¬phy.isHt) :
    rcIsValidPhyRate phy capflag := by
  cases phy <;> first | exact absurd rfl hht | simp [rcIsValidPhyRate, WlanPhy.isHt, WlanPhy.isDs,
    WlanPhy.isSgi]

/-- The rates entered without a rate set are those allowed only for a legacy peer on a table
without CCK. -/
theorem initial_iff (stbc : Bool) (hcfg : cfg ∈ firmwareTables beyond) :
    (∀ j < cfg.table.rateCount,
      Initial cfg capflag j ↔ LegacyAllowed cfg stbc capflag j ∨ HtAllowed cfg stbc capflag j) ↔
    capflag &&& wlanRcHtFlag = 0 ∧ ∀ j < cfg.table.rateCount, (cfg.table.info j).phy ≠ .cck := by
  constructor
  · intro h
    have hlegacy : capflag &&& wlanRcHtFlag = 0 := by
      obtain ⟨row, hrow, hphy, hvalid⟩ := some_ofdm hcfg
      obtain ⟨j, hj, rfl⟩ := exists_info hrow
      have hnot : ¬(cfg.table.info j).phy.isHt := by rw [hphy]; decide
      obtain ⟨hcolumn, hentered⟩ := validColumn_of_not_ht stbc capflag
        (rows_consistent hcfg _ hrow) hnot
      have hinitial : Initial cfg capflag j :=
        ⟨hentered.trans hvalid, validPhy_of_not_ht capflag hnot⟩
      rcases (h j hj).mp hinitial with hallowed | hallowed
      · by_contra hflag
        have hmode := hallowed.1
        rw [hcolumn, hvalid, capMode, if_pos hflag] at hmode
        split at hmode <;> exact absurd hmode (by decide)
      · exact absurd hallowed.1 hnot
    refine ⟨hlegacy, ?_⟩
    intro j hj hphy
    have hnot : ¬(cfg.table.info j).phy.isHt := by rw [hphy]; decide
    have hrow := rows_consistent hcfg _ (info_mem hj)
    obtain ⟨hcolumn, hentered⟩ := validColumn_of_not_ht stbc capflag hrow hnot
    rw [RateInfo.Consistent, if_neg hnot, if_pos hphy] at hrow
    have hallowed : LegacyAllowed cfg stbc capflag j := by
      refine ⟨?_, hnot, validPhy_of_not_ht capflag hnot⟩
      rw [hcolumn, hrow.2.2, capMode, if_neg (not_not.mpr hlegacy)]
      decide
    have hinitial := ((h j hj).mpr (.inl hallowed)).1
    rw [hentered, hrow.2.2] at hinitial
    exact absurd hinitial (by decide)
  · rintro ⟨hlegacy, hcck⟩ j hj
    have hrow := rows_consistent hcfg _ (info_mem hj)
    have hhtAllowed : ¬HtAllowed cfg stbc capflag j := fun hht => hht.flag hlegacy
    by_cases hht : (cfg.table.info j).phy.isHt
    · have hinitial : ¬Initial cfg capflag j := by
        intro hinitial
        have hphy := hinitial.2
        rw [rcIsValidPhyRate, if_pos ⟨hht, hlegacy⟩] at hphy
        cases hphy
      have hnot : ¬LegacyAllowed cfg stbc capflag j := fun hallowed => hallowed.2.1 hht
      simp [hinitial, hnot, hhtAllowed]
    · obtain ⟨hcolumn, hentered⟩ := validColumn_of_not_ht stbc capflag hrow hht
      rw [RateInfo.Consistent, if_neg hht, if_neg (hcck j hj)] at hrow
      have hphy := validPhy_of_not_ht capflag hht
      rw [Initial, LegacyAllowed, hcolumn, hentered, capMode, if_neg (not_not.mpr hlegacy)]
      rcases hrow.2.2 with hvalid | hvalid
      · simp [hvalid, hht, hphy, validTrue]
      · simp [hvalid, hht, hhtAllowed, validTrue]

/-! ## When it is the set -/

theorem entered_spec (hcfg : cfg ∈ firmwareTables beyond) :
    ((enteredRates cfg stbc capflag rs).Nodup ∧
      ∀ j, j ∈ enteredRates cfg stbc capflag rs ↔ InRateSet cfg stbc capflag rs j) ↔
    (rs.rates ≠ [] → ∀ j < cfg.table.rateCount,
      (LegacyAllowed cfg stbc capflag j → occurrences cfg rs.rates j ≤ 1) ∧
        (HtAllowed cfg stbc capflag j → occurrences cfg rs.htrates j ≤ 1)) ∧
    (rs.rates = [] → capflag &&& wlanRcHtFlag = 0 ∧
      ∀ j < cfg.table.rateCount, (cfg.table.info j).phy ≠ .cck) := by
  by_cases hrates : rs.rates = []
  · have hentered : enteredRates cfg stbc capflag rs = rcSibInitValidRates cfg capflag := by
      rw [enteredRates, if_pos hrates]
    have hnodup : (rcSibInitValidRates cfg capflag).Nodup := List.nodup_range.filter _
    rw [hentered, ← initial_iff stbc hcfg]
    simp only [mem_initialRates, InRateSet, hrates, if_true, hnodup, true_and, ne_eq,
      not_true_eq_false, false_imp_iff, true_imp_iff, and_congr_right_iff]
  · rw [nodup_enteredRates_iff hrates]
    have hmem : ∀ j, j ∈ enteredRates cfg stbc capflag rs ↔ InRateSet cfg stbc capflag rs j :=
      fun _ => mem_enteredRates_iff hrates
    constructor
    · intro h
      exact ⟨fun _ => h.1, fun hnone => absurd hnone hrates⟩
    · intro h
      exact ⟨h.1 hrates, hmem⟩

theorem foldr_max_mem : ∀ {l : List ℕ}, l ≠ [] → l.foldr max 0 ∈ l
  | [a], _ => by simp
  | a :: b :: l, _ => by
    have hrest := foldr_max_mem (l := b :: l) (by simp)
    rw [List.foldr_cons]
    rcases max_choice a ((b :: l).foldr max 0) with heq | heq
    · rw [heq]
      exact List.mem_cons_self
    · rw [heq]
      exact List.mem_cons_of_mem a hrest

/-- The rates that are in the set, in the order of the table. -/
theorem entered_perm
    (hnodup : (enteredRates cfg stbc capflag rs).Nodup)
    (hmem : ∀ j, j ∈ enteredRates cfg stbc capflag rs ↔ InRateSet cfg stbc capflag rs j) :
    (enteredRates cfg stbc capflag rs).Perm
      ((List.range cfg.table.rateCount).filter fun j => InRateSet cfg stbc capflag rs j) := by
  rw [List.perm_ext_iff_of_nodup hnodup (List.nodup_range.filter _)]
  intro j
  rw [hmem, List.mem_filter, List.mem_range, decide_eq_true_eq]
  exact ⟨fun h => ⟨h.1, h⟩, fun h => h.2⟩

/-- The update makes the set the node is to have exactly when the rates of the host fit. -/
theorem rate_set_iff (hcfg : cfg ∈ firmwareTables beyond) (an : AtherosNode) :
    (∃ an', Constructed cfg capflag rs an an') ↔ SetFits cfg an.stbc capflag rs := by
  have hfilled := validRates_perm cfg an.stbc capflag rs
  have hsorted := (rcSortValidRates_perm cfg (validRates cfg an.stbc capflag rs)).trans hfilled
  constructor
  · rintro ⟨an', h⟩
    have hupdated := h.updated
    simp only [rcSibUpdateHt, Option.ite_none_left_eq_some, Option.some.injEq] at hupdated
    obtain ⟨-, rfl⟩ := hupdated
    have hnodup := hsorted.nodup_iff.mp h.distinct
    have hmem : ∀ j, j ∈ enteredRates cfg an.stbc capflag rs ↔
        InRateSet cfg an.stbc capflag rs j :=
      fun j => hsorted.mem_iff.symm.trans (h.members j)
    obtain ⟨honce, hinitial⟩ := (entered_spec hcfg).mp ⟨hnodup, hmem⟩
    refine ⟨?_, honce, hinitial⟩
    rw [← (entered_perm hnodup hmem).length_eq, ← hsorted.length_eq]
    exact h.ceilingRead
  · intro h
    obtain ⟨hnodup, hmem⟩ := (entered_spec hcfg).mpr ⟨h.once, h.initial⟩
    have hlength := (entered_perm hnodup hmem).length_eq
    have hfour : 4 ≤ (enteredRates cfg an.stbc capflag rs).length := hlength.ge.trans' h.enough
    have hfits : (enteredRates cfg an.stbc capflag rs).length ≤ maxTxRateTbl cfg.build := by
      have hle := List.length_filter_le (fun j => decide (InRateSet cfg an.stbc capflag rs j))
        (List.range cfg.table.rateCount)
      rw [List.length_range] at hle
      exact hlength.le.trans (hle.trans (rateCount_le hcfg))
    have hcond : ¬(validRates cfg an.stbc capflag rs = [] ∨
        maxTxRateTbl cfg.build < (validRates cfg an.stbc capflag rs).length) := by
      rw [← List.length_eq_zero_iff, hfilled.length_eq]
      omega
    refine ⟨_, by rw [rcSibUpdateHt, if_neg hcond], ?_, ?_, ?_, ?_, ?_⟩
    · rw [AtherosNode.maxValidRate, hsorted.length_eq]
      exact hfour
    · exact hsorted.nodup_iff.mpr hnodup
    · exact rcSortValidRates_sorted cfg _
    · exact fun j => hsorted.mem_iff.trans (hmem j)
    · refine ⟨(enteredRates cfg an.stbc capflag rs).foldr max 0, ?_, rfl, ?_⟩
      · apply hsorted.mem_iff.mpr (foldr_max_mem _)
        rw [← List.length_pos_iff]
        omega
      · intro j hj
        exact List.le_max_of_le' 0 (hsorted.mem_iff.mp hj) le_rfl

end

/-- The rates of an 11g peer. -/
theorem rate_set_peer11g : ∃ an', Constructed k2Config 0 peer11g clearedNode.node an' := by
  have hcfg : k2Config ∈ firmwareTables fun _ => clearedInfo := List.mem_cons_self
  apply (rate_set_iff hcfg clearedNode.node).mpr
  refine ⟨by decide +kernel, ?_, ?_⟩
  · intro _
    decide +kernel
  · intro hnone
    cases hnone

/-- Of three rates the ceiling is read in front of the array; a rate given twice is in the set
twice. -/
theorem rate_sets_missed :
    (¬∃ an', Constructed k2Config 0 ⟨[4, 11, 22], []⟩ clearedNode.node an') ∧
      ¬∃ an', Constructed k2Config 0 ⟨[2, 4, 11, 22, 130], []⟩ clearedNode.node an' := by
  constructor
  · rintro ⟨an', h⟩
    have hread := h.ceilingRead
    obtain rfl := Option.some.inj h.updated
    exact absurd hread (by decide +kernel)
  · rintro ⟨an', h⟩
    have hdistinct := h.distinct
    obtain rfl := Option.some.inj h.updated
    exact absurd hdistinct (by decide +kernel)

end Ath9kHtc.Rate
