import Ath9kHtc.Rate.Series
import Mathlib.Data.List.GetD
import Mathlib.Data.List.TakeWhile

/-!
# The attribution of a frame

A frame is tried at a series of rates, and when it is done `rcUpdate_11n` charges the rates it was
tried at.
-/

namespace Ath9kHtc.Rate

/-! ## What a rate set leaves -/

/-- The valid rates are in order and were entered for one peer, whose width the node keeps; the
table ends at one of them. -/
structure TableInvariants (cfg : RateConfig) (an : AtherosNode) : Prop where
  sorted : an.validRateIndex.Pairwise fun a b => sortKey cfg a ≤ sortKey cfg b
  entered : ∃ capflag rs, an.rcPhyMode = capflag &&& wlanRc40Flag ∧
    ∀ rate ∈ an.validRateIndex, rate ∈ enteredRates cfg an.stbc capflag rs
  sized : ∃ rate ∈ an.validRateIndex, an.rateTableSize = rate + 1

/-- The fields that only a rate set changes. -/
structure SameTables (an an' : AtherosNode) : Prop where
  rates : an'.validRateIndex = an.validRateIndex
  size : an'.rateTableSize = an.rateTableSize
  width : an'.rcPhyMode = an.rcPhyMode
  stbc : an'.stbc = an.stbc

section

variable {cfg : RateConfig} {an an' an'' : AtherosNode} {nowMsec : BitVec 32}
variable {txRate retries nFrames nBad : ℕ} {Xretries : Int}

theorem SameTables.refl (an : AtherosNode) : SameTables an an := ⟨rfl, rfl, rfl, rfl⟩

theorem SameTables.trans (h : SameTables an an') (h' : SameTables an' an'') :
    SameTables an an'' where
  rates := h'.rates.trans h.rates
  size := h'.size.trans h.size
  width := h'.width.trans h.width
  stbc := h'.stbc.trans h.stbc

theorem TableInvariants.of_same (h : TableInvariants cfg an) (hsame : SameTables an an') :
    TableInvariants cfg an' := by
  constructor
  · rw [hsame.rates]
    exact h.sorted
  · rw [hsame.rates, hsame.width, hsame.stbc]
    exact h.entered
  · rw [hsame.rates, hsame.size]
    exact h.sized

theorem rcSibUpdateHt_tables {capflag : BitVec 32} {rs : RateSet}
    (h : rcSibUpdateHt cfg capflag rs an = some an') : TableInvariants cfg an' := by
  simp only [rcSibUpdateHt, Option.ite_none_left_eq_some, Option.some.injEq] at h
  obtain ⟨hfilled, rfl⟩ := h
  have hmem : ∀ rate, rate ∈ rcSortValidRates cfg (validRates cfg an.stbc capflag rs) ↔
      rate ∈ enteredRates cfg an.stbc capflag rs := by
    intro rate
    rw [(rcSortValidRates_perm cfg _).mem_iff, mem_validRates]
  constructor
  · exact rcSortValidRates_sorted cfg _
  · exact ⟨capflag, rs, rfl, fun rate hrate => (hmem rate).mp hrate⟩
  · have hentered : enteredRates cfg an.stbc capflag rs ≠ [] := by
      intro hnil
      apply hfilled
      left
      rw [List.eq_nil_iff_forall_not_mem]
      intro rate hrate
      rw [mem_validRates, hnil] at hrate
      cases hrate
    exact ⟨_, (hmem _).mpr (foldr_max_mem hentered), rfl⟩

theorem rcRateFindHt_tables (cfg : RateConfig) (nowMsec : BitVec 32) (probeAllowed : Bool)
    (an : AtherosNode) : SameTables an (rcRateFindHt cfg nowMsec probeAllowed an).node := by
  have hchoose : ∀ best, SameTables an (chooseRate cfg nowMsec probeAllowed best an).node := by
    intro best
    unfold chooseRate
    split
    · split
      · exact ⟨rfl, rfl, rfl, rfl⟩
      · exact .refl an
    · exact .refl an
  have hsame := hchoose (findBest cfg an an.validRateIndex.reverse (0, 0)).2
  unfold rcRateFindHt
  dsimp only
  split
  · exact hsame
  · exact ⟨hsame.rates, hsame.size, hsame.width, hsame.stbc⟩

theorem settleProbe_tables (an : AtherosNode) :
    SameTables an (settleProbe cfg nowMsec txRate retries nFrames nBad an) := by
  unfold settleProbe
  split
  · split
    · exact ⟨rfl, rfl, rfl, rfl⟩
    · dsimp only
      split <;> exact ⟨rfl, rfl, rfl, rfl⟩
  · exact .refl an

theorem countRetryFree_tables (an : AtherosNode) :
    SameTables an (countRetryFree txRate retries an) := by
  unfold countRetryFree
  split
  · exact ⟨rfl, rfl, rfl, rfl⟩
  · split
    · exact ⟨rfl, rfl, rfl, rfl⟩
    · exact .refl an

theorem noteOutcome_tables (an : AtherosNode) :
    SameTables an (noteOutcome cfg nowMsec txRate Xretries retries nFrames nBad an) := by
  have hper : ∀ per, SameTables an (an.setPer txRate per) := fun _ => ⟨rfl, rfl, rfl, rfl⟩
  unfold noteOutcome
  dsimp only
  split
  · split
    · exact ⟨rfl, rfl, rfl, rfl⟩
    · exact hper _
  · exact ((hper _).trans (settleProbe_tables _)).trans (countRetryFree_tables _)

theorem backOff_tables (an : AtherosNode) : SameTables an (backOff cfg nowMsec txRate an) := by
  unfold backOff
  split
  · exact ⟨rfl, rfl, rfl, rfl⟩
  · exact .refl an

theorem decayPer_tables (an : AtherosNode) : SameTables an (decayPer cfg nowMsec an) := by
  unfold decayPer
  split
  · exact ⟨rfl, rfl, rfl, rfl⟩
  · exact .refl an

theorem rcUpdateHt_tables
    (h : rcUpdateHt cfg nowMsec txRate Xretries retries nFrames nBad an = some an') :
    SameTables an an' := by
  simp only [rcUpdateHt, Option.ite_none_left_eq_some, Option.some.injEq] at h
  obtain ⟨-, rfl⟩ := h
  have hmonotone : ∀ (node : AtherosNode) (lastPer : ℕ),
      SameTables node (keepMonotone cfg txRate lastPer node) := fun _ _ => ⟨rfl, rfl, rfl, rfl⟩
  apply SameTables.trans _ (decayPer_tables _)
  apply SameTables.trans _ (hmonotone _ _)
  exact (noteOutcome_tables an).trans (backOff_tables _)

theorem step_tables {rc rc' : RatedNode} {event : Event}
    (h : rc.rated = true → TableInvariants cfg rc.node) (hstep : step cfg event rc = some rc') :
    TableInvariants cfg rc'.node := by
  cases event with
  | newassoc capflag rs =>
    obtain ⟨an, hassoc, rfl⟩ := Option.map_eq_some_iff.mp hstep
    exact rcSibUpdateHt_tables hassoc
  | findRate nowMsec probeAllowed =>
    simp only [step, Option.ite_none_right_eq_some, Option.some.injEq] at hstep
    obtain ⟨hrated, rfl⟩ := hstep
    exact (h hrated).of_same (rcRateFindHt_tables cfg nowMsec probeAllowed rc.node)
  | update nowMsec txRate Xretries retries nFrames nBad =>
    simp only [step, Option.ite_none_right_eq_some] at hstep
    obtain ⟨hrated, hupdate⟩ := hstep
    obtain ⟨an, hrun, rfl⟩ := Option.map_eq_some_iff.mp hupdate
    exact (h hrated).of_same (rcUpdateHt_tables hrun)

/-- A node that got a rate set keeps its tables sound, whatever happens. -/
theorem tables_of_reachable {rc : RatedNode} (h : (rateControl cfg).Reachable rc)
    (hrated : rc.rated = true) : TableInvariants cfg rc.node := by
  refine h.invariant (P := fun rc => rc.rated = true → TableInvariants cfg rc.node) ?_ ?_ hrated
  · intro rc hinit hset
    exact absurd (hinit.symm.trans hset) (by decide)
  · intro rc event rc' hinv _ hstep _
    exact step_tables hinv hstep

end

/-! ## The rates of a series -/

/-- A rate of the table that fits the width of the node. -/
structure Sendable (cfg : SeriesConfig) (an : AtherosNode) (rate : ℕ) : Prop where
  inTable : rate < cfg.table.rateCount
  width : (cfg.table.info rate).phy.is40 = true → an.rcPhyMode = wlanRc40Flag

section

variable {cfg : SeriesConfig} {beyond : ℕ → RateInfo} {an : AtherosNode} {rate lower : ℕ}

theorem TableInvariants.sendable (h : TableInvariants cfg.toRateConfig an)
    (hrate : rate ∈ an.validRateIndex) : Sendable cfg an rate := by
  obtain ⟨capflag, rs, hwidth, hentered⟩ := h.entered
  constructor
  · exact enteredRates_lt (hentered rate hrate)
  · intro h40
    rw [hwidth]
    exact entered_is40 (hentered rate hrate) h40

/-- The chosen rate need not be a valid one, but it stays in the part of the table that the valid
ones are from. -/
theorem TableInvariants.choice_sendable (h : TableInvariants cfg.toRateConfig an)
    (hcfg : cfg ∈ seriesConfigs beyond) (nowMsec : BitVec 32) (probeAllowed : Bool) :
    Sendable cfg an (rcRateFindHt cfg.toRateConfig nowMsec probeAllowed an).rate := by
  obtain ⟨top, htop, hsize⟩ := h.sized
  have hle : (rcRateFindHt cfg.toRateConfig nowMsec probeAllowed an).rate ≤ top := by
    unfold rcRateFindHt
    dsimp only
    rw [hsize]
    split <;> omega
  have hsend := h.sendable htop
  constructor
  · exact Nat.lt_of_le_of_lt hle hsend.inTable
  · intro h40
    exact hsend.width (is40_mono hcfg hle hsend.inTable h40)

theorem nextLower_spec {cur : ℕ} {l : List ℕ} {R : ℕ → ℕ → Prop} (hsorted : l.Pairwise R)
    (h : rcGetNextLowerValidTxRate cur l = some lower) : lower ∈ l ∧ cur ∈ l ∧ R lower cur := by
  fun_induction rcGetNextLowerValidTxRate cur l with
  | case1 a l =>
    obtain rfl := Option.some.inj h
    exact ⟨by simp, by simp, List.rel_of_pairwise_cons hsorted List.mem_cons_self⟩
  | case2 a b l hne ih =>
    obtain ⟨hlower, hcur, hrel⟩ := ih hsorted.of_cons h
    exact ⟨List.mem_cons_of_mem a hlower, List.mem_cons_of_mem a hcur, hrel⟩
  | case3 => cases h

/-- A step down gives a rate that is no faster. -/
theorem TableInvariants.nextLower (h : TableInvariants cfg.toRateConfig an)
    (hcfg : cfg ∈ seriesConfigs beyond)
    (hlower : rcGetNextLowerValidTxRate rate an.validRateIndex = some lower) :
    Sendable cfg an lower ∧ (cfg.table.info lower).rateKbps ≤ (cfg.table.info rate).rateKbps := by
  obtain ⟨hmem, hrate, hkey⟩ := nextLower_spec h.sorted hlower
  obtain ⟨capflag, rs, -, hentered⟩ := h.entered
  refine ⟨h.sendable hmem, ?_⟩
  exact entered_rateKbps_le hcfg (hentered lower hmem) (hentered rate hrate) hkey

theorem TableInvariants.stepsDown (h : TableInvariants cfg.toRateConfig an)
    (hcfg : cfg ∈ seriesConfigs beyond) (n : ℕ) (hrate : Sendable cfg an rate) :
    Sendable cfg an (stepsDown an.validRateIndex n rate) ∧
      (cfg.table.info (stepsDown an.validRateIndex n rate)).rateKbps ≤
        (cfg.table.info rate).rateKbps := by
  induction n generalizing rate with
  | zero => exact ⟨hrate, le_rfl⟩
  | succ n ih =>
    unfold Rate.stepsDown
    cases hnext : rcGetNextLowerValidTxRate rate an.validRateIndex with
    | none => exact ⟨hrate, le_rfl⟩
    | some next =>
      obtain ⟨hsend, hle⟩ := h.nextLower hcfg hnext
      obtain ⟨hlast, hlastle⟩ := ih hsend
      exact ⟨hlast, hlastle.trans hle⟩

end

/-! ## The four series -/

/-- The call of `ath_tgt_rate_findrate`. -/
def tenTries (rcflag : BitVec 32) : SeriesRequest := ⟨10, 4, 1, rcflag⟩

/-- MCS2 in HT40 and MCS3 in HT20 are the rates whose fourth series is that of the third. -/
def aggregatesLower (cfg : SeriesConfig) (rate : ℕ) : Bool :=
  let info := cfg.table.info rate
  cfg.ng ∧ (info.dot11Rate = 2 ∧ info.phy = .ht40Ss ∨ info.dot11Rate = 3 ∧ info.phy = .ht20Ss)

/-- The rates of the four series before the fourth is changed. -/
def steppedRates (cfg : SeriesConfig) (rcflag : BitVec 32) (rate : ℕ) (an : AtherosNode) :
    List ℕ :=
  let second := rcRateGetIndex cfg an rate 1 false
  let third := rcRateGetIndex cfg an second 1 false
  [rate, second, third,
    rcRateGetIndex cfg an third 1 (rcflag &&& athRcMinrateLastrate ≠ 0)]

/-- The rates the four series are to be sent at. -/
def chosenRates (cfg : SeriesConfig) (rcflag : BitVec 32) (rate : ℕ) (an : AtherosNode) :
    List ℕ :=
  let second := rcRateGetIndex cfg an rate 1 false
  let third := rcRateGetIndex cfg an second 1 false
  [rate, second, third,
    if aggregatesLower cfg rate then third
    else rcRateGetIndex cfg an third 1 (rcflag &&& athRcMinrateLastrate ≠ 0)]

/-- The series encodes its rate by the base row and two flags. -/
structure Encodes (cfg : SeriesConfig) (rate : ℕ) (rcs : RateSeries) : Prop where
  base : rcs.rix = (cfg.table.info rate).baseIndex
  cw40 : rcs.flags &&& Tx.athRcCw40Flag ≠ 0 ↔ (cfg.table.info rate).phy.is40 = true
  sgi : rcs.flags &&& Tx.athRcHt40SgiFlag ≠ 0 ↔ (cfg.table.info rate).phy.isSgi = true

section

variable {cfg : SeriesConfig} {beyond : ℕ → RateInfo} {an : AtherosNode} {rate : ℕ}
  {rcs : RateSeries} {rcflag : BitVec 32}

theorem flags_bits (rts ds cw40 sgi stbc : Bool) :
    (((if rts then Tx.athRcRtsctsFlag else 0) ||| (if ds then athRcDsFlag else 0) |||
        (if cw40 then Tx.athRcCw40Flag else 0) ||| (if sgi then Tx.athRcHt40SgiFlag else 0) |||
        (if stbc then athRcSeriesStbcFlag else 0)) &&& Tx.athRcCw40Flag ≠ 0 ↔ cw40 = true) ∧
      (((if rts then Tx.athRcRtsctsFlag else 0) ||| (if ds then athRcDsFlag else 0) |||
        (if cw40 then Tx.athRcCw40Flag else 0) ||| (if sgi then Tx.athRcHt40SgiFlag else 0) |||
        (if stbc then athRcSeriesStbcFlag else 0)) &&& Tx.athRcHt40SgiFlag ≠ 0 ↔ sgi = true) := by
  revert rts ds cw40 sgi stbc
  decide +kernel

theorem rcRateSetseries_encodes (cfg : SeriesConfig) (stbc : Bool) (tries rate : ℕ) (rts : Bool) :
    Encodes cfg rate (rcRateSetseries cfg stbc tries rate rts) := by
  obtain ⟨hcw40, hsgi⟩ := flags_bits rts (cfg.table.info rate).phy.isDs
    (cfg.table.info rate).phy.is40 (cfg.table.info rate).phy.isSgi
    (cfg.build = .magpie ∧ stbc ∧
      0x80 ≤ (cfg.send rate).rateCode ∧ (cfg.send rate).rateCode ≤ 0x87)
  simp only [decide_eq_true_eq] at hcw40 hsgi
  constructor
  · rfl
  · exact hcw40
  · exact hsgi

theorem Encodes.protect (h : Encodes cfg rate rcs) :
    Encodes cfg rate { rcs with flags := rcs.flags ||| Tx.athRcRtsctsFlag } := by
  have hbits : ∀ flag, flag &&& Tx.athRcRtsctsFlag = 0#16 →
      (rcs.flags ||| Tx.athRcRtsctsFlag) &&& flag = rcs.flags &&& flag := by
    intro flag hapart
    rw [BitVec.and_comm, BitVec.and_or_distrib_left, hapart, BitVec.or_zero, BitVec.and_comm]
  refine ⟨h.base, ?_, ?_⟩
  · rw [hbits _ (by rfl)]
    exact h.cw40
  · rw [hbits _ (by rfl)]
    exact h.sgi

/-- What a series encodes is read back as the rate. -/
theorem Encodes.seriesRow (h : Encodes cfg rate rcs) (hcfg : cfg ∈ seriesConfigs beyond)
    (hrate : rate < cfg.table.rateCount) :
    seriesRow cfg.toRateConfig rcs.toRcSeries = rate := by
  have hnamed := base_names hcfg hrate
  unfold RateInfo.named at hnamed
  unfold Rate.seriesRow
  simp only [h.base, h.cw40, h.sgi]
  exact hnamed

theorem filledSeries_tenTries (probing : Bool) :
    filledSeries cfg (tenTries rcflag) probing rate an =
      [rcRateSetseries cfg an.stbc (if probing then 1 else 2) rate false,
        rcRateSetseries cfg an.stbc 2 (rcRateGetIndex cfg an rate 1 false) (!probing),
        rcRateSetseries cfg an.stbc 2
          (rcRateGetIndex cfg an (rcRateGetIndex cfg an rate 1 false) 1 false) true,
        rcRateSetseries cfg an.stbc 4
          (rcRateGetIndex cfg an
            (rcRateGetIndex cfg an (rcRateGetIndex cfg an rate 1 false) 1 false) 1
            (rcflag &&& athRcMinrateLastrate ≠ 0)) true] := by
  cases probing <;>
    simp [filledSeries, laterSeries, tenTries, SeriesRequest.tryPerRate]

/-- The passes over the filled series change only what says the rate. -/
theorem map_passes (info : RateInfo) (series : List RateSeries) (f : RateSeries → ℕ)
    (hf : ∀ (rcs : RateSeries) (rix : ℕ) (flags : BitVec 16) (len : ℕ),
      f { rcs with rix := rix, flags := flags, max4msframelen := len } = f rcs) :
    (protectLower info (aggregateLower info series)).map f = series.map f := by
  have hprotect : ∀ l : List RateSeries, (protectLower info l).map f = l.map f := by
    intro l
    unfold protectLower
    split
    · split
      · rw [List.map_cons, List.map_cons]
        exact congrArg (· :: _) (hf _ _ _ _)
      · rfl
    · rfl
  rw [hprotect]
  unfold aggregateLower
  split
  · split
    · simp only [List.map_cons, List.map_nil, hf]
    · rfl
  · rfl

theorem found_map (f : RateSeries → ℕ)
    (hf : ∀ (rcs : RateSeries) (rix : ℕ) (flags : BitVec 16) (len : ℕ),
      f { rcs with rix := rix, flags := flags, max4msframelen := len } = f rcs)
    (req : SeriesRequest) (nowMsec : BitVec 32) (an : AtherosNode) :
    (rcRateFind11n cfg req nowMsec an).series.map f =
      (filledSeries cfg req
        (req.probeAllowed && (rcRateFindHt cfg.toRateConfig nowMsec req.probeAllowed an).isProbing)
        (rcRateFindHt cfg.toRateConfig nowMsec req.probeAllowed an).rate
        (rcRateFindHt cfg.toRateConfig nowMsec req.probeAllowed an).node).map f := by
  unfold rcRateFind11n
  dsimp only
  split
  · exact map_passes _ _ f hf
  · rfl

theorem Encodes.protectLower {rates : List ℕ} {series : List RateSeries} (info : RateInfo)
    (h : List.Forall₂ (Encodes cfg) rates series) :
    List.Forall₂ (Encodes cfg) rates (protectLower info series) := by
  cases h with
  | nil => exact .nil
  | cons hfirst hrest =>
    dsimp only [Rate.protectLower]
    split
    · exact .cons hfirst.protect hrest
    · exact .cons hfirst hrest

/-- Every series encodes the rate that was chosen for it. -/
theorem found_encodes (nowMsec : BitVec 32) (an : AtherosNode) :
    List.Forall₂ (Encodes cfg)
      (chosenRates cfg rcflag
        (rcRateFindHt cfg.toRateConfig nowMsec (tenTries rcflag).probeAllowed an).rate
        (rcRateFindHt cfg.toRateConfig nowMsec (tenTries rcflag).probeAllowed an).node)
      (rcRateFind11n cfg (tenTries rcflag) nowMsec an).series := by
  unfold rcRateFind11n
  dsimp only
  rw [filledSeries_tenTries]
  generalize (rcRateFindHt cfg.toRateConfig nowMsec (tenTries rcflag).probeAllowed an).rate = rate
  generalize (rcRateFindHt cfg.toRateConfig nowMsec (tenTries rcflag).probeAllowed an).node = node
  have hset := rcRateSetseries_encodes cfg node.stbc
  by_cases hng : cfg.ng = true
  · rw [if_pos hng]
    apply Encodes.protectLower
    unfold aggregateLower chosenRates aggregatesLower
    dsimp only
    by_cases hlower : (cfg.table.info rate).dot11Rate = 2 ∧ (cfg.table.info rate).phy = .ht40Ss ∨
        (cfg.table.info rate).dot11Rate = 3 ∧ (cfg.table.info rate).phy = .ht20Ss
    · have hthird := hset 2 (rcRateGetIndex cfg node (rcRateGetIndex cfg node rate 1 false) 1 false)
        true
      rw [if_pos hlower, if_pos (by simp [hng, hlower])]
      exact .cons (hset _ _ _) (.cons (hset _ _ _) (.cons hthird
        (.cons ⟨hthird.base, hthird.cw40, hthird.sgi⟩ .nil)))
    · rw [if_neg hlower, if_neg (by simp [hlower])]
      exact .cons (hset _ _ _) (.cons (hset _ _ _) (.cons (hset _ _ _) (.cons (hset _ _ _) .nil)))
  · rw [if_neg hng]
    unfold chosenRates aggregatesLower
    dsimp only
    rw [if_neg (by simp [hng])]
    exact .cons (hset _ _ _) (.cons (hset _ _ _) (.cons (hset _ _ _) (.cons (hset _ _ _) .nil)))

theorem falling_four {a b c d : ℕ} (hb : b ≤ a) (hc : c ≤ b) (hd : d ≤ c) :
    [a, b, c, d].Pairwise fun a b => b ≤ a := by
  simp
  omega

/-- The four rates fall, and each can be sent at. -/
theorem TableInvariants.steps (h : TableInvariants cfg.toRateConfig an)
    (hcfg : cfg ∈ seriesConfigs beyond) (rcflag : BitVec 32) (hrate : Sendable cfg an rate) :
    (∀ r ∈ chosenRates cfg rcflag rate an, Sendable cfg an r) ∧
      ((chosenRates cfg rcflag rate an).map fun r => (cfg.table.info r).rateKbps).Pairwise
        (fun a b => b ≤ a) ∧
      ((steppedRates cfg rcflag rate an).map fun r => (cfg.table.info r).rateKbps).Pairwise
        (fun a b => b ≤ a) := by
  have hstep : ∀ {r : ℕ} (minRate : Bool), Sendable cfg an r →
      Sendable cfg an (rcRateGetIndex cfg an r 1 minRate) ∧
        (cfg.table.info (rcRateGetIndex cfg an r 1 minRate)).rateKbps ≤
          (cfg.table.info r).rateKbps :=
    fun minRate hr => h.stepsDown hcfg _ hr
  obtain ⟨hsecond, hle₂⟩ := hstep false hrate
  obtain ⟨hthird, hle₃⟩ := hstep false hsecond
  obtain ⟨hfourth, hle₄⟩ := hstep (rcflag &&& athRcMinrateLastrate ≠ 0) hthird
  unfold chosenRates steppedRates
  dsimp only
  refine ⟨?_, ?_, ?_⟩
  · simp only [List.mem_cons, List.not_mem_nil, or_false]
    rintro r (rfl | rfl | rfl | rfl)
    · exact hrate
    · exact hsecond
    · exact hthird
    · split
      · exact hthird
      · exact hfourth
  · split
    · exact falling_four hle₂ hle₃ le_rfl
    · exact falling_four hle₂ hle₃ hle₄
  · exact falling_four hle₂ hle₃ hle₄

end

/-! ## Charges -/

/-- A call of `rcUpdate_ht`. -/
structure Charge where
  nowMsec : BitVec 32
  rate : ℕ
  Xretries : Int
  retries : ℕ
  nFrames : ℕ
  nBad : ℕ
  deriving DecidableEq, Repr

def charge (cfg : RateConfig) (an : AtherosNode) (c : Charge) : Option AtherosNode :=
  rcUpdateHt cfg c.nowMsec c.rate c.Xretries c.retries c.nFrames c.nBad an

/-- A rate in front of the last has failed for all frames. -/
def failedCharges (clock : ℕ → BitVec 32) (Xretries : Int) (nFrames : ℕ) (rates tries : Fin 4 → ℕ) :
    List (Fin 4) → List Charge
  | [] => []
  | i :: rest =>
      ⟨clock rest.length, rates i, if Xretries ≠ 0 then 1 else 2, tries i, nFrames, nFrames⟩ ::
        failedCharges clock Xretries nFrames rates tries rest

/-- The charges of a frame that ended at series `finalTSIdx`, one for each series up to that. -/
def charges (clock : ℕ → BitVec 32) (finalTSIdx : Fin 4) (Xretries : Int)
    (rates tries : Fin 4 → ℕ) (nFrames nBad longRetry : ℕ) : List Charge :=
  let final := if finalTSIdx = 0 ∧ tries 0 = 1 ∧ Xretries = 1 then 2 else Xretries
  failedCharges clock Xretries nFrames rates tries ((List.finRange 4).take finalTSIdx) ++
    [⟨clock 4, rates finalTSIdx, final, longRetry, nFrames, nBad⟩]

section

variable {cfg : RateConfig} {an an' : AtherosNode} {clock : ℕ → BitVec 32} {Xretries : Int}
  {nFrames nBad longRetry : ℕ} {rcs : Fin 4 → Tx.RcSeries} {rates : Fin 4 → ℕ}

theorem failedCharges_rates (tries : Fin 4 → ℕ) (l : List (Fin 4)) :
    (failedCharges clock Xretries nFrames rates tries l).map Charge.rate = l.map rates := by
  induction l with
  | nil => rfl
  | cons i rest ih => rw [failedCharges, List.map_cons, List.map_cons, ih]

theorem failedCharges_length (tries : Fin 4 → ℕ) (l : List (Fin 4)) :
    (failedCharges clock Xretries nFrames rates tries l).length = l.length := by
  rw [← List.length_map (f := Charge.rate), failedCharges_rates, List.length_map]

/-- The series that are charged before the width of one of them is found to be gone. -/
def kept (an : AtherosNode) (rcs : Fin 4 → Tx.RcSeries) (l : List (Fin 4)) : List (Fin 4) :=
  l.takeWhile fun i => !switchedMode an (rcs i)

theorem switchedMode_of_same (h : SameTables an an') (s : Tx.RcSeries) :
    switchedMode an' s = switchedMode an s := by
  unfold switchedMode
  rw [h.width]

theorem kept_of_same (h : SameTables an an') (rcs : Fin 4 → Tx.RcSeries) (l : List (Fin 4)) :
    kept an' rcs l = kept an rcs l := by
  unfold kept
  simp only [switchedMode_of_same h]

theorem foldlM_charge_same {l : List Charge} (h : l.foldlM (charge cfg) an = some an') :
    SameTables an an' := by
  induction l generalizing an with
  | nil =>
    obtain rfl := Option.some.inj h
    exact .refl an
  | cons c l ih =>
    rw [List.foldlM_cons] at h
    obtain ⟨next, hcharge, hrest⟩ := Option.bind_eq_some_iff.mp h
    exact (rcUpdateHt_tables hcharge).trans (ih hrest)

/-- The failed rates are charged one by one, up to a series whose width is gone. -/
theorem rcUpdateFailed_eq (htries : ∀ i, (rcs i).tries ≠ 0)
    (hrates : ∀ i, seriesRow cfg (rcs i) = rates i) (l : List (Fin 4)) (an : AtherosNode) :
    rcUpdateFailed cfg clock Xretries nFrames (l.map rcs) an =
      (((failedCharges clock Xretries nFrames rates (fun i => (rcs i).tries) l).take
        (kept an rcs l).length).foldlM (charge cfg) an).map
          fun an' => (an', decide ((kept an rcs l).length = l.length)) := by
  induction l generalizing an with
  | nil => rfl
  | cons i rest ih =>
    rw [List.map_cons, rcUpdateFailed, if_neg (htries i)]
    cases hswitched : switchedMode an (rcs i) with
    | true =>
      have hkept : kept an rcs (i :: rest) = [] := by
        rw [kept, List.takeWhile_cons_of_neg (by simp [hswitched])]
      rw [if_pos rfl, hkept]
      simp
    | false =>
      have hkept : kept an rcs (i :: rest) = i :: kept an rcs rest := by
        rw [kept, List.takeWhile_cons_of_pos (by simp [hswitched]), kept]
      rw [if_neg (by simp), hkept, List.length_cons, failedCharges, List.take_succ_cons,
        List.foldlM_cons, List.length_map, hrates]
      generalize hnext : rcUpdateHt cfg (clock rest.length) (rates i)
        (if Xretries ≠ 0 then 1 else 2) (rcs i).tries nFrames nFrames an = next
      have hcharge : charge cfg an ⟨clock rest.length, rates i, if Xretries ≠ 0 then 1 else 2,
        (rcs i).tries, nFrames, nFrames⟩ = next := hnext
      rw [hcharge]
      cases next with
      | none => rfl
      | some node =>
        have hsame := kept_of_same (rcUpdateHt_tables hnext) rcs rest
        have hrest := ih node
        rw [hsame] at hrest
        simp only [Option.bind_some, hrest, List.length_cons, Nat.add_right_cancel_iff]
        rfl

/-- A frame charges the rates of the series it used, up to one whose width is gone. -/
theorem rcUpdate11n_eq (htries : ∀ i, (rcs i).tries ≠ 0)
    (hrates : ∀ i, seriesRow cfg (rcs i) = rates i) (finalTSIdx : Fin 4) (an : AtherosNode) :
    rcUpdate11n cfg clock finalTSIdx Xretries rcs nFrames nBad longRetry an =
      ((charges clock finalTSIdx Xretries rates (fun i => (rcs i).tries) nFrames nBad
        longRetry).take
          (kept an rcs ((List.finRange 4).take finalTSIdx ++ [finalTSIdx])).length).foldlM
        (charge cfg) an := by
  unfold rcUpdate11n charges
  dsimp only
  generalize (List.finRange 4).take finalTSIdx = failed
  rw [rcUpdateFailed_eq htries hrates]
  have hlength : (failedCharges clock Xretries nFrames rates (fun i => (rcs i).tries)
      failed).length = failed.length := failedCharges_length _ failed
  generalize failedCharges clock Xretries nFrames rates (fun i => (rcs i).tries) failed = front at *
  have hkept : kept an rcs (failed ++ [finalTSIdx]) =
      if (kept an rcs failed).length = failed.length then
        failed ++ kept an rcs [finalTSIdx] else kept an rcs failed := List.takeWhile_append
  rw [hkept]
  by_cases hall : (kept an rcs failed).length = failed.length
  · rw [if_pos hall, hall, List.take_of_length_le (Nat.le_of_eq hlength), List.length_append,
      ← hlength, List.take_length_add_append, List.foldlM_append]
    cases hfront : front.foldlM (charge cfg) an with
    | none => rfl
    | some node =>
      have hsame := switchedMode_of_same (foldlM_charge_same hfront) (rcs finalTSIdx)
      cases hswitched : switchedMode an (rcs finalTSIdx) with
      | true =>
        simp [kept, hsame, hswitched]
      | false =>
        simp [kept, hsame, hswitched, charge, hrates]
  · have hle : (kept an rcs failed).length ≤ front.length := by
      rw [hlength]
      exact (List.takeWhile_prefix _).length_le
    rw [if_neg hall, List.take_append_of_le_length hle]
    cases hfront : (front.take (kept an rcs failed).length).foldlM (charge cfg) an with
    | none => rfl
    | some node => simp [hall]

theorem charges_rates (finalTSIdx : Fin 4) (tries : Fin 4 → ℕ) :
    (charges clock finalTSIdx Xretries rates tries nFrames nBad longRetry).map Charge.rate =
      ((List.finRange 4).take finalTSIdx ++ [finalTSIdx]).map rates := by
  unfold charges
  rw [List.map_append, failedCharges_rates, List.map_append]
  rfl

/-- Of the charges that are left each is for a series whose width is still there. -/
theorem kept_charges {finalTSIdx : Fin 4} {tries : Fin 4 → ℕ} {c : Charge}
    (hc : c ∈ (charges clock finalTSIdx Xretries rates tries nFrames nBad longRetry).take
      (kept an rcs ((List.finRange 4).take finalTSIdx ++ [finalTSIdx])).length) :
    ∃ i, c.rate = rates i ∧ switchedMode an (rcs i) = false := by
  have hrate := List.mem_map_of_mem (f := Charge.rate) hc
  have hprefix : kept an rcs ((List.finRange 4).take finalTSIdx ++ [finalTSIdx]) <+:
      (List.finRange 4).take finalTSIdx ++ [finalTSIdx] := List.takeWhile_prefix _
  rw [List.map_take, charges_rates, ← List.map_take, ← List.prefix_iff_eq_take.mp hprefix] at hrate
  obtain ⟨i, hi, heq⟩ := List.mem_map.mp hrate
  have hkept := List.mem_takeWhile_imp hi
  exact ⟨i, heq.symm, by simpa using hkept⟩

theorem charge_isSome {c : Charge} (hc : c.rate < maxTxRateTbl cfg.build) (an : AtherosNode) :
    ∃ after, charge cfg an c = some after := by
  unfold charge rcUpdateHt
  rw [if_neg (Nat.not_le_of_lt hc)]
  exact ⟨_, rfl⟩

theorem foldlM_charge_isSome {l : List Charge} (h : ∀ c ∈ l, c.rate < maxTxRateTbl cfg.build)
    (an : AtherosNode) : ∃ after, l.foldlM (charge cfg) an = some after := by
  induction l generalizing an with
  | nil => exact ⟨an, rfl⟩
  | cons c l ih =>
    obtain ⟨next, hnext⟩ := charge_isSome (h c List.mem_cons_self) an
    obtain ⟨after, hafter⟩ := ih (fun d hd => h d (List.mem_cons_of_mem c hd)) next
    refine ⟨after, ?_⟩
    rw [List.foldlM_cons, hnext]
    exact hafter

end

/-! ## The attribution -/

/-- The rates a frame is to be tried at. -/
def sentRates (cfg : SeriesConfig) (rcflag : BitVec 32) (nowMsec : BitVec 32)
    (an : AtherosNode) : List ℕ :=
  let choice := rcRateFindHt cfg.toRateConfig nowMsec (tenTries rcflag).probeAllowed an
  chosenRates cfg rcflag choice.rate choice.node

/-- The series as a buffer keeps them. -/
def bfRcs (series : List RateSeries) (i : Fin 4) : Tx.RcSeries := (series.getD i {}).toRcSeries

/-- Four series are filled, tried ten times or, with a probe, nine, at rates that do not rise and
that are read back from them. -/
structure RetrySeries (cfg : SeriesConfig) (found : Found) (rates : List ℕ) : Prop where
  four : found.series.length = 4
  tried : ∀ rcs ∈ found.series, 1 ≤ rcs.tries
  atMost : (found.series.map fun rcs => rcs.tries).sum ≤ 10
  unprobed : found.isProbe = false → (found.series.map fun rcs => rcs.tries).sum = 10
  falling : (found.series.map fun rcs => rcs.txrateKbps).Pairwise fun a b => b ≤ a
  ratesFalling : (rates.map fun rate => (cfg.table.info rate).rateKbps).Pairwise fun a b => b ≤ a
  readBack : found.series.map (fun rcs => seriesRow cfg.toRateConfig rcs.toRcSeries) = rates

/-- A frame that ended at a series charges the rates of the series up to that one; a node whose
width has changed is charged no rate of 40 MHz. -/
structure Attributed (cfg : SeriesConfig) (an : AtherosNode) (rcs : Fin 4 → Tx.RcSeries)
    (rates : Fin 4 → ℕ) : Prop where
  returns : ∀ an' clock finalTSIdx Xretries nFrames nBad longRetry,
    ∃ after, rcUpdate11n cfg.toRateConfig clock finalTSIdx Xretries rcs nFrames nBad longRetry an' =
      some after
  charged : ∀ an' clock finalTSIdx Xretries nFrames nBad longRetry,
    an'.rcPhyMode = an.rcPhyMode →
    rcUpdate11n cfg.toRateConfig clock finalTSIdx Xretries rcs nFrames nBad longRetry an' =
      (charges clock finalTSIdx Xretries rates (fun i => (rcs i).tries) nFrames nBad
        longRetry).foldlM (charge cfg.toRateConfig) an'
  narrowed : ∀ an' clock finalTSIdx Xretries nFrames nBad longRetry,
    an'.rcPhyMode ≠ an.rcPhyMode → ∃ k,
    rcUpdate11n cfg.toRateConfig clock finalTSIdx Xretries rcs nFrames nBad longRetry an' =
      ((charges clock finalTSIdx Xretries rates (fun i => (rcs i).tries) nFrames nBad
        longRetry).take k).foldlM (charge cfg.toRateConfig) an' ∧
    ∀ c ∈ (charges clock finalTSIdx Xretries rates (fun i => (rcs i).tries) nFrames nBad
      longRetry).take k, (cfg.table.info c.rate).phy.is40 = false

section

variable {cfg : SeriesConfig} {beyond : ℕ → RateInfo} {an : AtherosNode}
  {rcs : Fin 4 → Tx.RcSeries} {rates : Fin 4 → ℕ}

/-- Series that encode rates which can be sent at are charged rightly. -/
theorem attributed_of_encodes (hcfg : cfg ∈ seriesConfigs beyond) (htries : ∀ i, (rcs i).tries ≠ 0)
    (hrates : ∀ i, seriesRow cfg.toRateConfig (rcs i) = rates i)
    (hwide : ∀ i, (rcs i).flags &&& Tx.athRcCw40Flag ≠ 0 ↔
      (cfg.table.info (rates i)).phy.is40 = true)
    (hsend : ∀ i, Sendable cfg an (rates i)) : Attributed cfg an rcs rates := by
  constructor
  · intro an' clock finalTSIdx Xretries nFrames nBad longRetry
    rw [rcUpdate11n_eq htries hrates]
    apply foldlM_charge_isSome
    intro c hc
    obtain ⟨i, hrate, -⟩ := kept_charges hc
    rw [hrate]
    exact Nat.lt_of_lt_of_le (hsend i).inTable (rateCount_le (toRateConfig_mem hcfg))
  · intro an' clock finalTSIdx Xretries nFrames nBad longRetry hwidth
    have hkept : ∀ i, switchedMode an' (rcs i) = false := by
      intro i
      unfold switchedMode
      rw [decide_eq_false_iff_not, hwide, hwidth]
      rintro ⟨h40, hne⟩
      exact hne ((hsend i).width h40)
    have hall : kept an' rcs ((List.finRange 4).take finalTSIdx ++ [finalTSIdx]) =
        (List.finRange 4).take finalTSIdx ++ [finalTSIdx] := by
      unfold kept
      rw [List.takeWhile_eq_self_iff]
      intro i _
      simp [hkept]
    have hlength : (charges clock finalTSIdx Xretries rates (fun i => (rcs i).tries) nFrames nBad
        longRetry).length = ((List.finRange 4).take finalTSIdx ++ [finalTSIdx]).length := by
      rw [← List.length_map (f := Charge.rate), charges_rates, List.length_map]
    rw [rcUpdate11n_eq htries hrates, hall, ← hlength, List.take_length]
  · intro an' clock finalTSIdx Xretries nFrames nBad longRetry hwidth
    refine ⟨_, rcUpdate11n_eq htries hrates finalTSIdx an', ?_⟩
    intro c hc
    obtain ⟨i, hrate, hkept⟩ := kept_charges hc
    rw [hrate, ← Bool.not_eq_true]
    intro h40
    have hold := (hsend i).width h40
    unfold switchedMode at hkept
    rw [decide_eq_false_iff_not, hwide] at hkept
    exact hkept ⟨h40, fun hnew => hwidth (hnew.trans hold.symm)⟩

theorem found_tries (rcflag : BitVec 32) (nowMsec : BitVec 32) (an : AtherosNode) :
    (rcRateFind11n cfg (tenTries rcflag) nowMsec an).series.map (fun rcs => rcs.tries) =
      [if (tenTries rcflag).probeAllowed &&
        (rcRateFind11n cfg (tenTries rcflag) nowMsec an).isProbe then 1 else 2, 2, 2, 4] := by
  rw [found_map _ (fun _ _ _ _ => rfl), filledSeries_tenTries]
  rfl

theorem found_txrateKbps (rcflag : BitVec 32) (nowMsec : BitVec 32) (an : AtherosNode) :
    (rcRateFind11n cfg (tenTries rcflag) nowMsec an).series.map (fun rcs => rcs.txrateKbps) =
      (steppedRates cfg rcflag
        (rcRateFindHt cfg.toRateConfig nowMsec (tenTries rcflag).probeAllowed an).rate
        (rcRateFindHt cfg.toRateConfig nowMsec (tenTries rcflag).probeAllowed an).node).map
          fun rate => (cfg.table.info rate).rateKbps := by
  rw [found_map _ (fun _ _ _ _ => rfl), filledSeries_tenTries]
  rfl

theorem forall₂_getD {R : ℕ → RateSeries → Prop} {rates : List ℕ} {series : List RateSeries}
    (h : List.Forall₂ R rates series) {i : ℕ} (hi : i < series.length) :
    R (rates.getD i 0) (series.getD i {}) := by
  have hrates : i < rates.length := h.length_eq ▸ hi
  rw [List.getD_eq_getElem _ _ hrates, List.getD_eq_getElem _ _ hi]
  exact h.get hrates hi

theorem map_of_forall₂ {R : ℕ → RateSeries → Prop} {rates : List ℕ} {series : List RateSeries}
    {f : RateSeries → ℕ} (h : List.Forall₂ R rates series)
    (hf : ∀ rate ∈ rates, ∀ rcs, R rate rcs → f rcs = rate) : series.map f = rates := by
  induction h with
  | nil => rfl
  | cons hhead _ ih =>
    rw [List.map_cons, hf _ List.mem_cons_self _ hhead,
      ih fun rate hrate => hf rate (List.mem_cons_of_mem _ hrate)]

/-- In every state with sound tables a call with ten tries fills four series, each with a try,
with ten tries at most and with ten where it does not probe, at rates that do not rise; and when
the frame is done, exactly the rates of the series it used are charged, none of 40 MHz if the width
has changed. -/
theorem retry_series_charged (hcfg : cfg ∈ seriesConfigs beyond)
    (h : TableInvariants cfg.toRateConfig an) (nowMsec rcflag : BitVec 32) :
    RetrySeries cfg (rcRateFind11n cfg (tenTries rcflag) nowMsec an)
        (sentRates cfg rcflag nowMsec an) ∧
      Attributed cfg an (bfRcs (rcRateFind11n cfg (tenTries rcflag) nowMsec an).series)
        fun i => (sentRates cfg rcflag nowMsec an).getD i 0 := by
  have hsame := rcRateFindHt_tables cfg.toRateConfig nowMsec (tenTries rcflag).probeAllowed an
  have hchoice := h.choice_sendable hcfg nowMsec (tenTries rcflag).probeAllowed
  have hnode : Sendable cfg
      (rcRateFindHt cfg.toRateConfig nowMsec (tenTries rcflag).probeAllowed an).node
      (rcRateFindHt cfg.toRateConfig nowMsec (tenTries rcflag).probeAllowed an).rate :=
    ⟨hchoice.inTable, fun h40 => hsame.width.trans (hchoice.width h40)⟩
  obtain ⟨hsend, hfalling, hstepped⟩ := (h.of_same hsame).steps hcfg rcflag hnode
  have hencodes : List.Forall₂ (Encodes cfg) (sentRates cfg rcflag nowMsec an)
      (rcRateFind11n cfg (tenTries rcflag) nowMsec an).series := found_encodes nowMsec an
  have htries : (rcRateFind11n cfg (tenTries rcflag) nowMsec an).series.map (fun rcs => rcs.tries) =
      _ := found_tries rcflag nowMsec an
  rw [← found_txrateKbps] at hstepped
  generalize rcRateFind11n cfg (tenTries rcflag) nowMsec an = found at *
  have hlength : found.series.length = 4 := by
    rw [← List.length_map, htries]
    rfl
  have hread : ∀ rate ∈ sentRates cfg rcflag nowMsec an, ∀ rcs, Encodes cfg rate rcs →
      seriesRow cfg.toRateConfig rcs.toRcSeries = rate :=
    fun rate hmem rcs hencode => hencode.seriesRow hcfg (hsend _ hmem).inTable
  have hindex : ∀ i : Fin 4, (i : ℕ) < found.series.length := by
    intro i
    rw [hlength]
    exact i.isLt
  have hmem : ∀ i : Fin 4, (sentRates cfg rcflag nowMsec an).getD i 0 ∈
      sentRates cfg rcflag nowMsec an := by
    intro i
    have hi : (i : ℕ) < (sentRates cfg rcflag nowMsec an).length := by
      rw [hencodes.length_eq]
      exact hindex i
    rw [List.getD_eq_getElem _ _ hi]
    exact List.getElem_mem hi
  have htried : ∀ rcs ∈ found.series, 1 ≤ rcs.tries := by
    intro rcs hrcs
    have htry := List.mem_map_of_mem (f := fun rcs : RateSeries => rcs.tries) hrcs
    rw [htries] at htry
    revert htry
    split <;> simp <;> omega
  have hat : ∀ i : Fin 4, Encodes cfg ((sentRates cfg rcflag nowMsec an).getD i 0)
      (found.series.getD i {}) := by
    intro i
    exact forall₂_getD hencodes (hindex i)
  constructor
  · constructor
    · exact hlength
    · exact htried
    · rw [htries]
      split <;> decide
    · intro hprobe
      rw [htries, hprobe, Bool.and_false]
      decide
    · exact hstepped
    · exact hfalling
    · exact map_of_forall₂ hencodes hread
  · apply attributed_of_encodes hcfg
    · intro i
      have hrcs : found.series.getD i {} ∈ found.series := by
        rw [List.getD_eq_getElem _ _ (hindex i)]
        exact List.getElem_mem _
      exact Nat.ne_of_gt (htried _ hrcs)
    · exact fun i => hread _ (hmem i) _ (hat i)
    · exact fun i => (hat i).cw40
    · intro i
      have hat := hsend _ (hmem i)
      exact ⟨hat.inTable, fun h40 => hsame.width.symm.trans (hat.width h40)⟩

end

def k2SeriesConfig : SeriesConfig := ⟨k2Config, true, ngSendInfosK2, ngSendInfosK2_length⟩

/-- A peer that takes HT40 with short guard interval. -/
def peerHt40 : RateSet := ⟨[2, 4, 11, 22], [0, 1, 2, 3, 4, 5, 6, 7]⟩

def capHt40 : BitVec 32 := wlanRcHtFlag ||| wlanRc40Flag ||| wlanRcHt40SgiFlag

/-- The series start at 90 Mb/s, with the short guard interval, and go down to 40.5 Mb/s. -/
theorem retry_series_ht40 : ∃ an,
    rcSibUpdateHt k2Config capHt40 peerHt40 clearedNode.node = some an ∧
      sentRates k2SeriesConfig athRcProbeAllowed 200 an = [38, 37, 36, 35] ∧
      RetrySeries k2SeriesConfig (rcRateFind11n k2SeriesConfig (tenTries athRcProbeAllowed) 200 an)
        [38, 37, 36, 35] ∧
      Attributed k2SeriesConfig an
        (bfRcs (rcRateFind11n k2SeriesConfig (tenTries athRcProbeAllowed) 200 an).series)
        fun i => [38, 37, 36, 35].getD i 0 := by
  have hrun : (rcSibUpdateHt k2Config capHt40 peerHt40 clearedNode.node).map
      (sentRates k2SeriesConfig athRcProbeAllowed 200) = some [38, 37, 36, 35] := by
    decide +kernel
  obtain ⟨an, hupdate, hsent⟩ := Option.map_eq_some_iff.mp hrun
  have htables : TableInvariants k2SeriesConfig.toRateConfig an := rcSibUpdateHt_tables hupdate
  have hcfg : k2SeriesConfig ∈ seriesConfigs fun _ => clearedInfo := List.mem_cons_self
  obtain ⟨hseries, hcharged⟩ := retry_series_charged hcfg htables 200 athRcProbeAllowed
  rw [hsent] at hseries hcharged
  exact ⟨an, hupdate, hsent, hseries, hcharged⟩

end Ath9kHtc.Rate
