import Ath9kHtc.Rate.RateSets

/-!
# The retry series

`rcRateFind_11n`: the rates a frame is tried at, one below the other.
-/

namespace Ath9kHtc.Rate

def athRcDsFlag : BitVec 16 := 0x01
def athRcSeriesStbcFlag : BitVec 16 := 0x20

def athRcProbeAllowed : BitVec 32 := 0x01
def athRcMinrateLastrate : BitVec 32 := 0x02

/-- `RATE_TABLE_11N_SIZE` -/
def rateTable11nSize : Build → ℕ
  | .k2 => 54
  | .magpie => 64

/-- The columns of `rc11n_info_t` that only a series takes. -/
structure SendInfo where
  rateCode : BitVec 8
  max4msframelen : ℕ
  deriving DecidableEq, Repr

def ngSendInfosK2 : List SendInfo :=
  [⟨0x1b, 0⟩, ⟨0x1a, 0⟩, ⟨0x19, 0⟩, ⟨0x18, 0⟩, ⟨0x0b, 0⟩, ⟨0x0f, 0⟩, ⟨0x0a, 0⟩, ⟨0x0e, 0⟩,
    ⟨0x09, 0⟩, ⟨0x0d, 0⟩, ⟨0x08, 0⟩, ⟨0x0c, 0⟩, ⟨0x80, 3216⟩, ⟨0x81, 6434⟩, ⟨0x82, 9650⟩,
    ⟨0x83, 12868⟩, ⟨0x84, 19304⟩, ⟨0x84, 21460⟩, ⟨0x85, 25740⟩, ⟨0x85, 28620⟩, ⟨0x86, 28956⟩,
    ⟨0x86, 32200⟩, ⟨0x87, 32200⟩, ⟨0x87, 35750⟩, ⟨0x8b, 25736⟩, ⟨0x8c, 38600⟩, ⟨0x8c, 42890⟩,
    ⟨0x8d, 51472⟩, ⟨0x8d, 57190⟩, ⟨0x8e, 57890⟩, ⟨0x8e, 64320⟩, ⟨0x8f, 64320⟩, ⟨0x8f, 71490⟩,
    ⟨0x80, 6684⟩, ⟨0x81, 13368⟩, ⟨0x82, 20052⟩, ⟨0x83, 26738⟩, ⟨0x84, 40104⟩, ⟨0x84, 44590⟩,
    ⟨0x85, 53476⟩, ⟨0x85, 59450⟩, ⟨0x86, 60156⟩, ⟨0x86, 66840⟩, ⟨0x87, 66840⟩, ⟨0x87, 74200⟩,
    ⟨0x8b, 53440⟩, ⟨0x8c, 80160⟩, ⟨0x8c, 89090⟩, ⟨0x8d, 106880⟩, ⟨0x8d, 118790⟩, ⟨0x8e, 120240⟩,
    ⟨0x8e, 133600⟩, ⟨0x8f, 133600⟩, ⟨0x8f, 148400⟩]

def ngSendInfos : List SendInfo :=
  [⟨0x1b, 0⟩, ⟨0x1a, 0⟩, ⟨0x19, 0⟩, ⟨0x18, 0⟩, ⟨0x0b, 0⟩, ⟨0x0f, 0⟩, ⟨0x0a, 0⟩, ⟨0x0e, 0⟩,
    ⟨0x09, 0⟩, ⟨0x0d, 0⟩, ⟨0x08, 0⟩, ⟨0x0c, 0⟩, ⟨0x80, 3216⟩, ⟨0x81, 6434⟩, ⟨0x82, 9650⟩,
    ⟨0x83, 12868⟩, ⟨0x84, 19304⟩, ⟨0x85, 25740⟩, ⟨0x86, 28956⟩, ⟨0x87, 32180⟩, ⟨0x88, 6430⟩,
    ⟨0x89, 12860⟩, ⟨0x8a, 19300⟩, ⟨0x8b, 25736⟩, ⟨0x8c, 38600⟩, ⟨0x8d, 51472⟩, ⟨0x8e, 57890⟩,
    ⟨0x8f, 64320⟩, ⟨0x80, 6684⟩, ⟨0x81, 13368⟩, ⟨0x82, 20052⟩, ⟨0x83, 26738⟩, ⟨0x84, 40104⟩,
    ⟨0x85, 53476⟩, ⟨0x86, 60156⟩, ⟨0x87, 66840⟩, ⟨0x87, 74200⟩, ⟨0x88, 13360⟩, ⟨0x89, 26720⟩,
    ⟨0x8a, 40080⟩, ⟨0x8b, 53440⟩, ⟨0x8c, 80160⟩, ⟨0x8d, 106880⟩, ⟨0x8e, 120240⟩, ⟨0x8f, 133600⟩,
    ⟨0x8f, 148400⟩]

def naSendInfos : List SendInfo :=
  [⟨0x0b, 0⟩, ⟨0x0f, 0⟩, ⟨0x0a, 0⟩, ⟨0x0e, 0⟩, ⟨0x09, 0⟩, ⟨0x0d, 0⟩, ⟨0x08, 0⟩, ⟨0x0c, 0⟩,
    ⟨0x80, 3216⟩, ⟨0x81, 6434⟩, ⟨0x82, 9650⟩, ⟨0x83, 12868⟩, ⟨0x84, 19304⟩, ⟨0x85, 25740⟩,
    ⟨0x86, 28956⟩, ⟨0x87, 32180⟩, ⟨0x88, 6430⟩, ⟨0x89, 12860⟩, ⟨0x8a, 19300⟩, ⟨0x8b, 25736⟩,
    ⟨0x8c, 38600⟩, ⟨0x8d, 51472⟩, ⟨0x8e, 57890⟩, ⟨0x8f, 64320⟩, ⟨0x80, 6684⟩, ⟨0x81, 13368⟩,
    ⟨0x82, 20052⟩, ⟨0x83, 26738⟩, ⟨0x84, 40104⟩, ⟨0x85, 53476⟩, ⟨0x86, 60156⟩, ⟨0x87, 66840⟩,
    ⟨0x87, 65535⟩, ⟨0x88, 13360⟩, ⟨0x89, 26720⟩, ⟨0x8a, 40080⟩, ⟨0x8b, 53440⟩, ⟨0x8c, 80160⟩,
    ⟨0x8d, 106880⟩, ⟨0x8e, 120240⟩, ⟨0x8f, 133600⟩, ⟨0x8f, 148400⟩]

/-- A table with all of its columns; `ng` says that `sc_curmode` is `IEEE80211_MODE_11NG`. -/
structure SeriesConfig extends RateConfig where
  ng : Bool
  sends : List SendInfo
  complete : sends.length = table.rows.length

theorem ngSendInfosK2_length : ngSendInfosK2.length = ar5416NgRateTableK2.length := rfl

theorem ngSendInfos_length : ngSendInfos.length = ar5416NgRateTable.length := rfl

theorem naSendInfos_length : naSendInfos.length = ar5416NaRateTable.length := rfl

theorem ngRateTableK2_carries : ∀ row ∈ ar5416NgRateTableK2, 0 < row.userRateKbps := by decide

theorem ngRateTable_carries : ∀ row ∈ ar5416NgRateTable, 0 < row.userRateKbps := by decide

theorem naRateTable_carries : ∀ row ∈ ar5416NaRateTable, 0 < row.userRateKbps := by decide

def seriesConfigs (beyond : ℕ → RateInfo) : List SeriesConfig :=
  [⟨⟨.k2, ⟨ar5416NgRateTableK2, 100, 50, beyond, ngRateTableK2_carries⟩⟩, true, ngSendInfosK2,
      ngSendInfosK2_length⟩,
    ⟨⟨.magpie, ⟨ar5416NgRateTable, 50, 50, beyond, ngRateTable_carries⟩⟩, true, ngSendInfos,
      ngSendInfos_length⟩,
    ⟨⟨.magpie, ⟨ar5416NaRateTable, 50, 50, beyond, naRateTable_carries⟩⟩, false, naSendInfos,
      naSendInfos_length⟩]

/-- A row of the columns; the rates that are sent at lie in the table. -/
def SeriesConfig.send (cfg : SeriesConfig) (rate : ℕ) : SendInfo := cfg.sends.getD rate ⟨0, 0⟩

/-- `struct ath_rc_series`; nothing reads its chain mask. -/
structure RateSeries extends Tx.RcSeries where
  txrateKbps : ℕ := 0
  deriving DecidableEq, Repr

/-! ## The function -/

def seriesFlags (cfg : SeriesConfig) (stbc : Bool) (rix : ℕ) (rtsctsenable : Bool) : BitVec 16 :=
  let phy := (cfg.table.info rix).phy
  let code := (cfg.send rix).rateCode
  (if rtsctsenable then Tx.athRcRtsctsFlag else 0) |||
    (if phy.isDs then athRcDsFlag else 0) |||
    (if phy.is40 then Tx.athRcCw40Flag else 0) |||
    (if phy.isSgi then Tx.athRcHt40SgiFlag else 0) |||
    -- only single stream STBC is supported
    (if cfg.build = .magpie ∧ stbc ∧ 0x80 ≤ code ∧ code ≤ 0x87 then athRcSeriesStbcFlag else 0)

def rcRateSetseries (cfg : SeriesConfig) (stbc : Bool) (tries rix : ℕ) (rtsctsenable : Bool) :
    RateSeries where
  tries := tries
  flags := seriesFlags cfg stbc rix rtsctsenable
  rix := (cfg.table.info rix).baseIndex
  max4msframelen := (cfg.send rix).max4msframelen
  txrateKbps := (cfg.table.info rix).rateKbps

/-- At most `n` steps down in the valid rates. -/
def stepsDown (valid : List ℕ) : ℕ → ℕ → ℕ
  | 0, rix => rix
  | n + 1, rix =>
      match rcGetNextLowerValidTxRate rix valid with
      | some nextIndex => stepsDown valid n nextIndex
      | none => rix

def rcRateGetIndex (cfg : SeriesConfig) (an : AtherosNode) (rix stepDown : ℕ) (minRate : Bool) :
    ℕ :=
  stepsDown an.validRateIndex (if minRate then rateTable11nSize cfg.build else stepDown) rix

/-- What `rcRateFind_11n` is called with. -/
structure SeriesRequest where
  numTries : ℕ
  numRates : ℕ
  stepDnInc : ℕ
  rcflag : BitVec 32

def SeriesRequest.probeAllowed (req : SeriesRequest) : Bool := req.rcflag &&& athRcProbeAllowed ≠ 0

/-- `numTries/numRates`, in a byte. -/
def SeriesRequest.tryPerRate (req : SeriesRequest) : ℕ := req.numTries / req.numRates % 256

/-- The loop for multirate retry; `left` of the rates are missing. -/
def laterSeries (cfg : SeriesConfig) (req : SeriesRequest) (an : AtherosNode) :
    (left i nrix : ℕ) → List RateSeries
  | 0, _, _ => []
  | left + 1, i, nrix =>
      let tryNum :=
        if i + 1 = req.numRates then ((req.numTries - req.tryPerRate * i : Int) % 256).toNat
        else req.tryPerRate
      let minRate := i + 1 = req.numRates ∧ req.rcflag &&& athRcMinrateLastrate ≠ 0
      let nrix := rcRateGetIndex cfg an nrix req.stepDnInc minRate
      rcRateSetseries cfg an.stbc tryNum nrix true :: laterSeries cfg req an left (i + 1) nrix

/-- The fourth of four series is made the third again, if the frame starts at MCS2 in HT40 or at
MCS3 in HT20. -/
def aggregateLower (info : RateInfo) : List RateSeries → List RateSeries
  | [first, second, third, fourth] =>
      if info.dot11Rate = 2 ∧ info.phy = .ht40Ss ∨ info.dot11Rate = 3 ∧ info.phy = .ht20Ss then
        [first, second, third,
          { fourth with
            rix := third.rix, flags := third.flags, max4msframelen := third.max4msframelen }]
      else [first, second, third, fourth]
  | series => series

/-- RTS/CTS at MCS 3 to 0. -/
def protectLower (info : RateInfo) : List RateSeries → List RateSeries
  | first :: series =>
      if info.dot11Rate ≤ 3 then
        { first with flags := first.flags ||| Tx.athRcRtsctsFlag } :: series
      else first :: series
  | [] => []

structure Found where
  series : List RateSeries
  isProbe : Bool
  node : AtherosNode

/-- The series as they are first filled. A probe is tried once, and the rate below it goes without
RTS too. -/
def filledSeries (cfg : SeriesConfig) (req : SeriesRequest) (probing : Bool) (rix : ℕ)
    (an : AtherosNode) : List RateSeries :=
  if probing then
    let nrix := rcRateGetIndex cfg an rix 1 false
    rcRateSetseries cfg an.stbc 1 rix false ::
      rcRateSetseries cfg an.stbc req.tryPerRate nrix false ::
        laterSeries cfg req an (req.numRates - 2) 2 nrix
  else
    rcRateSetseries cfg an.stbc req.tryPerRate rix false ::
      laterSeries cfg req an (req.numRates - 1) 1 rix

def rcRateFind11n (cfg : SeriesConfig) (req : SeriesRequest) (nowMsec : BitVec 32)
    (an : AtherosNode) : Found :=
  let choice := rcRateFindHt cfg.toRateConfig nowMsec req.probeAllowed an
  let series :=
    filledSeries cfg req (req.probeAllowed && choice.isProbing) choice.rate choice.node
  let info := cfg.table.info choice.rate
  { series := if cfg.ng then protectLower info (aggregateLower info series) else series
    isProbe := choice.isProbing
    node := choice.node }

/-! ## The tables -/

section

variable {cfg : SeriesConfig} {beyond : ℕ → RateInfo} {an an' : AtherosNode} {i j : ℕ}

theorem toRateConfig_mem (hcfg : cfg ∈ seriesConfigs beyond) :
    cfg.toRateConfig ∈ firmwareTables beyond := by
  simp only [seriesConfigs, List.mem_cons, List.not_mem_nil, or_false] at hcfg
  rcases hcfg with rfl | rfl | rfl <;> simp [firmwareTables]

theorem getElem?_info {t : RateTable} (h : i < t.rateCount) : t.rows[i]? = some (t.info i) := by
  have hget : t.rows[i]? = some t.rows[i] := List.getElem?_eq_getElem h
  rw [hget, RateTable.info, List.getD_eq_getElem?_getD, hget, Option.getD_some]

theorem info_of_getElem? {t : RateTable} {row : RateInfo} (h : t.rows[i]? = some row) :
    t.info i = row := by
  rw [RateTable.info, List.getD_eq_getElem?_getD, h, Option.getD_some]

/-- The row that the columns of a base row and two flags name. -/
def RateInfo.named (base : RateInfo) (cw40 sgi : Bool) : ℕ :=
  if cw40 ∧ sgi then base.htIndex
  else if sgi then base.sgiIndex
  else if cw40 then base.cw40Index
  else base.baseIndex

/-- The base row of a rate names it under the flags of its phy. -/
theorem base_names (hcfg : cfg ∈ seriesConfigs beyond) (hj : j < cfg.table.rateCount) :
    (cfg.table.info (cfg.table.info j).baseIndex).named (cfg.table.info j).phy.is40
      (cfg.table.info j).phy.isSgi = j := by
  have hall : ∀ built ∈ builtRows, ∀ j < built.2.length,
      (built.2[j]?.bind fun row => built.2[row.baseIndex]?.map fun base =>
        base.named row.phy.is40 row.phy.isSgi) = some j := by decide +kernel
  have hrow := hall _ (mem_builtRows (toRateConfig_mem hcfg)) j hj
  dsimp only at hrow
  rw [getElem?_info hj, Option.bind_some, Option.map_eq_some_iff] at hrow
  obtain ⟨base, hbase, hnamed⟩ := hrow
  rw [info_of_getElem? hbase]
  exact hnamed

/-- The rates of 40 MHz stand behind the others. -/
theorem is40_mono (hcfg : cfg ∈ seriesConfigs beyond) (hij : i ≤ j)
    (hj : j < cfg.table.rateCount) (h40 : (cfg.table.info i).phy.is40 = true) :
    (cfg.table.info j).phy.is40 = true := by
  have hall : ∀ built ∈ builtRows, ∀ j < built.2.length, ∀ i ≤ j,
      (built.2[i]?.any fun row => row.phy.is40) = true →
        (built.2[j]?.any fun row => row.phy.is40) = true := by decide +kernel
  have hrow := hall _ (mem_builtRows (toRateConfig_mem hcfg)) j hj i hij
  dsimp only at hrow
  rw [getElem?_info hj, getElem?_info (Nat.lt_of_le_of_lt hij hj)] at hrow
  exact hrow h40

/-! ## Rates of one peer -/

/-- The column of a row that counts in the K2 build. -/
def RateInfo.streamColumn (info : RateInfo) (single : Bool) : BitVec 8 :=
  if single then info.validSingleStream else info.valid

def modes : List (BitVec 8) := [validTrue, true20, true40]

/-- Of two rows for one mode the one that carries more is the faster one. -/
theorem rateKbps_le_of_userRateKbps : ∀ single, ∀ mode ∈ modes, ∀ a ∈ ar5416NgRateTableK2,
    ∀ b ∈ ar5416NgRateTableK2, a.streamColumn single &&& mode ≠ 0 →
      b.streamColumn single &&& mode ≠ 0 → a.userRateKbps ≤ b.userRateKbps →
        a.rateKbps ≤ b.rateKbps := by decide +kernel

variable {stbc : Bool} {capflag : BitVec 32} {rs : RateSet}

theorem capMode_mem (capflag : BitVec 32) : capMode capflag ∈ modes := by
  unfold capMode
  split
  · split <;> decide
  · decide

theorem modes_ne_zero : ∀ mode ∈ modes, mode ≠ 0 := by decide

theorem HtAllowed.column (h : HtAllowed cfg.toRateConfig stbc capflag j) :
    validColumn cfg.toRateConfig stbc capflag (cfg.table.info j) &&& capMode capflag ≠ 0 := by
  have hflag := h.flag
  obtain ⟨-, hvalid, -⟩ := h
  simp only [htValid, decide_eq_true_eq] at hvalid
  rw [capMode, if_pos hflag]
  rcases hvalid with ⟨hcolumn, h40⟩ | ⟨hcolumn, h40⟩
  · rwa [if_neg (by simpa using h40)]
  · rwa [if_pos h40]

/-- The rates entered for a peer are rates for one mode. -/
theorem entered_column (hk2 : cfg.build = .k2) : ∃ mode ∈ modes,
    ∀ rate ∈ enteredRates cfg.toRateConfig stbc capflag rs,
      (cfg.table.info rate).streamColumn (singleStream capflag) &&& mode ≠ 0 := by
  have hcolumn : ∀ info, validColumn cfg.toRateConfig stbc capflag info =
      info.streamColumn (singleStream capflag) := by
    intro info
    rw [validColumn, if_neg (by simp [hk2]), RateInfo.streamColumn]
  by_cases hrates : rs.rates = []
  · refine ⟨validTrue, by decide, ?_⟩
    intro rate hrate
    rw [enteredRates, if_pos hrates, mem_initialRates] at hrate
    have hvalid : (cfg.table.info rate).streamColumn (singleStream capflag) = validTrue :=
      hrate.2.1
    rw [hvalid]
    decide
  · refine ⟨capMode capflag, capMode_mem capflag, ?_⟩
    intro rate hrate
    rw [mem_enteredRates_iff hrates, InRateSet, if_neg hrates] at hrate
    rw [← hcolumn]
    rcases hrate.2 with ⟨hlegacy, -⟩ | ⟨hht, -⟩
    · rw [hlegacy.1]
      exact modes_ne_zero _ (capMode_mem capflag)
    · exact hht.column

/-- The order of the valid rates is the order of their speed. -/
theorem entered_rateKbps_le (hcfg : cfg ∈ seriesConfigs beyond)
    (hi : i ∈ enteredRates cfg.toRateConfig stbc capflag rs)
    (hj : j ∈ enteredRates cfg.toRateConfig stbc capflag rs)
    (hkey : sortKey cfg.toRateConfig i ≤ sortKey cfg.toRateConfig j) :
    (cfg.table.info i).rateKbps ≤ (cfg.table.info j).rateKbps := by
  unfold sortKey at hkey
  cases hbuild : cfg.build with
  | magpie => rwa [hbuild] at hkey
  | k2 =>
    rw [hbuild] at hkey
    have hrows : cfg.table.rows = ar5416NgRateTableK2 := by
      simp only [seriesConfigs, List.mem_cons, List.not_mem_nil, or_false] at hcfg
      rcases hcfg with rfl | rfl | rfl
      · rfl
      · cases hbuild
      · cases hbuild
    have hone : ∃ mode ∈ modes, ∀ rate ∈ enteredRates cfg.toRateConfig stbc capflag rs,
        (cfg.table.info rate).streamColumn (singleStream capflag) &&& mode ≠ 0 :=
      entered_column hbuild
    obtain ⟨mode, hmode, hcolumn⟩ := hone
    have hrow : ∀ rate ∈ enteredRates cfg.toRateConfig stbc capflag rs,
        cfg.table.info rate ∈ ar5416NgRateTableK2 := by
      intro rate hrate
      rw [← hrows]
      exact info_mem (enteredRates_lt hrate)
    exact rateKbps_le_of_userRateKbps _ mode hmode _ (hrow i hi) _ (hrow j hj) (hcolumn i hi)
      (hcolumn j hj) hkey

/-- A rate of 40 MHz is entered for 40 MHz only. -/
theorem entered_is40 (hrate : j ∈ enteredRates cfg.toRateConfig stbc capflag rs)
    (h40 : (cfg.table.info j).phy.is40 = true) : capflag &&& wlanRc40Flag = wlanRc40Flag := by
  have hvalid : rcIsValidPhyRate (cfg.table.info j).phy capflag = true := by
    by_cases hrates : rs.rates = []
    · rw [enteredRates, if_pos hrates, mem_initialRates] at hrate
      exact hrate.2.2
    · rw [mem_enteredRates_iff hrates, InRateSet, if_neg hrates] at hrate
      rcases hrate.2 with ⟨hlegacy, -⟩ | ⟨hht, -⟩
      · exact hlegacy.2.2
      · exact hht.2.2.2
  have hht : (cfg.table.info j).phy.isHt = true := by
    revert h40
    cases (cfg.table.info j).phy <;> decide
  have hflag : capflag &&& wlanRc40Flag ≠ 0 := by
    intro hzero
    simp [rcIsValidPhyRate, hht, h40, hzero] at hvalid
  have hbit : wlanRc40Flag = BitVec.twoPow 32 1 := by decide
  rw [hbit, BitVec.and_twoPow] at hflag ⊢
  split at hflag
  case isTrue hset => exact if_pos hset
  case isFalse => exact absurd rfl hflag

end

end Ath9kHtc.Rate
