import Ath9kHtc.Lib.Run
import Ath9kHtc.Lib.Sweep
import Ath9kHtc.Rate.Types
import Ath9kHtc.Tx.Types

/-!
# Rate control

`ratectrl_11n_ln.c`, function by function.  A call that would write behind an array of the node is
not defined; a read in front of `validRateIndex` gives the bytes of the fields that lie there.
-/

namespace Ath9kHtc.Rate

/-! ## Rate sets -/

def rcIsValidPhyRate (phy : WlanPhy) (capflag : BitVec 32) : Bool :=
  if phy.isHt ∧ capflag &&& wlanRcHtFlag = 0 then false
  else if phy.isDs ∧ capflag &&& wlanRcDsFlag = 0 then false
  else if phy.isSgi ∧ capflag &&& wlanRcHt40SgiFlag = 0 then false
  else if phy.isHt ∧ phy.is40 ∧ capflag &&& wlanRc40Flag = 0 then false
  else if phy.isHt ∧ ¬phy.is40 ∧ capflag &&& wlanRc40Flag ≠ 0 then false
  else true

/-- `WLAN_RC_CAP_MODE` -/
def capMode (capflag : BitVec 32) : BitVec 8 :=
  if capflag &&& wlanRcHtFlag ≠ 0 then
    if capflag &&& wlanRc40Flag ≠ 0 then true40 else true20
  else validTrue

/-- `WLAN_RC_PHY_HT_VALID` -/
def htValid (flag : BitVec 8) (capflag : BitVec 32) : Bool :=
  (flag &&& true20 ≠ 0 ∧ capflag &&& wlanRc40Flag = 0) ∨
    (flag &&& true40 ≠ 0 ∧ capflag &&& wlanRc40Flag ≠ 0)

def singleStream (capflag : BitVec 32) : Bool := capflag &&& wlanRcDsFlag = 0

/-- The column of a row that counts for the node. -/
def validColumn (cfg : RateConfig) (stbc : Bool) (capflag : BitVec 32) (info : RateInfo) :
    BitVec 8 :=
  if cfg.build = .magpie ∧ stbc then info.validSTBC
  else if singleStream capflag then info.validSingleStream
  else info.valid

/-- The rates that are entered when there is no working rate set. -/
def rcSibInitValidRates (cfg : RateConfig) (capflag : BitVec 32) : List ℕ :=
  (List.range cfg.table.rateCount).filter fun i =>
    let info := cfg.table.info i
    (if singleStream capflag then info.validSingleStream else info.valid) = validTrue ∧
      rcIsValidPhyRate info.phy capflag

/-- The legacy rates of the set, in the order they are entered. -/
def rcSibSetValidRates (cfg : RateConfig) (stbc : Bool) (rsRates : List ℕ)
    (capflag : BitVec 32) : List ℕ :=
  rsRates.flatMap fun rate =>
    (List.range cfg.table.rateCount).filter fun j =>
      let info := cfg.table.info j
      rate % 128 = info.dot11Rate % 128 ∧
        validColumn cfg stbc capflag info &&& capMode capflag = capMode capflag ∧
        ¬info.phy.isHt ∧ rcIsValidPhyRate info.phy capflag

/-- The HT rates of the set, in the order they are entered. -/
def rcSibSetValidHtRates (cfg : RateConfig) (stbc : Bool) (mcsSet : List ℕ)
    (capflag : BitVec 32) : List ℕ :=
  mcsSet.flatMap fun rate =>
    (List.range cfg.table.rateCount).filter fun j =>
      let info := cfg.table.info j
      let valid := validColumn cfg stbc capflag info
      rate % 128 = info.dot11Rate % 128 ∧ info.phy.isHt ∧ htValid valid capflag ∧
        ¬(info.dot11Rate = 15 ∧ valid &&& true20 ≠ 0 ∧ capflag &&& wlanRcWepTkipFlag ≠ 0) ∧
        rcIsValidPhyRate info.phy capflag

/-- All rates that are entered. -/
def enteredRates (cfg : RateConfig) (stbc : Bool) (capflag : BitVec 32) (rs : RateSet) : List ℕ :=
  if rs.rates = [] then rcSibInitValidRates cfg capflag
  else
    rcSibSetValidRates cfg stbc rs.rates capflag ++
      if capflag &&& wlanRcHtFlag ≠ 0 then rcSibSetValidHtRates cfg stbc rs.htrates capflag
      else []

/-- `validPhyRateIndex`, one row behind the other. -/
def validRates (cfg : RateConfig) (stbc : Bool) (capflag : BitVec 32) (rs : RateSet) : List ℕ :=
  WlanPhy.all.flatMap fun phy =>
    (enteredRates cfg stbc capflag rs).filter fun j => (cfg.table.info j).phy = phy

def sortKey (cfg : RateConfig) (rate : ℕ) : ℕ :=
  match cfg.build with
  | .k2 => (cfg.table.info rate).userRateKbps
  | .magpie => (cfg.table.info rate).rateKbps

/-- The inner loop of `rcSortValidRates`, for `j` up to `i - 1`. -/
def bubble (key : ℕ → ℕ) : ℕ → List ℕ → List ℕ
  | 0, l => l
  | i + 1, a :: b :: l =>
      if key b < key a then b :: bubble key i (a :: l) else a :: bubble key i (b :: l)
  | _ + 1, l => l

/-- The outer loop, for `i` down to 1. -/
def bubbles (key : ℕ → ℕ) : ℕ → List ℕ → List ℕ
  | 0, l => l
  | i + 1, l => bubbles key i (bubble key (i + 1) l)

def rcSortValidRates (cfg : RateConfig) (l : List ℕ) : List ℕ :=
  bubbles (sortKey cfg) (l.length - 1) l

/-- The byte that lies `i` bytes in front of `validRateIndex`; the machine is big-endian. -/
def byteInFront (an : AtherosNode) : ℕ → ℕ
  | 1 => an.maxValidRate
  | 2 => an.hwMaxRetryPktCnt
  | _ => an.probeTime.toNat % 256

/-- `validRateIndex[k-4]` of the array that was just filled. -/
def fourthHighest (an : AtherosNode) (filled : List ℕ) : ℕ :=
  if 4 ≤ filled.length then filled.getD (filled.length - 4) 0
  else byteInFront an (4 - filled.length)

/-- `rcSibUpdate_ht` with `keepState` false, as its only caller has it. Sorting an empty set runs
over the end of the array, as a set larger than the array does. What the loop over the phys
assigns to `rateMaxPhy` is overwritten. -/
def rcSibUpdateHt (cfg : RateConfig) (capflag : BitVec 32) (rs : RateSet) (an : AtherosNode) :
    Option AtherosNode :=
  let filled := validRates cfg an.stbc capflag rs
  if filled = [] ∨ maxTxRateTbl cfg.build < filled.length then none
  else
    some { an with
      per := fun _ => 0
      rcPhyMode := capflag &&& wlanRc40Flag
      rateTableSize := (enteredRates cfg an.stbc capflag rs).foldr max 0 + 1
      rateMaxPhy := fourthHighest an filled
      validRateIndex := rcSortValidRates cfg filled }

/-- Only the Magpie build notes that the node takes STBC. -/
def assocStbc (cfg : RateConfig) (capflag : BitVec 32) (an : AtherosNode) : Bool :=
  if cfg.build = .magpie then capflag &&& athRcTxStbcFlag ≠ 0 else an.stbc

/-- `ath_rate_newassoc_11n` with `isnew`; without, it does nothing. -/
def athRateNewassoc11n (cfg : RateConfig) (capflag : BitVec 32) (rs : RateSet)
    (an : AtherosNode) : Option AtherosNode :=
  rcSibUpdateHt cfg capflag rs { an with stbc := assocStbc cfg capflag an }

/-! ## Selection -/

def rcGetNextValidTxRate (curValidTxRate : ℕ) : List ℕ → Option ℕ
  | a :: b :: l => if a = curValidTxRate then some b else rcGetNextValidTxRate curValidTxRate (b :: l)
  | _ => none

def rcGetNextLowerValidTxRate (curValidTxRate : ℕ) : List ℕ → Option ℕ
  | a :: b :: l =>
      if b = curValidTxRate then some a else rcGetNextLowerValidTxRate curValidTxRate (b :: l)
  | _ => none

/-- What a rate is expected to carry, in 32 unsigned bits. -/
def thruput (cfg : RateConfig) (an : AtherosNode) (rate : ℕ) : ℕ :=
  let perThres := max (an.per rate) 12
  (((cfg.table.info rate).userRateKbps * (100 - perThres : Int)) % 4294967296).toNat

/-- The loop over the valid rates from the highest down; the second value is `bestRate`. -/
def findBest (cfg : RateConfig) (an : AtherosNode) : List ℕ → ℕ × ℕ → ℕ × ℕ
  | [], best => best
  | rate :: rest, best =>
      if an.rateMaxPhy < rate then findBest cfg an rest best
      else if (cfg.table.info rate).userRateKbps ≤ best.1 then best
      else if best.1 ≤ thruput cfg an rate then findBest cfg an rest (thruput cfg an rate, rate)
      else findBest cfg an rest best

/-- The rate to probe, if a probe is due. -/
def probeDue (cfg : RateConfig) (nowMsec : BitVec 32) (an : AtherosNode) : Option ℕ :=
  if cfg.table.probeInterval < (nowMsec - an.probeTime).toNat ∧ 1 ≤ an.hwMaxRetryPktCnt then
    rcGetNextValidTxRate an.rateMaxPhy an.validRateIndex
  else none

structure Selection where
  rate : ℕ
  isProbing : Bool
  node : AtherosNode

/-- The test in front of the probe. -/
def chooseRate (cfg : RateConfig) (nowMsec : BitVec 32) (probeAllowed : Bool) (best : ℕ)
    (an : AtherosNode) : Selection :=
  if an.rateMaxPhy ≤ best ∧ probeAllowed then
    match probeDue cfg nowMsec an with
    | some nextRate =>
        ⟨nextRate, true,
          { an with probeRate := nextRate, probeTime := nowMsec, hwMaxRetryPktCnt := 0 }⟩
    | none => ⟨an.rateMaxPhy, false, an⟩
  else ⟨best, false, an⟩

def rcRateFindHt (cfg : RateConfig) (nowMsec : BitVec 32) (probeAllowed : Bool)
    (an : AtherosNode) : Selection :=
  let best := (findBest cfg an an.validRateIndex.reverse (0, 0)).2
  let choice := chooseRate cfg nowMsec probeAllowed best an
  let rate := if an.rateTableSize - 1 < choice.rate then an.rateTableSize - 1 else choice.rate
  { choice with
    rate := rate
    node :=
      if choice.isProbing then choice.node
      else { choice.node with lastRateKbps := (cfg.table.info rate).rateKbps } }

/-! ## Completions -/

def nRetry2PerLookup : List ℕ := [0, 25, 50, 75, 80, 83, 85, 87, 88, 90]

/-- `new_PER = 7/8*old_PER + 1/8*(currentPER)`, in an unsigned byte. -/
def averagedPer (per eighth : ℕ) : ℕ := (per - per / 8 + eighth) % 256

def clampRetries (retries : ℕ) : ℕ :=
  if nRetry2PerLookup.length ≤ retries then nRetry2PerLookup.length - 1 else retries

/-- The PER of the rate after the frame, from the one before. -/
def measuredPer (Xretries : Int) (retries nFrames nBad per : ℕ) : ℕ :=
  if Xretries ≠ 0 then
    if Xretries = 1 then
      if 100 < (per + 30) % 256 then 100 else (per + 30) % 256
    else averagedPer per (100 / 8)
  else if nBad ≠ 0 then
    if 0 < nFrames then
      averagedPer per (100 * (retries * nFrames + nBad) / (nFrames * (retries + 1)) / 8)
    else per
  else averagedPer per (nRetry2PerLookup.getD retries 0 / 8)

def AtherosNode.setPer (an : AtherosNode) (rate per : ℕ) : AtherosNode :=
  { an with per := Function.update an.per rate per }

/-- A frame sent at the probe rate settles the probe. -/
def settleProbe (cfg : RateConfig) (nowMsec : BitVec 32) (txRate retries nFrames nBad : ℕ)
    (an : AtherosNode) : AtherosNode :=
  if an.probeRate ≠ 0 ∧ an.probeRate = txRate then
    if 0 < retries ∨ nFrames < 2 * nBad then { an with probeRate := 0 }
    else
      let an := { an with rateMaxPhy := an.probeRate }
      let an := if 30 < an.per an.probeRate then an.setPer an.probeRate 20 else an
      { an with
        probeRate := 0
        probeTime := nowMsec - BitVec.ofNat 32 (cfg.table.probeInterval / 2) }
  else an

def countRetryFree (txRate retries : ℕ) (an : AtherosNode) : AtherosNode :=
  if 0 < retries then { an with hwMaxRetryPktCnt := 0 }
  else if txRate = an.rateMaxPhy ∧ an.hwMaxRetryPktCnt < 255 then
    { an with hwMaxRetryPktCnt := an.hwMaxRetryPktCnt + 1 }
  else an

/-- What the frame itself says about its rate. -/
def noteOutcome (cfg : RateConfig) (nowMsec : BitVec 32) (txRate : ℕ) (Xretries : Int)
    (retries nFrames nBad : ℕ) (an : AtherosNode) : AtherosNode :=
  let retries := clampRetries retries
  let an := an.setPer txRate (measuredPer Xretries retries nFrames nBad (an.per txRate))
  if Xretries ≠ 0 then
    if an.probeRate = txRate then { an with probeRate := 0 } else an
  else countRetryFree txRate retries (settleProbe cfg nowMsec txRate retries nFrames nBad an)

/-- A rate that looks bad is not used for a while. -/
def backOff (cfg : RateConfig) (nowMsec : BitVec 32) (txRate : ℕ) (an : AtherosNode) :
    AtherosNode :=
  if 55 ≤ an.per txRate ∧ 0 < txRate ∧
      (cfg.table.info txRate).rateKbps ≤ (cfg.table.info an.rateMaxPhy).rateKbps then
    { an with
      rateMaxPhy :=
        (rcGetNextLowerValidTxRate txRate an.validRateIndex).getD an.rateMaxPhy
      probeTime := nowMsec }
  else an

/-- The two loops that keep the PERs of neighbours in order. -/
def keepMonotone (cfg : RateConfig) (txRate lastPer : ℕ) (an : AtherosNode) : AtherosNode :=
  let below :=
    if an.per txRate < lastPer then
      Sweep.lowerBelow (fun rate => (cfg.table.info rate).phy = (cfg.table.info txRate).phy) txRate
        an.per
    else an.per
  { an with per := Sweep.raiseAbove (an.rateTableSize - 1 - txRate) txRate below }

def decayPer (cfg : RateConfig) (nowMsec : BitVec 32) (an : AtherosNode) : AtherosNode :=
  if cfg.table.rssiReduceInterval ≤ (nowMsec - an.perDownTime).toNat then
    { an with
      per := fun rate => if rate < an.rateTableSize then 7 * an.per rate / 8 else an.per rate
      perDownTime := nowMsec }
  else an

def rcUpdateHt (cfg : RateConfig) (nowMsec : BitVec 32) (txRate : ℕ) (Xretries : Int)
    (retries nFrames nBad : ℕ) (an : AtherosNode) : Option AtherosNode :=
  if maxTxRateTbl cfg.build ≤ txRate then none
  else
    let lastPer := an.per txRate
    let an := noteOutcome cfg nowMsec txRate Xretries retries nFrames nBad an
    let an := backOff cfg nowMsec txRate an
    let an := keepMonotone cfg txRate lastPer an
    some (decayPer cfg nowMsec an)

/-! ## `rcUpdate_11n` -/

/-- The row of the table a series was sent at. -/
def seriesRow (cfg : RateConfig) (rcs : Tx.RcSeries) : ℕ :=
  let info := cfg.table.info rcs.rix
  if rcs.flags &&& Tx.athRcCw40Flag ≠ 0 ∧ rcs.flags &&& Tx.athRcHt40SgiFlag ≠ 0 then info.htIndex
  else if rcs.flags &&& Tx.athRcHt40SgiFlag ≠ 0 then info.sgiIndex
  else if rcs.flags &&& Tx.athRcCw40Flag ≠ 0 then info.cw40Index
  else info.baseIndex

/-- The node has switched from 40 to 20 MHz since. -/
def switchedMode (an : AtherosNode) (rcs : Tx.RcSeries) : Bool :=
  rcs.flags &&& Tx.athRcCw40Flag ≠ 0 ∧ an.rcPhyMode ≠ wlanRc40Flag

/-- The series in front of the final one have failed. The second value says that the function goes
on; `clock` gives the readings of the clock. -/
def rcUpdateFailed (cfg : RateConfig) (clock : ℕ → BitVec 32) (Xretries : Int) (nFrames : ℕ) :
    List Tx.RcSeries → AtherosNode → Option (AtherosNode × Bool)
  | [], an => some (an, true)
  | rcs :: rest, an =>
      if rcs.tries = 0 then rcUpdateFailed cfg clock Xretries nFrames rest an
      else if switchedMode an rcs then some (an, false)
      else
        (rcUpdateHt cfg (clock rest.length) (seriesRow cfg rcs) (if Xretries ≠ 0 then 1 else 2)
            rcs.tries nFrames nFrames an).bind
          (rcUpdateFailed cfg clock Xretries nFrames rest)

def rcUpdate11n (cfg : RateConfig) (clock : ℕ → BitVec 32) (finalTSIdx : Fin 4) (Xretries : Int)
    (rcs : Fin 4 → Tx.RcSeries) (nFrames nBad longRetry : ℕ) (an : AtherosNode) :
    Option AtherosNode := do
  let failed := ((List.finRange 4).take finalTSIdx).map rcs
  -- one rate with one try is no excessive retry
  let final := if finalTSIdx = 0 ∧ (rcs 0).tries = 1 ∧ Xretries = 1 then 2 else Xretries
  let (an, goesOn) ← rcUpdateFailed cfg clock Xretries nFrames failed an
  if ¬goesOn ∨ switchedMode an (rcs finalTSIdx) then some an
  else
    rcUpdateHt cfg (clock 4) (seriesRow cfg (rcs finalTSIdx)) final longRetry nFrames nBad an

/-! ## The rate control of a node as a machine -/

/-- A node, and what happened to it: a rate set was given; the last probe was chosen since. -/
structure RatedNode where
  node : AtherosNode
  rated : Bool
  probeFresh : Bool

inductive Event
  | newassoc (capflag : BitVec 32) (rs : RateSet)
  | findRate (nowMsec : BitVec 32) (probeAllowed : Bool)
  | update (nowMsec : BitVec 32) (txRate : ℕ) (Xretries : Int) (retries nFrames nBad : ℕ)

/-- Before its first rate set a node has no frames. -/
def step (cfg : RateConfig) : Event → RatedNode → Option RatedNode
  | .newassoc capflag rs, rc =>
      (athRateNewassoc11n cfg capflag rs rc.node).map fun an => ⟨an, true, false⟩
  | .findRate nowMsec probeAllowed, rc =>
      if rc.rated then
        let choice := rcRateFindHt cfg nowMsec probeAllowed rc.node
        some { rc with
          node := choice.node
          probeFresh := choice.isProbing || rc.probeFresh }
      else none
  | .update nowMsec txRate Xretries retries nFrames nBad, rc =>
      if rc.rated then
        (rcUpdateHt cfg nowMsec txRate Xretries retries nFrames nBad rc.node).map fun an =>
          { rc with node := an }
      else none

/-- The state of a node begins with what its memory holds. -/
def rateControl (cfg : RateConfig) : Machine RatedNode Event :=
  .ofPartial (fun rc => rc.rated = false) (step cfg)

/-- A node in cleared memory. -/
def clearedNode : RatedNode where
  node :=
    { per := fun _ => 0
      rateTableSize := 0
      probeRate := 0
      probeTime := 0
      hwMaxRetryPktCnt := 0
      validRateIndex := []
      perDownTime := 0
      rcPhyMode := 0
      rateMaxPhy := 0
      lastRateKbps := 0
      stbc := false }
  rated := false
  probeFresh := false

theorem clearedNode_init (cfg : RateConfig) : (rateControl cfg).Init clearedNode := rfl

/-- The rates of an 11g peer up to 36 Mb/s. -/
def peer11g : RateSet := ⟨[2, 4, 11, 22, 24, 36, 48, 72], []⟩

end Ath9kHtc.Rate
