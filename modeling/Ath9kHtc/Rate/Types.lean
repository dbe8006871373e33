import Mathlib.Algebra.Ring.Nat
import Mathlib.Data.List.Basic
import Mathlib.Logic.Function.Basic

/-!
# Rate control data model

The rate tables of `ar5416Phy.c` and the state `ratectrl_11n_ln.c` keeps for a node.
-/

namespace Ath9kHtc.Rate

/-- The two builds: `MAGPIE_MERLIN` is defined in the second. -/
inductive Build
  | k2 | magpie
  deriving DecidableEq, Repr

/-- `MAX_TX_RATE_TBL` -/
def maxTxRateTbl : Build → ℕ
  | .k2 => 54
  | .magpie => 46

/-- `WLAN_PHY`, in the order of its values. -/
inductive WlanPhy
  | cck | ofdm | turbo | xr
  | ht20Ss | ht20Ds | ht40Ss | ht40Ds
  | ht20SsHgi | ht20DsHgi | ht40SsHgi | ht40DsHgi
  deriving DecidableEq, Repr

namespace WlanPhy

def all : List WlanPhy :=
  [.cck, .ofdm, .turbo, .xr, .ht20Ss, .ht20Ds, .ht40Ss, .ht40Ds, .ht20SsHgi, .ht20DsHgi,
    .ht40SsHgi, .ht40DsHgi]

theorem mem_all (phy : WlanPhy) : phy ∈ all := by
  cases phy <;> decide

/-- `WLAN_RC_PHY_HT` -/
def isHt : WlanPhy → Bool
  | .cck | .ofdm | .turbo | .xr => false
  | _ => true

/-- `WLAN_RC_PHY_DS` -/
def isDs : WlanPhy → Bool
  | .ht20Ds | .ht40Ds | .ht20DsHgi | .ht40DsHgi => true
  | _ => false

/-- `WLAN_RC_PHY_40` -/
def is40 : WlanPhy → Bool
  | .ht40Ss | .ht40Ds | .ht40SsHgi | .ht40DsHgi => true
  | _ => false

/-- `WLAN_RC_PHY_SGI` -/
def isSgi : WlanPhy → Bool
  | .ht20SsHgi | .ht20DsHgi | .ht40SsHgi | .ht40DsHgi => true
  | _ => false

end WlanPhy

-- what a rate is valid for: legacy only, HT20, HT40
def validTrue : BitVec 8 := 1
def true20 : BitVec 8 := 2
def true40 : BitVec 8 := 4

-- capability flags
def wlanRcDsFlag : BitVec 32 := 0x01
def wlanRc40Flag : BitVec 32 := 0x02
def wlanRcHt40SgiFlag : BitVec 32 := 0x04
def wlanRcHtFlag : BitVec 32 := 0x08
def wlanRcWepTkipFlag : BitVec 32 := 0x100
def athRcTxStbcFlag : BitVec 32 := 0x20

/-- `rc11n_info_t`; `validSTBC` is a field of the Magpie build only. -/
structure RateInfo where
  valid : BitVec 8
  validSingleStream : BitVec 8
  validSTBC : BitVec 8
  phy : WlanPhy
  rateKbps : ℕ
  userRateKbps : ℕ
  dot11Rate : ℕ
  baseIndex : ℕ
  cw40Index : ℕ
  sgiIndex : ℕ
  htIndex : ℕ
  deriving DecidableEq, Repr

/-- `RATE_TABLE_11N`. `beyond` is what a read behind the last row gives. -/
structure RateTable where
  rows : List RateInfo
  probeInterval : ℕ
  rssiReduceInterval : ℕ
  beyond : ℕ → RateInfo
  /-- Every rate of the table carries something. -/
  carries : ∀ row ∈ rows, 0 < row.userRateKbps

def RateTable.rateCount (t : RateTable) : ℕ := t.rows.length

def RateTable.info (t : RateTable) (i : ℕ) : RateInfo := t.rows.getD i (t.beyond i)

theorem RateTable.userRateKbps_pos (t : RateTable) {i : ℕ} (h : i < t.rateCount) :
    0 < (t.info i).userRateKbps := by
  rw [info, List.getD_eq_getElem?_getD, List.getElem?_eq_getElem h]
  exact t.carries _ (List.getElem_mem h)

structure RateConfig where
  build : Build
  table : RateTable

/-- `struct ieee80211_rate` -/
structure RateSet where
  rates : List ℕ
  htrates : List ℕ
  deriving DecidableEq, Repr

/-- `struct atheros_node`, with the `TX_RATE_CTRL` it begins with. The bytes of `validRateIndex`
behind the first `maxValidRate` are never read. -/
structure AtherosNode where
  per : ℕ → ℕ
  rateTableSize : ℕ
  probeRate : ℕ
  probeTime : BitVec 32
  hwMaxRetryPktCnt : ℕ
  validRateIndex : List ℕ
  perDownTime : BitVec 32
  rcPhyMode : BitVec 32
  rateMaxPhy : ℕ
  lastRateKbps : ℕ
  stbc : Bool

def AtherosNode.maxValidRate (an : AtherosNode) : ℕ := an.validRateIndex.length

/-! ## Tables -/

/-- `ar5416_11ngRateTable` of the K2 build. -/
def ar5416NgRateTableK2 : List RateInfo :=
  [⟨7, 7, 0, .cck, 1000, 900, 2, 0, 0, 0, 0⟩,
  ⟨7, 7, 0, .cck, 2000, 1900, 4, 1, 1, 1, 1⟩,
  ⟨7, 7, 0, .cck, 5500, 4900, 11, 2, 2, 2, 2⟩,
  ⟨7, 7, 0, .cck, 11000, 8100, 22, 3, 3, 3, 3⟩,
  ⟨0, 0, 0, .ofdm, 6000, 5400, 12, 4, 4, 4, 4⟩,
  ⟨0, 0, 0, .ofdm, 9000, 7800, 18, 5, 5, 5, 5⟩,
  ⟨1, 1, 0, .ofdm, 12000, 10100, 24, 6, 6, 6, 6⟩,
  ⟨1, 1, 0, .ofdm, 18000, 14100, 36, 7, 7, 7, 7⟩,
  ⟨1, 1, 0, .ofdm, 24000, 17700, 48, 8, 8, 8, 8⟩,
  ⟨1, 1, 0, .ofdm, 36000, 23700, 72, 9, 9, 9, 9⟩,
  ⟨1, 1, 0, .ofdm, 48000, 27400, 96, 10, 10, 10, 10⟩,
  ⟨1, 1, 0, .ofdm, 54000, 30900, 108, 11, 11, 11, 11⟩,
  ⟨0, 0, 0, .ht20Ss, 6500, 6400, 0, 12, 33, 12, 33⟩,
  ⟨2, 2, 0, .ht20Ss, 13000, 12700, 1, 13, 34, 13, 34⟩,
  ⟨2, 2, 0, .ht20Ss, 19500, 18800, 2, 14, 35, 14, 35⟩,
  ⟨2, 2, 0, .ht20Ss, 26000, 25000, 3, 15, 36, 15, 36⟩,
  ⟨2, 2, 0, .ht20Ss, 39000, 36700, 4, 16, 37, 17, 38⟩,
  ⟨0, 2, 0, .ht20SsHgi, 43300, 39200, 4, 16, 37, 17, 38⟩,
  ⟨0, 2, 0, .ht20Ss, 52000, 48100, 5, 18, 39, 19, 40⟩,
  ⟨0, 2, 0, .ht20SsHgi, 57800, 52300, 5, 18, 39, 19, 40⟩,
  ⟨0, 2, 0, .ht20Ss, 58500, 53500, 6, 20, 41, 21, 42⟩,
  ⟨0, 2, 0, .ht20SsHgi, 65000, 58800, 6, 20, 41, 21, 42⟩,
  ⟨0, 2, 0, .ht20Ss, 65000, 58801, 7, 22, 43, 23, 44⟩,
  ⟨0, 2, 0, .ht20SsHgi, 72200, 65400, 7, 22, 43, 23, 44⟩,
  ⟨2, 0, 0, .ht20Ds, 52000, 48100, 11, 24, 45, 24, 45⟩,
  ⟨2, 0, 0, .ht20Ds, 78000, 69500, 12, 25, 46, 26, 47⟩,
  ⟨0, 0, 0, .ht20DsHgi, 86700, 78400, 12, 25, 46, 26, 47⟩,
  ⟨2, 0, 0, .ht20Ds, 104000, 89500, 13, 27, 48, 28, 49⟩,
  ⟨0, 0, 0, .ht20DsHgi, 115600, 103900, 13, 27, 48, 28, 49⟩,
  ⟨2, 0, 0, .ht20Ds, 117000, 105200, 14, 29, 50, 30, 51⟩,
  ⟨0, 0, 0, .ht20DsHgi, 130000, 116090, 14, 29, 50, 30, 51⟩,
  ⟨2, 0, 0, .ht20Ds, 130000, 116100, 15, 31, 52, 32, 53⟩,
  ⟨2, 0, 0, .ht20DsHgi, 144400, 128100, 15, 31, 52, 32, 53⟩,
  ⟨4, 4, 0, .ht40Ss, 13500, 13200, 0, 12, 33, 33, 33⟩,
  ⟨4, 4, 0, .ht40Ss, 27500, 25900, 1, 13, 34, 34, 34⟩,
  ⟨4, 4, 0, .ht40Ss, 40500, 38600, 2, 14, 35, 35, 35⟩,
  ⟨4, 4, 0, .ht40Ss, 54000, 49800, 3, 15, 36, 36, 36⟩,
  ⟨4, 4, 0, .ht40Ss, 81500, 72200, 4, 16, 37, 38, 38⟩,
  ⟨0, 4, 0, .ht40SsHgi, 90000, 81500, 4, 16, 37, 38, 38⟩,
  ⟨0, 4, 0, .ht40Ss, 108000, 92900, 5, 18, 39, 40, 40⟩,
  ⟨0, 4, 0, .ht40SsHgi, 120000, 102100, 5, 18, 39, 40, 40⟩,
  ⟨0, 4, 0, .ht40Ss, 121500, 102700, 6, 20, 41, 42, 42⟩,
  ⟨0, 4, 0, .ht40SsHgi, 135000, 111900, 6, 20, 41, 42, 42⟩,
  ⟨0, 4, 0, .ht40Ss, 135000, 112000, 7, 22, 43, 44, 44⟩,
  ⟨0, 4, 0, .ht40SsHgi, 150000, 122000, 7, 22, 43, 44, 44⟩,
  ⟨4, 0, 0, .ht40Ds, 108000, 92500, 11, 24, 45, 45, 45⟩,
  ⟨4, 0, 0, .ht40Ds, 162000, 130300, 12, 25, 46, 47, 47⟩,
  ⟨0, 0, 0, .ht40DsHgi, 180000, 156900, 12, 25, 46, 47, 47⟩,
  ⟨4, 0, 0, .ht40Ds, 216000, 162800, 13, 27, 48, 49, 49⟩,
  ⟨0, 0, 0, .ht40DsHgi, 240000, 178000, 13, 27, 48, 49, 49⟩,
  ⟨4, 0, 0, .ht40Ds, 243000, 178200, 14, 29, 50, 51, 51⟩,
  ⟨0, 0, 0, .ht40DsHgi, 270000, 192050, 14, 29, 50, 51, 51⟩,
  ⟨4, 0, 0, .ht40Ds, 270000, 192100, 15, 31, 52, 53, 53⟩,
  ⟨4, 0, 0, .ht40DsHgi, 300000, 207000, 15, 31, 52, 53, 53⟩]

/-- `ar5416_11ngRateTable` of the Magpie build. -/
def ar5416NgRateTable : List RateInfo :=
  [⟨7, 7, 7, .cck, 1000, 900, 2, 0, 0, 0, 0⟩,
  ⟨7, 7, 7, .cck, 2000, 1900, 4, 1, 1, 1, 1⟩,
  ⟨7, 7, 7, .cck, 5500, 4900, 11, 2, 2, 2, 2⟩,
  ⟨7, 7, 7, .cck, 11000, 8100, 22, 3, 3, 3, 3⟩,
  ⟨0, 0, 0, .ofdm, 6000, 5400, 12, 4, 4, 4, 4⟩,
  ⟨0, 0, 0, .ofdm, 9000, 7800, 18, 5, 5, 5, 5⟩,
  ⟨1, 1, 1, .ofdm, 12000, 10100, 24, 6, 6, 6, 6⟩,
  ⟨1, 1, 1, .ofdm, 18000, 14100, 36, 7, 7, 7, 7⟩,
  ⟨1, 1, 1, .ofdm, 24000, 17700, 48, 8, 8, 8, 8⟩,
  ⟨1, 1, 1, .ofdm, 36000, 23700, 72, 9, 9, 9, 9⟩,
  ⟨1, 1, 1, .ofdm, 48000, 27400, 96, 10, 10, 10, 10⟩,
  ⟨1, 1, 1, .ofdm, 54000, 30900, 108, 11, 11, 11, 11⟩,
  ⟨0, 0, 0, .ht20Ss, 6500, 6400, 0, 12, 28, 12, 28⟩,
  ⟨2, 2, 2, .ht20Ss, 13000, 12700, 1, 13, 29, 13, 29⟩,
  ⟨2, 2, 2, .ht20Ss, 19500, 18800, 2, 14, 30, 14, 30⟩,
  ⟨2, 2, 2, .ht20Ss, 26000, 25000, 3, 15, 31, 15, 31⟩,
  ⟨2, 2, 2, .ht20Ss, 39000, 36700, 4, 16, 32, 16, 32⟩,
  ⟨0, 2, 2, .ht20Ss, 52000, 48100, 5, 17, 33, 17, 33⟩,
  ⟨0, 2, 2, .ht20Ss, 58500, 53500, 6, 18, 34, 18, 34⟩,
  ⟨0, 2, 0, .ht20Ss, 65000, 59000, 7, 19, 35, 19, 36⟩,
  ⟨0, 0, 0, .ht20Ds, 13000, 12700, 8, 20, 37, 20, 37⟩,
  ⟨0, 0, 0, .ht20Ds, 26000, 24800, 9, 21, 38, 21, 38⟩,
  ⟨0, 0, 0, .ht20Ds, 39000, 36600, 10, 22, 39, 22, 39⟩,
  ⟨2, 0, 0, .ht20Ds, 52000, 48100, 11, 23, 40, 23, 40⟩,
  ⟨2, 0, 2, .ht20Ds, 78000, 69500, 12, 24, 41, 24, 41⟩,
  ⟨2, 0, 2, .ht20Ds, 104000, 89500, 13, 25, 42, 25, 42⟩,
  ⟨2, 0, 2, .ht20Ds, 117000, 98900, 14, 26, 43, 26, 44⟩,
  ⟨2, 0, 2, .ht20Ds, 130000, 108300, 15, 27, 44, 27, 45⟩,
  ⟨4, 4, 4, .ht40Ss, 13500, 13200, 0, 12, 28, 28, 28⟩,
  ⟨4, 4, 4, .ht40Ss, 27500, 25900, 1, 13, 29, 29, 29⟩,
  ⟨4, 4, 4, .ht40Ss, 40500, 38600, 2, 14, 30, 30, 30⟩,
  ⟨4, 4, 4, .ht40Ss, 54000, 49800, 3, 15, 31, 31, 31⟩,
  ⟨4, 4, 4, .ht40Ss, 81500, 72200, 4, 16, 32, 32, 32⟩,
  ⟨0, 4, 4, .ht40Ss, 108000, 92900, 5, 17, 33, 33, 33⟩,
  ⟨0, 4, 4, .ht40Ss, 121500, 102700, 6, 18, 34, 34, 34⟩,
  ⟨0, 4, 0, .ht40Ss, 135000, 112000, 7, 19, 35, 36, 36⟩,
  ⟨0, 4, 0, .ht40SsHgi, 150000, 122000, 7, 19, 35, 36, 36⟩,
  ⟨0, 0, 0, .ht40Ds, 27000, 25800, 8, 20, 37, 37, 37⟩,
  ⟨0, 0, 0, .ht40Ds, 54000, 49800, 9, 21, 38, 38, 38⟩,
  ⟨0, 0, 0, .ht40Ds, 81000, 71900, 10, 22, 39, 39, 39⟩,
  ⟨4, 0, 0, .ht40Ds, 108000, 92500, 11, 23, 40, 40, 40⟩,
  ⟨4, 0, 4, .ht40Ds, 162000, 130300, 12, 24, 41, 41, 41⟩,
  ⟨4, 0, 4, .ht40Ds, 216000, 162800, 13, 25, 42, 42, 42⟩,
  ⟨4, 0, 4, .ht40Ds, 243000, 178200, 14, 26, 43, 43, 43⟩,
  ⟨4, 0, 4, .ht40Ds, 270000, 192100, 15, 27, 44, 45, 45⟩,
  ⟨4, 0, 4, .ht40DsHgi, 300000, 207000, 15, 27, 44, 45, 45⟩]

/-- `ar5416_11naRateTable` -/
def ar5416NaRateTable : List RateInfo :=
  [⟨1, 1, 1, .ofdm, 6000, 5400, 12, 0, 0, 0, 0⟩,
  ⟨1, 1, 1, .ofdm, 9000, 7800, 18, 1, 1, 1, 1⟩,
  ⟨1, 1, 1, .ofdm, 12000, 10000, 24, 2, 2, 2, 2⟩,
  ⟨1, 1, 1, .ofdm, 18000, 13900, 36, 3, 3, 3, 3⟩,
  ⟨1, 1, 1, .ofdm, 24000, 17300, 48, 4, 4, 4, 4⟩,
  ⟨1, 1, 1, .ofdm, 36000, 23000, 72, 5, 5, 5, 5⟩,
  ⟨1, 1, 1, .ofdm, 48000, 27400, 96, 6, 6, 6, 6⟩,
  ⟨1, 1, 1, .ofdm, 54000, 29300, 108, 7, 7, 7, 7⟩,
  ⟨2, 2, 2, .ht20Ss, 6500, 6400, 0, 8, 24, 8, 24⟩,
  ⟨2, 2, 2, .ht20Ss, 13000, 12700, 1, 9, 25, 9, 25⟩,
  ⟨2, 2, 2, .ht20Ss, 19500, 18800, 2, 10, 26, 10, 26⟩,
  ⟨2, 2, 2, .ht20Ss, 26000, 25000, 3, 11, 27, 11, 27⟩,
  ⟨2, 2, 2, .ht20Ss, 39000, 36700, 4, 12, 28, 12, 28⟩,
  ⟨0, 2, 2, .ht20Ss, 52000, 48100, 5, 13, 29, 13, 29⟩,
  ⟨0, 2, 2, .ht20Ss, 58500, 53500, 6, 14, 30, 14, 30⟩,
  ⟨0, 2, 0, .ht20Ss, 65000, 59000, 7, 15, 31, 15, 32⟩,
  ⟨0, 0, 0, .ht20Ds, 13000, 12700, 8, 16, 33, 16, 33⟩,
  ⟨0, 0, 0, .ht20Ds, 26000, 24800, 9, 17, 34, 17, 34⟩,
  ⟨0, 0, 0, .ht20Ds, 39000, 36600, 10, 18, 35, 18, 35⟩,
  ⟨2, 0, 0, .ht20Ds, 52000, 48100, 11, 19, 36, 19, 36⟩,
  ⟨2, 0, 2, .ht20Ds, 78000, 69500, 12, 20, 37, 20, 37⟩,
  ⟨2, 0, 2, .ht20Ds, 104000, 89500, 13, 21, 38, 21, 38⟩,
  ⟨2, 0, 2, .ht20Ds, 117000, 98900, 14, 22, 39, 22, 39⟩,
  ⟨2, 0, 2, .ht20Ds, 130000, 108300, 15, 23, 40, 23, 41⟩,
  ⟨4, 4, 4, .ht40Ss, 13500, 13200, 0, 8, 24, 24, 24⟩,
  ⟨4, 4, 4, .ht40Ss, 27500, 25900, 1, 9, 25, 25, 25⟩,
  ⟨4, 4, 4, .ht40Ss, 40500, 38600, 2, 10, 26, 26, 26⟩,
  ⟨4, 4, 4, .ht40Ss, 54000, 49800, 3, 11, 27, 27, 27⟩,
  ⟨4, 4, 4, .ht40Ss, 81500, 72200, 4, 12, 28, 28, 28⟩,
  ⟨0, 4, 4, .ht40Ss, 108000, 92900, 5, 13, 29, 29, 29⟩,
  ⟨0, 4, 4, .ht40Ss, 121500, 102700, 6, 14, 30, 30, 30⟩,
  ⟨0, 4, 0, .ht40Ss, 135000, 112000, 7, 15, 31, 32, 32⟩,
  ⟨0, 4, 0, .ht40SsHgi, 150000, 122000, 7, 15, 31, 32, 32⟩,
  ⟨0, 0, 0, .ht40Ds, 27000, 25800, 8, 16, 33, 33, 33⟩,
  ⟨0, 0, 0, .ht40Ds, 54000, 49800, 9, 17, 34, 34, 34⟩,
  ⟨0, 0, 0, .ht40Ds, 81000, 71900, 10, 18, 35, 35, 35⟩,
  ⟨4, 0, 0, .ht40Ds, 108000, 92500, 11, 19, 36, 36, 36⟩,
  ⟨4, 0, 4, .ht40Ds, 162000, 130300, 12, 20, 37, 37, 37⟩,
  ⟨4, 0, 4, .ht40Ds, 216000, 162800, 13, 21, 38, 38, 38⟩,
  ⟨4, 0, 4, .ht40Ds, 243000, 178200, 14, 22, 39, 39, 39⟩,
  ⟨4, 0, 4, .ht40Ds, 270000, 192100, 15, 23, 40, 41, 41⟩,
  ⟨4, 0, 4, .ht40DsHgi, 300000, 207000, 15, 23, 40, 41, 41⟩]

/-- `ar5416AttachRateTables`: the builds, the modes they have a table for, and the table. -/
def firmwareTables (beyond : ℕ → RateInfo) : List RateConfig :=
  [⟨.k2, ⟨ar5416NgRateTableK2, 100, 50, beyond, by decide⟩⟩,
    ⟨.magpie, ⟨ar5416NgRateTable, 50, 50, beyond, by decide⟩⟩,
    ⟨.magpie, ⟨ar5416NaRateTable, 50, 50, beyond, by decide⟩⟩]

/-- What lies behind a table that cleared memory follows. -/
def clearedInfo : RateInfo := ⟨0, 0, 0, .cck, 0, 0, 0, 0, 0, 0, 0⟩

def k2Config : RateConfig :=
  ⟨.k2, ⟨ar5416NgRateTableK2, 100, 50, fun _ => clearedInfo, by decide⟩⟩

end Ath9kHtc.Rate
