import Mathlib.Algebra.Order.Floor.Div
import Mathlib.Tactic.Ring

/-!
# Air time

`ath_pkt_duration` and `ath_hal_computetxtime` over the rate tables of `ar5416_phy.c`.
-/

namespace Ath9kHtc.Rate

/-! ## The rate tables of the HAL -/

/-- The values of `phy` in these tables: `IEEE80211_T_CCK`, `IEEE80211_T_OFDM`, `IEEE80211_T_HT`. -/
inductive HalPhy
  | cck | ofdm | ht
  deriving DecidableEq, Repr

/-- A row of `HAL_RATE_TABLE`. -/
structure HalRate where
  phy : HalPhy
  rateKbps : ℕ
  rateCode : BitVec 8
  shortPreamble : BitVec 8
  deriving DecidableEq, Repr

/-- `ar5416_11a_table` of the Magpie build -/
def ar5416Table11a : List HalRate :=
  [⟨.ofdm, 6000, 0x0b, 0x00⟩, ⟨.ofdm, 9000, 0x0f, 0x00⟩, ⟨.ofdm, 12000, 0x0a, 0x00⟩,
    ⟨.ofdm, 18000, 0x0e, 0x00⟩, ⟨.ofdm, 24000, 0x09, 0x00⟩, ⟨.ofdm, 36000, 0x0d, 0x00⟩,
    ⟨.ofdm, 48000, 0x08, 0x00⟩, ⟨.ofdm, 54000, 0x0c, 0x00⟩]

/-- `ar5416_11b_table` -/
def ar5416Table11b : List HalRate :=
  [⟨.cck, 1000, 0x1b, 0x00⟩, ⟨.cck, 2000, 0x1a, 0x04⟩, ⟨.cck, 5500, 0x19, 0x04⟩,
    ⟨.cck, 11000, 0x18, 0x04⟩]

/-- `ar5416_11g_table` -/
def ar5416Table11g : List HalRate :=
  [⟨.cck, 1000, 0x1b, 0x00⟩, ⟨.cck, 2000, 0x1a, 0x04⟩, ⟨.cck, 5500, 0x19, 0x04⟩,
    ⟨.cck, 11000, 0x18, 0x04⟩, ⟨.ofdm, 6000, 0x0b, 0x00⟩, ⟨.ofdm, 9000, 0x0f, 0x00⟩,
    ⟨.ofdm, 12000, 0x0a, 0x00⟩, ⟨.ofdm, 18000, 0x0e, 0x00⟩, ⟨.ofdm, 24000, 0x09, 0x00⟩,
    ⟨.ofdm, 36000, 0x0d, 0x00⟩, ⟨.ofdm, 48000, 0x08, 0x00⟩, ⟨.ofdm, 54000, 0x0c, 0x00⟩]

/-- `ar5416_11ng_table` of the Magpie build -/
def ar5416Table11ng : List HalRate :=
  [⟨.cck, 1000, 0x1b, 0x00⟩, ⟨.cck, 2000, 0x1a, 0x04⟩, ⟨.cck, 5500, 0x19, 0x04⟩,
    ⟨.cck, 11000, 0x18, 0x04⟩, ⟨.ofdm, 6000, 0x0b, 0x00⟩, ⟨.ofdm, 9000, 0x0f, 0x00⟩,
    ⟨.ofdm, 12000, 0x0a, 0x00⟩, ⟨.ofdm, 18000, 0x0e, 0x00⟩, ⟨.ofdm, 24000, 0x09, 0x00⟩,
    ⟨.ofdm, 36000, 0x0d, 0x00⟩, ⟨.ofdm, 48000, 0x08, 0x00⟩, ⟨.ofdm, 54000, 0x0c, 0x00⟩,
    ⟨.ht, 6500, 0x80, 0x00⟩, ⟨.ht, 13000, 0x81, 0x00⟩, ⟨.ht, 19500, 0x82, 0x00⟩,
    ⟨.ht, 26000, 0x83, 0x00⟩, ⟨.ht, 39000, 0x84, 0x00⟩, ⟨.ht, 52000, 0x85, 0x00⟩,
    ⟨.ht, 58500, 0x86, 0x00⟩, ⟨.ht, 65000, 0x87, 0x00⟩, ⟨.ht, 13000, 0x88, 0x00⟩,
    ⟨.ht, 26000, 0x89, 0x00⟩, ⟨.ht, 39000, 0x8a, 0x00⟩, ⟨.ht, 52000, 0x8b, 0x00⟩,
    ⟨.ht, 78000, 0x8c, 0x00⟩, ⟨.ht, 104000, 0x8d, 0x00⟩, ⟨.ht, 117000, 0x8e, 0x00⟩,
    ⟨.ht, 130000, 0x8f, 0x00⟩]

/-- `ar5416_11na_table` of the Magpie build -/
def ar5416Table11na : List HalRate :=
  [⟨.ofdm, 6000, 0x0b, 0x00⟩, ⟨.ofdm, 9000, 0x0f, 0x00⟩, ⟨.ofdm, 12000, 0x0a, 0x00⟩,
    ⟨.ofdm, 18000, 0x0e, 0x00⟩, ⟨.ofdm, 24000, 0x09, 0x00⟩, ⟨.ofdm, 36000, 0x0d, 0x00⟩,
    ⟨.ofdm, 48000, 0x08, 0x00⟩, ⟨.ofdm, 54000, 0x0c, 0x00⟩, ⟨.ht, 6500, 0x80, 0x00⟩,
    ⟨.ht, 13000, 0x81, 0x00⟩, ⟨.ht, 19500, 0x82, 0x00⟩, ⟨.ht, 26000, 0x83, 0x00⟩,
    ⟨.ht, 39000, 0x84, 0x00⟩, ⟨.ht, 52000, 0x85, 0x00⟩, ⟨.ht, 58500, 0x86, 0x00⟩,
    ⟨.ht, 65000, 0x87, 0x00⟩, ⟨.ht, 13000, 0x88, 0x00⟩, ⟨.ht, 26000, 0x89, 0x00⟩,
    ⟨.ht, 39000, 0x8a, 0x00⟩, ⟨.ht, 52000, 0x8b, 0x00⟩, ⟨.ht, 78000, 0x8c, 0x00⟩,
    ⟨.ht, 104000, 0x8d, 0x00⟩, ⟨.ht, 117000, 0x8e, 0x00⟩, ⟨.ht, 130000, 0x8f, 0x00⟩]

/-- `ar5416_11ng_table` of the K2 build -/
def ar5416Table11ngK2 : List HalRate :=
  [⟨.cck, 1000, 0x1b, 0x00⟩, ⟨.cck, 2000, 0x1a, 0x04⟩, ⟨.cck, 5500, 0x19, 0x04⟩,
    ⟨.cck, 11000, 0x18, 0x04⟩, ⟨.ofdm, 6000, 0x0b, 0x00⟩, ⟨.ofdm, 9000, 0x0f, 0x00⟩,
    ⟨.ofdm, 12000, 0x0a, 0x00⟩, ⟨.ofdm, 18000, 0x0e, 0x00⟩, ⟨.ofdm, 24000, 0x09, 0x00⟩,
    ⟨.ofdm, 36000, 0x0d, 0x00⟩, ⟨.ofdm, 48000, 0x08, 0x00⟩, ⟨.ofdm, 54000, 0x0c, 0x00⟩,
    ⟨.ht, 6500, 0x80, 0x00⟩, ⟨.ht, 13000, 0x81, 0x00⟩, ⟨.ht, 19500, 0x82, 0x00⟩,
    ⟨.ht, 26000, 0x83, 0x00⟩, ⟨.ht, 39000, 0x84, 0x00⟩, ⟨.ht, 39000, 0x84, 0x00⟩,
    ⟨.ht, 52000, 0x85, 0x00⟩, ⟨.ht, 52000, 0x85, 0x00⟩, ⟨.ht, 58500, 0x86, 0x00⟩,
    ⟨.ht, 58500, 0x86, 0x00⟩, ⟨.ht, 65000, 0x87, 0x00⟩, ⟨.ht, 65000, 0x87, 0x00⟩,
    ⟨.ht, 52000, 0x8b, 0x00⟩, ⟨.ht, 78000, 0x8c, 0x00⟩, ⟨.ht, 78000, 0x8c, 0x00⟩,
    ⟨.ht, 104000, 0x8d, 0x00⟩, ⟨.ht, 104000, 0x8d, 0x00⟩, ⟨.ht, 117000, 0x8e, 0x00⟩,
    ⟨.ht, 117000, 0x8e, 0x00⟩, ⟨.ht, 130000, 0x8f, 0x00⟩, ⟨.ht, 130000, 0x8f, 0x00⟩]

/-- `ar5416_11na_table` of the K2 build -/
def ar5416Table11naK2 : List HalRate :=
  [⟨.ofdm, 6000, 0x0b, 0x00⟩, ⟨.ofdm, 9000, 0x0f, 0x00⟩, ⟨.ofdm, 12000, 0x0a, 0x00⟩,
    ⟨.ofdm, 18000, 0x0e, 0x00⟩, ⟨.ofdm, 24000, 0x09, 0x00⟩, ⟨.ofdm, 36000, 0x0d, 0x00⟩,
    ⟨.ofdm, 48000, 0x08, 0x00⟩, ⟨.ofdm, 54000, 0x0c, 0x00⟩, ⟨.ht, 6500, 0x80, 0x00⟩,
    ⟨.ht, 13000, 0x81, 0x00⟩, ⟨.ht, 19500, 0x82, 0x00⟩, ⟨.ht, 26000, 0x83, 0x00⟩,
    ⟨.ht, 39000, 0x84, 0x00⟩, ⟨.ht, 39000, 0x84, 0x00⟩, ⟨.ht, 52000, 0x85, 0x00⟩,
    ⟨.ht, 52000, 0x85, 0x00⟩, ⟨.ht, 58500, 0x86, 0x00⟩, ⟨.ht, 58500, 0x86, 0x00⟩,
    ⟨.ht, 65000, 0x87, 0x00⟩, ⟨.ht, 65000, 0x87, 0x00⟩, ⟨.ht, 52000, 0x8b, 0x00⟩,
    ⟨.ht, 78000, 0x8c, 0x00⟩, ⟨.ht, 78000, 0x8c, 0x00⟩, ⟨.ht, 104000, 0x8d, 0x00⟩,
    ⟨.ht, 104000, 0x8d, 0x00⟩, ⟨.ht, 117000, 0x8e, 0x00⟩, ⟨.ht, 117000, 0x8e, 0x00⟩,
    ⟨.ht, 130000, 0x8f, 0x00⟩]

def halRateTables : List (List HalRate) :=
  [ar5416Table11a, ar5416Table11b, ar5416Table11g, ar5416Table11ng, ar5416Table11na,
    ar5416Table11ngK2, ar5416Table11naK2]

/-- `IS_HT_RATE` -/
def isHtRate (rc : BitVec 8) : Bool := rc &&& 0x80 ≠ 0

/-- `HT_RC_2_MCS` -/
def htRc2Mcs (rc : BitVec 8) : ℕ := (rc &&& 0x0f).toNat

/-- `HT_RC_2_STREAMS` -/
def htRc2Streams (rc : BitVec 8) : ℕ := ((rc &&& 0x78) >>> 3).toNat + 1

/-- `bits_per_symbol`: the columns are 20 MHz and 40 MHz. -/
def bitsPerSymbol : List (ℕ × ℕ) :=
  [(26, 54), (52, 108), (78, 162), (104, 216), (156, 324), (208, 432), (234, 486), (260, 540),
    (52, 108), (104, 216), (156, 324), (208, 432), (312, 648), (416, 864), (468, 972), (520, 1080)]

/-- `bits_per_symbol[mcs][width]` -/
def symbolBits (mcs : ℕ) (width : Bool) : ℕ :=
  let row := bitsPerSymbol.getD mcs (0, 0)
  if width then row.2 else row.1

/-! ## Capabilities -/

/-- `HAL_STATUS`: the values `ath_hal_getcapability` returns. -/
inductive HalStatus
  | ok | einval | enotsupp
  deriving DecidableEq, Repr

/-- `HAL_CAPABILITY_TYPE` -/
inductive HalCapability
  | veol | bssidmask | tsfAdjust | ht | rtsAggrLimit
  deriving DecidableEq, Repr

/-- The fields of `HAL_CAPABILITIES` that answer a query, and the one that answers none. -/
structure HalCapabilities where
  halBssIdMaskSupport : Bool
  halVEOLSupport : Bool
  halHTSupport : Bool
  deriving DecidableEq, Repr

/-- `ath_hal_getcapability` -/
def athHalGetcapability (pCap : HalCapabilities) : HalCapability → HalStatus
  | .tsfAdjust => .enotsupp
  | .bssidmask => if pCap.halBssIdMaskSupport then .ok else .enotsupp
  | .veol => if pCap.halVEOLSupport then .ok else .enotsupp
  | _ => .einval

/-! ## The two functions -/

def cckSifsTime : ℕ := 10
def cckPreambleBits : ℕ := 144
def cckPlcpBits : ℕ := 48
def ofdmSifsTime : ℕ := 16
def ofdmPreambleTime : ℕ := 20
def ofdmPlcpBits : ℕ := 22
def ofdmSymbolTime : ℕ := 4

/-- `asf_howmany` in 32 bits, without a value where it divides by zero. -/
def asfHowmany (x y : ℕ) : Option ℕ := if y = 0 then none else some ((x + (y - 1)) % 2 ^ 32 / y)

/-- What is added to a time where the query for HT support fails. -/
def addSifs (pCap : HalCapabilities) (sifs txTime : ℕ) : ℕ :=
  if athHalGetcapability pCap .ht ≠ .ok then (txTime + sifs) % 2 ^ 32 else txTime

/-- `ath_hal_computetxtime`: times are computed in 32 bits and returned in 16. -/
def athHalComputetxtime (pCap : HalCapabilities) (rate : HalRate) (frameLen : ℕ)
    (shortPreamble : Bool) : Option ℕ :=
  if rate.rateKbps = 0 then some 0
  else
    match rate.phy with
    | .cck =>
      let phyTime := cckPreambleBits + cckPlcpBits
      let phyTime := if shortPreamble ∧ rate.shortPreamble ≠ 0 then phyTime / 2 else phyTime
      let numBits := frameLen * 8 % 2 ^ 32
      let txTime := (phyTime + numBits * 1000 % 2 ^ 32 / rate.rateKbps) % 2 ^ 32
      some (addSifs pCap cckSifsTime txTime % 2 ^ 16)
    | .ofdm => do
      let bits := rate.rateKbps * ofdmSymbolTime % 2 ^ 32 / 1000
      let numBits := (ofdmPlcpBits + frameLen * 8 % 2 ^ 32) % 2 ^ 32
      let numSymbols ← asfHowmany numBits bits
      let txTime := (ofdmPreambleTime + numSymbols * ofdmSymbolTime % 2 ^ 32) % 2 ^ 32
      some (addSifs pCap ofdmSifsTime txTime % 2 ^ 16)
    | .ht => some 0

/-- The fields of an `ath_tx_buf` its duration depends on. -/
structure PktState where
  bfIsaggr : Bool
  bfAl : ℕ
  bfPktlen : ℕ
  bfShpream : Bool
  deriving DecidableEq, Repr

def PktState.pktlen (bf : PktState) : ℕ := if bf.bfIsaggr then bf.bfAl else bf.bfPktlen

/-- `SYMBOL_TIME_HALFGI` and `SYMBOL_TIME` -/
def symbolTime (halfGi : Bool) (ns : ℕ) : ℕ :=
  if halfGi then (ns * 18 % 2 ^ 32 + 4) % 2 ^ 32 / 5 else ns * 4 % 2 ^ 32

/-- `L_STF + L_LTF + L_SIG + HT_SIG + HT_STF + HT_LTF(streams)` -/
def htPreambleTime (streams : ℕ) : ℕ := 8 + 8 + 4 + 8 + 4 + 4 * streams

/-- `ath_pkt_duration` -/
def athPktDuration (pCap : HalCapabilities) (rate : HalRate) (bf : PktState)
    (width halfGi : Bool) : Option ℕ :=
  if ¬ isHtRate rate.rateCode then athHalComputetxtime pCap rate bf.pktlen bf.bfShpream
  else do
    let nbits := (bf.pktlen * 8 % 2 ^ 32 + ofdmPlcpBits) % 2 ^ 32
    let nsymbols ← asfHowmany nbits (symbolBits (htRc2Mcs rate.rateCode) width)
    some ((symbolTime halfGi nsymbols + htPreambleTime (htRc2Streams rate.rateCode)) % 2 ^ 32)

/-! ## The exact times -/

/-- What is to be carried besides the frame. -/
def frameBits (len : ℕ) : ℕ := 8 * len + 22

/-- The preamble and the least number of whole symbols, or the bits one by one. -/
def exactDuration (rate : HalRate) (bf : PktState) (width halfGi : Bool) : ℕ :=
  match rate.phy with
  | .cck =>
    (if bf.bfShpream ∧ rate.shortPreamble ≠ 0 then 96 else 192) + 8000 * bf.pktlen / rate.rateKbps
  | .ofdm => 20 + 4 * (frameBits bf.pktlen ⌈/⌉ (4 * rate.rateKbps / 1000))
  | .ht =>
    let symbols := frameBits bf.pktlen ⌈/⌉ symbolBits (htRc2Mcs rate.rateCode) width
    htPreambleTime (htRc2Streams rate.rateCode) +
      if halfGi then (18 * symbols) ⌈/⌉ 5 else 4 * symbols

/-- The time has room for the bytes of the frame at the nominal rate. -/
def CarriesPayload (rate : HalRate) (bf : PktState) (width halfGi : Bool) (time : ℕ) : Prop :=
  match rate.phy with
  | .ht => 8 * bf.pktlen * (if halfGi then 18 else 20) ≤
      5 * time * symbolBits (htRc2Mcs rate.rateCode) width
  | _ => 8000 * bf.pktlen ≤ time * rate.rateKbps

/-- The duration is the exact one, so that shorter frames take no longer and the payload fits. -/
structure AirTime (pCap : HalCapabilities) (rate : HalRate) (bf : PktState)
    (width halfGi : Bool) : Prop where
  exact : athPktDuration pCap rate bf width halfGi = some (exactDuration rate bf width halfGi)
  monotone : ∀ bf' : PktState, bf'.pktlen ≤ bf.pktlen → bf'.bfShpream = bf.bfShpream →
    ∃ time ≤ exactDuration rate bf width halfGi,
      athPktDuration pCap rate bf' width halfGi = some time
  payload : CarriesPayload rate bf width halfGi (exactDuration rate bf width halfGi)

/-- The time between two frames that `ath_hal_computetxtime` adds. -/
def HalPhy.sifs : HalPhy → ℕ
  | .cck => 10
  | .ofdm => 16
  | .ht => 0

variable {pCap : HalCapabilities} {rate : HalRate} {bf bf' : PktState} {width halfGi : Bool}
  {t : List HalRate} {x y n : ℕ}

/-! ### The rows of the tables -/

/-- A row whose rate code is one of its kind. -/
def Regular (rate : HalRate) : Prop :=
  (rate.phy = .cck ∧ isHtRate rate.rateCode = false ∧ 1000 ≤ rate.rateKbps) ∨
    (rate.phy = .ofdm ∧ isHtRate rate.rateCode = false ∧ 6000 ≤ rate.rateKbps ∧
      rate.rateKbps ≤ 54000) ∨
    (rate.phy = .ht ∧ isHtRate rate.rateCode = true ∧ rate.rateKbps ≠ 0)

instance : DecidablePred Regular := fun _ => inferInstanceAs (Decidable (_ ∨ _ ∨ _))

theorem halRateTables_regular : ∀ t ∈ halRateTables, ∀ rate ∈ t, Regular rate := by decide +kernel

theorem symbolBits_bounds : ∀ (rc : BitVec 8) (width : Bool),
    26 ≤ symbolBits (htRc2Mcs rc) width ∧ symbolBits (htRc2Mcs rc) width ≤ 1080 := by
  decide +kernel

theorem htRc2Streams_le : ∀ rc : BitVec 8, htRc2Streams rc ≤ 16 := by
  decide +kernel

/-! ### Symbols -/

theorem asfHowmany_eq (hy : 0 < y) (hxy : x + y < 2 ^ 32) : asfHowmany x y = some (x ⌈/⌉ y) := by
  have hsum : x + (y - 1) = x + y - 1 := by omega
  rw [asfHowmany, if_neg (Nat.pos_iff_ne_zero.mp hy), Nat.mod_eq_of_lt (by omega), hsum,
    Nat.ceilDiv_eq_add_pred_div]

theorem ceilDiv_le_self (hy : 0 < y) : x ⌈/⌉ y ≤ x := by
  rw [ceilDiv_le_iff_le_mul hy]
  exact Nat.le_mul_of_pos_left x hy

theorem ceilDiv_mono {x' : ℕ} (hy : 0 < y) (h : x ≤ x') : x ⌈/⌉ y ≤ x' ⌈/⌉ y := by
  rw [ceilDiv_le_iff_le_mul hy]
  exact h.trans (le_smul_ceilDiv hy)

theorem symbolTime_eq (hn : n ≤ 2 ^ 20) :
    symbolTime halfGi n = if halfGi then (18 * n) ⌈/⌉ 5 else 4 * n := by
  cases halfGi
  · simp only [symbolTime, Bool.false_eq_true, if_false]
    omega
  · simp only [symbolTime, if_true, Nat.ceilDiv_eq_add_pred_div]
    omega

/-! ### Legacy rates -/

/-- No device answers the query for HT support with `HAL_OK`. -/
theorem athHalGetcapability_ht : athHalGetcapability pCap .ht = .einval := rfl

theorem addSifs_eq (sifs : ℕ) (h : x + sifs < 2 ^ 32) : addSifs pCap sifs x = x + sifs := by
  rw [addSifs, athHalGetcapability_ht, if_pos (by decide), Nat.mod_eq_of_lt h]

theorem computetxtime_cck (hphy : rate.phy = .cck) (hkbps : 1000 ≤ rate.rateKbps)
    (hlen : bf.pktlen ≤ 65535) :
    athHalComputetxtime pCap rate bf.pktlen bf.bfShpream =
      some ((exactDuration rate bf width halfGi + 10) % 2 ^ 16) := by
  have hdiv : 8000 * bf.pktlen / rate.rateKbps ≤ 8000 * bf.pktlen := Nat.div_le_self ..
  have hbits : bf.pktlen * 8 % 2 ^ 32 * 1000 % 2 ^ 32 = 8000 * bf.pktlen := by omega
  have hne : rate.rateKbps ≠ 0 := by omega
  rw [athHalComputetxtime, if_neg hne, hphy]
  simp only [exactDuration, hphy, hbits, cckPreambleBits, cckPlcpBits, cckSifsTime]
  generalize 8000 * bf.pktlen / rate.rateKbps = payload at *
  split
  · rw [addSifs_eq _ (by omega)]
    congr 2
    omega
  · rw [addSifs_eq _ (by omega)]
    congr 2
    omega

theorem computetxtime_ofdm (hphy : rate.phy = .ofdm) (hlow : 6000 ≤ rate.rateKbps)
    (hhigh : rate.rateKbps ≤ 54000) (hlen : bf.pktlen ≤ 65535) :
    athHalComputetxtime pCap rate bf.pktlen bf.bfShpream =
      some ((exactDuration rate bf width halfGi + 16) % 2 ^ 16) := by
  have hne : rate.rateKbps ≠ 0 := by omega
  have hbits : rate.rateKbps * ofdmSymbolTime % 2 ^ 32 / 1000 = 4 * rate.rateKbps / 1000 := by
    rw [ofdmSymbolTime]
    omega
  have hnum : (ofdmPlcpBits + bf.pktlen * 8 % 2 ^ 32) % 2 ^ 32 = frameBits bf.pktlen := by
    rw [ofdmPlcpBits, frameBits]
    omega
  have hframe : frameBits bf.pktlen ≤ 524302 := by
    rw [frameBits]
    omega
  have hpos : 0 < 4 * rate.rateKbps / 1000 := by omega
  have hle : frameBits bf.pktlen ⌈/⌉ (4 * rate.rateKbps / 1000) ≤ 524302 :=
    (ceilDiv_le_self hpos).trans hframe
  rw [athHalComputetxtime, if_neg hne, hphy]
  simp only [exactDuration, hphy, hbits, hnum]
  rw [asfHowmany_eq hpos (by omega)]
  generalize frameBits bf.pktlen ⌈/⌉ (4 * rate.rateKbps / 1000) = symbols at *
  simp only [Option.bind_eq_bind, Option.bind_some, ofdmPreambleTime, ofdmSymbolTime, ofdmSifsTime]
  rw [addSifs_eq _ (by omega)]
  congr 2
  omega

theorem computetxtime_ht (hphy : rate.phy = .ht) {len : ℕ} {shortPreamble : Bool} :
    athHalComputetxtime pCap rate len shortPreamble = some 0 := by
  rw [athHalComputetxtime, hphy]
  split <;> rfl

/-! ### HT rates -/

/-- The least number of symbols for a frame of so many bytes. -/
def htSymbols (rc : BitVec 8) (width : Bool) (len : ℕ) : ℕ :=
  frameBits len ⌈/⌉ symbolBits (htRc2Mcs rc) width

def htSymbolsTime (halfGi : Bool) (n : ℕ) : ℕ := if halfGi then (18 * n) ⌈/⌉ 5 else 4 * n

theorem exactDuration_ht (hphy : rate.phy = .ht) :
    exactDuration rate bf width halfGi = htPreambleTime (htRc2Streams rate.rateCode) +
      htSymbolsTime halfGi (htSymbols rate.rateCode width bf.pktlen) := by
  rw [exactDuration, hphy]
  rfl

theorem htSymbols_le (rc : BitVec 8) (width : Bool) (hlen : n ≤ 65535) :
    htSymbols rc width n ≤ 524302 := by
  have hframe : frameBits n ≤ 524302 := by
    rw [frameBits]
    omega
  have hpos : 0 < symbolBits (htRc2Mcs rc) width := by
    have hbounds := symbolBits_bounds rc width
    omega
  exact (ceilDiv_le_self hpos).trans hframe

theorem htSymbolsTime_mono {n' : ℕ} (h : n' ≤ n) :
    htSymbolsTime halfGi n' ≤ htSymbolsTime halfGi n := by
  cases halfGi
  · exact Nat.mul_le_mul_left 4 h
  · exact ceilDiv_mono (by decide) (Nat.mul_le_mul_left 18 h)

theorem htSymbols_mono (rc : BitVec 8) (width : Bool) {n' : ℕ} (h : n' ≤ n) :
    htSymbols rc width n' ≤ htSymbols rc width n := by
  have hbounds := symbolBits_bounds rc width
  apply ceilDiv_mono
  · omega
  · rw [frameBits, frameBits]
    omega

theorem pktDuration_ht (hphy : rate.phy = .ht) (hcode : isHtRate rate.rateCode = true)
    (hlen : bf.pktlen ≤ 65535) :
    athPktDuration pCap rate bf width halfGi = some (exactDuration rate bf width halfGi) := by
  have hbounds := symbolBits_bounds rate.rateCode width
  have hstreams := htRc2Streams_le rate.rateCode
  have hnbits : (bf.pktlen * 8 % 2 ^ 32 + ofdmPlcpBits) % 2 ^ 32 = frameBits bf.pktlen := by
    rw [ofdmPlcpBits, frameBits]
    omega
  have hsymbols : htSymbols rate.rateCode width bf.pktlen ≤ 524302 := htSymbols_le _ _ hlen
  have hhowmany : asfHowmany (frameBits bf.pktlen) (symbolBits (htRc2Mcs rate.rateCode) width) =
      some (htSymbols rate.rateCode width bf.pktlen) := by
    apply asfHowmany_eq
    · omega
    · rw [frameBits]
      omega
  have htime : htSymbolsTime halfGi (htSymbols rate.rateCode width bf.pktlen) ≤
      htSymbolsTime halfGi 524302 := htSymbolsTime_mono hsymbols
  have hmax : htSymbolsTime halfGi 524302 ≤ 2097208 := by
    cases halfGi <;> decide
  have hsum : htSymbolsTime halfGi (htSymbols rate.rateCode width bf.pktlen) +
      htPreambleTime (htRc2Streams rate.rateCode) < 2 ^ 32 := by
    rw [htPreambleTime]
    omega
  rw [athPktDuration, if_neg (by simp [hcode]), hnbits, exactDuration_ht hphy]
  simp only [Option.bind_eq_bind, hhowmany, Option.bind_some]
  rw [symbolTime_eq (by omega), ← htSymbolsTime, Nat.mod_eq_of_lt hsum, Nat.add_comm]

theorem carriesPayload_ht (hphy : rate.phy = .ht) :
    CarriesPayload rate bf width halfGi (exactDuration rate bf width halfGi) := by
  rw [CarriesPayload, hphy, exactDuration_ht hphy]
  set bits := symbolBits (htRc2Mcs rate.rateCode) width with hbits
  set symbols := htSymbols rate.rateCode width bf.pktlen with hsymbols
  have hpos : 0 < bits := by
    have hbounds := symbolBits_bounds rate.rateCode width
    omega
  have hframe : frameBits bf.pktlen ≤ bits * symbols := le_smul_ceilDiv hpos
  have hlen : 8 * bf.pktlen ≤ frameBits bf.pktlen := Nat.le_add_right ..
  have htime : (if halfGi then 18 else 20) * symbols ≤ 5 * htSymbolsTime halfGi symbols := by
    cases halfGi
    · simp only [htSymbolsTime, Bool.false_eq_true, if_false]
      omega
    · have hceil : 18 * symbols ≤ 5 * ((18 * symbols) ⌈/⌉ 5) :=
        le_smul_ceilDiv (Nat.zero_lt_succ 4)
      exact hceil
  calc 8 * bf.pktlen * (if halfGi then 18 else 20)
      ≤ bits * symbols * (if halfGi then 18 else 20) := Nat.mul_le_mul_right _ (hlen.trans hframe)
    _ = (if halfGi then 18 else 20) * symbols * bits := by ring
    _ ≤ 5 * htSymbolsTime halfGi symbols * bits := Nat.mul_le_mul_right _ htime
    _ ≤ 5 * (htPreambleTime (htRc2Streams rate.rateCode) + htSymbolsTime halfGi symbols) * bits :=
      Nat.mul_le_mul_right _ (Nat.mul_le_mul_left 5 (Nat.le_add_left ..))

theorem airTime_ht (hphy : rate.phy = .ht) (hcode : isHtRate rate.rateCode = true)
    (hlen : bf.pktlen ≤ 65535) : AirTime pCap rate bf width halfGi := by
  refine ⟨pktDuration_ht hphy hcode hlen, ?_, carriesPayload_ht hphy⟩
  intro bf' hle _
  refine ⟨_, ?_, pktDuration_ht hphy hcode (hle.trans hlen)⟩
  rw [exactDuration_ht hphy, exactDuration_ht hphy]
  exact Nat.add_le_add_left (htSymbolsTime_mono (htSymbols_mono _ _ hle)) _

/-! ### All rates -/

/-- What `ath_hal_computetxtime` returns for a legacy rate. -/
theorem computetxtime_legacy (h : Regular rate) (hlegacy : isHtRate rate.rateCode = false)
    (hlen : bf.pktlen ≤ 65535) (width halfGi : Bool) :
    0 < rate.phy.sifs ∧ rate.phy.sifs < 2 ^ 16 ∧
      athHalComputetxtime pCap rate bf.pktlen bf.bfShpream =
        some ((exactDuration rate bf width halfGi + rate.phy.sifs) % 2 ^ 16) := by
  rcases h with ⟨hphy, -, hkbps⟩ | ⟨hphy, -, hlow, hhigh⟩ | ⟨-, hcode, -⟩
  · rw [hphy]
    exact ⟨by decide, by decide, computetxtime_cck hphy hkbps hlen⟩
  · rw [hphy]
    exact ⟨by decide, by decide, computetxtime_ofdm hphy hlow hhigh hlen⟩
  · rw [hlegacy] at hcode
    cases hcode

/-- The duration is exact for the HT rates.  That of every legacy rate has the time between two
frames added and is cut to 16 bits, so that `ath_hal_computetxtime` is never exact. -/
theorem pkt_duration_exact (pCap : HalCapabilities) {t : List HalRate} {rate : HalRate}
    {bf : PktState} (ht : t ∈ halRateTables) (hrate : rate ∈ t) (hlen : bf.pktlen ≤ 65535)
    (width halfGi : Bool) :
    (AirTime pCap rate bf width halfGi ↔ isHtRate rate.rateCode) ∧
      (isHtRate rate.rateCode = false → athPktDuration pCap rate bf width halfGi =
        some ((exactDuration rate bf width halfGi + rate.phy.sifs) % 2 ^ 16)) ∧
      athHalComputetxtime pCap rate bf.pktlen bf.bfShpream ≠
        some (exactDuration rate bf width halfGi) := by
  have hregular : Regular rate := halRateTables_regular t ht rate hrate
  by_cases hcode : isHtRate rate.rateCode = true
  · have hphy : rate.phy = .ht := by
      rcases hregular with ⟨-, hno, -⟩ | ⟨-, hno, -⟩ | ⟨hphy, -⟩
      · exact absurd hcode (Bool.eq_false_iff.mp hno)
      · exact absurd hcode (Bool.eq_false_iff.mp hno)
      · exact hphy
    refine ⟨iff_of_true (airTime_ht hphy hcode hlen) hcode, ?_, ?_⟩
    · intro hno
      exact absurd hcode (Bool.eq_false_iff.mp hno)
    · rw [computetxtime_ht hphy, exactDuration_ht hphy, htPreambleTime]
      intro heq
      have hzero := Option.some.inj heq
      omega
  · have hlegacy : isHtRate rate.rateCode = false := Bool.eq_false_iff.mpr hcode
    obtain ⟨hpos, hlt, htxtime⟩ := computetxtime_legacy hregular hlegacy hlen width halfGi
    have hduration : athPktDuration pCap rate bf width halfGi =
        athHalComputetxtime pCap rate bf.pktlen bf.bfShpream := by
      rw [athPktDuration, if_pos hcode]
    have hnot : athHalComputetxtime pCap rate bf.pktlen bf.bfShpream ≠
        some (exactDuration rate bf width halfGi) := by
      rw [htxtime]
      intro heq
      have hmod := Option.some.inj heq
      omega
    refine ⟨iff_of_false ?_ hcode, fun _ => hduration.trans htxtime, hnot⟩
    intro h
    apply hnot
    rw [← hduration]
    exact h.exact

/-! ### The longest frame at one and at 65 megabits -/

def oneMegabit : HalRate := ⟨.cck, 1000, 0x1b, 0x00⟩

def ht65Megabits : HalRate := ⟨.ht, 65000, 0x87, 0x00⟩

def longFrame : PktState := ⟨false, 0, 65535, false⟩

theorem ht_rate_exact :
    AirTime ⟨false, false, true⟩ ht65Megabits longFrame false true := by
  have ht : ar5416Table11ng ∈ halRateTables := by decide
  have hrate : ht65Megabits ∈ ar5416Table11ng := by decide
  have hlen : longFrame.pktlen ≤ 65535 := by decide
  exact (pkt_duration_exact _ ht hrate hlen false true).1.mpr (by decide)

theorem one_megabit_cut :
    athPktDuration ⟨false, false, true⟩ oneMegabit longFrame false false = some 194 ∧
      exactDuration oneMegabit longFrame false false = 524472 ∧
      ¬ AirTime ⟨false, false, true⟩ oneMegabit longFrame false false := by
  refine ⟨by decide, by decide, fun h => ?_⟩
  have hexact := h.exact
  revert hexact
  decide

end Ath9kHtc.Rate
