import Ath9kHtc.Tx.Descriptor
import Mathlib.Tactic.FinCases

/-!
# What a descriptor orders

The control words of a descriptor as the hardware reads them, field by field, and what each call of
the hardware layer does to that reading.
-/

namespace Ath9kHtc.Tx

open BitField

/-- What the hardware is told about one of the four rates it tries. -/
@[ext]
structure SeriesOrder where
  tries : Word
  rate : Word
  packetDur : Word
  rtsctsQual : Bool
  cw40 : Bool
  gi : Bool
  stbc : Bool
  chainSel : Word
  deriving DecidableEq

/-- What the hardware is told about a frame. -/
@[ext]
structure TxOrder where
  frameLen : Word
  virtMoreFrag : Bool
  xmitPower : Word
  rtsEnable : Bool
  veol : Bool
  clrDestMask : Bool
  txIntrReq : Bool
  destIdxValid : Bool
  ctsEnable : Bool
  bufLen : Word
  txMore : Bool
  destIdx : Word
  frameType : Word
  noAck : Bool
  extOnly : Bool
  extAndCtl : Bool
  moreAggr : Bool
  isAggr : Bool
  burstDur : Word
  durUpdateEn : Bool
  aggrLen : Word
  padDelim : Word
  encrType : Word
  rtsctsRate : Word
  series : Fin 4 → SeriesOrder

/-- The word with the packet duration of a series. -/
def Ar5416Desc.durWord (d : Ar5416Desc) : Fin 4 → Word
  | 0 => d.dsCtl4
  | 1 => d.dsCtl4
  | 2 => d.dsCtl5
  | 3 => d.dsCtl5

def Ar5416Desc.seriesOrder (d : Ar5416Desc) (i : Fin 4) : SeriesOrder where
  tries := get d.dsCtl2 (arXmitDataTries i)
  rate := get d.dsCtl3 (arXmitRate i)
  packetDur := get (d.durWord i) (arPacketDur i)
  rtsctsQual := on (d.durWord i) (arRTSCTSQual i)
  cw40 := on d.dsCtl7 (ar2040 i)
  gi := on d.dsCtl7 (arGI i)
  stbc := on d.dsCtl7 (arSTBC i)
  chainSel := get d.dsCtl7 (arChainSel i)

def Ar5416Desc.order (d : Ar5416Desc) : TxOrder where
  frameLen := get d.dsCtl0 arFrameLen
  virtMoreFrag := on d.dsCtl0 arVirtMoreFrag
  xmitPower := get d.dsCtl0 arXmitPower
  rtsEnable := on d.dsCtl0 arRTSEnable
  veol := on d.dsCtl0 arVEOL
  clrDestMask := on d.dsCtl0 arClrDestMask
  txIntrReq := on d.dsCtl0 arTxIntrReq
  destIdxValid := on d.dsCtl0 arDestIdxValid
  ctsEnable := on d.dsCtl0 arCTSEnable
  bufLen := get d.dsCtl1 arBufLen
  txMore := on d.dsCtl1 arTxMore
  destIdx := get d.dsCtl1 arDestIdx
  frameType := get d.dsCtl1 arFrameType
  noAck := on d.dsCtl1 arNoAck
  extOnly := on d.dsCtl1 arExtOnly
  extAndCtl := on d.dsCtl1 arExtAndCtl
  moreAggr := on d.dsCtl1 arMoreAggr
  isAggr := on d.dsCtl1 arIsAggr
  burstDur := get d.dsCtl2 arBurstDur
  durUpdateEn := on d.dsCtl2 arDurUpdateEn
  aggrLen := get d.dsCtl6 arAggrLen
  padDelim := get d.dsCtl6 arPadDelim
  encrType := get d.dsCtl6 arEncrType
  rtsctsRate := get d.dsCtl7 arRTSCTSRate
  series := d.seriesOrder

/-- The calls that write the control words. -/
inductive HalCall
  | setupTxDesc (pktLen type txPower txRate0 txTries0 keyIx flags rtsctsRate rtsctsDuration : Word)
  | fillTxDesc (segLen : Word) (firstSeg lastSeg : Bool) (ds0 : Ar5416Desc)
  | fillKeyTxDesc (keyType : Word)
  | set11nTxDesc (pktLen type txPower keyIx keyType flags : Word)
  | set11nRateScenario (durUpdateEn : Bool) (rtsctsRate : Word) (series : Fin 4 → Hal11nRateSeries)
      (flags : Word)
  | set11nAggrFirst (aggrLen numDelims : Word)
  | set11nAggrMiddle (numDelims : Word)
  | set11nAggrLast
  | clr11nAggr
  | set11nBurstDuration (burstDuration : Word)
  | set11nVirtualMoreFrag (vmf : Bool)

def HalCall.run (d : Ar5416Desc) : HalCall → Ar5416Desc
  | .setupTxDesc pktLen type txPower txRate0 txTries0 keyIx flags rtsctsRate rtsctsDuration =>
    (Tx.setupTxDesc d pktLen type txPower txRate0 txTries0 keyIx flags rtsctsRate rtsctsDuration).2
  | .fillTxDesc segLen firstSeg lastSeg ds0 => Tx.fillTxDesc d segLen firstSeg lastSeg ds0
  | .fillKeyTxDesc keyType => Tx.fillKeyTxDesc d keyType
  | .set11nTxDesc pktLen type txPower keyIx keyType flags =>
    Tx.set11nTxDesc d pktLen type txPower keyIx keyType flags
  | .set11nRateScenario durUpdateEn rtsctsRate series flags =>
    Tx.set11nRateScenario d durUpdateEn rtsctsRate series flags
  | .set11nAggrFirst aggrLen numDelims => Tx.set11nAggrFirst d aggrLen numDelims
  | .set11nAggrMiddle numDelims => Tx.set11nAggrMiddle d numDelims
  | .set11nAggrLast => Tx.set11nAggrLast d
  | .clr11nAggr => Tx.clr11nAggr d
  | .set11nBurstDuration burstDuration => Tx.set11nBurstDuration d burstDuration
  | .set11nVirtualMoreFrag vmf => Tx.set11nVirtualMoreFrag d vmf

/-- The arguments fit their fields where the call does not cut them. -/
def HalCall.Fits : HalCall → Prop
  | .setupTxDesc _ type _ txRate0 _ _ _ _ _ => type.toNat < 2 ^ 4 ∧ txRate0.toNat < 2 ^ 8
  | .fillTxDesc segLen _ _ _ => segLen.toNat < 2 ^ 12
  | _ => True

/-- The order that `ah_setupTxDesc` leaves.  It takes the rate of the RTS or CTS frame for the rate
of a series. -/
def TxOrder.setup (o : TxOrder) (pktLen type txPower txRate0 txTries0 keyIx flags rtsctsRate
    rtsctsDuration : Word) : TxOrder :=
  let protect := asks flags (halTxdescRtsena ||| halTxdescCtsena) ∧ isValidTxRate rtsctsRate
  { o with
    frameLen := arFrameLen.cut pktLen
    virtMoreFrag := false
    xmitPower := if 63#32 < txPower then 63#32 else txPower
    rtsEnable := decide protect && on flags halTxdescRtsena
    veol := on flags halTxdescVeol
    clrDestMask := on flags halTxdescClrdmask
    txIntrReq := on flags halTxdescIntreq
    destIdxValid := keyIx ≠ halTxkeyixInvalid
    ctsEnable := decide protect && on flags halTxdescCtsena
    bufLen := 0
    txMore := false
    destIdx := if keyIx ≠ halTxkeyixInvalid then arDestIdx.cut keyIx else 0
    frameType := type
    noAck := on flags halTxdescNoack
    extOnly := false
    extAndCtl := false
    moreAggr := false
    isAggr := false
    burstDur := if protect then arBurstDur.cut rtsctsDuration else 0
    durUpdateEn := false
    rtsctsRate := 0
    series := fun i =>
      { o.series i with
        tries := if i = 0 then (arXmitDataTries 0).cut txTries0 else 0
        rate := (if i = 0 then txRate0 else 0) |||
          if protect then get (rtsctsRate <<< arRTSCTSRate.shift) (arXmitRate i) else 0
        cw40 := false
        gi := false
        stbc := false
        chainSel := ar5416LegacyChainmask } }

/-- The order that `ah_fillTxDesc` leaves. -/
def TxOrder.fill (o : TxOrder) (segLen : Word) (firstSeg lastSeg : Bool) (o₀ : TxOrder) : TxOrder :=
  if firstSeg then { o with bufLen := o.bufLen ||| segLen, txMore := o.txMore || !lastSeg }
  else
    { o with
      frameLen := 0
      virtMoreFrag := false
      xmitPower := 0
      rtsEnable := false
      veol := false
      clrDestMask := false
      txIntrReq := false
      destIdxValid := false
      ctsEnable := false
      bufLen := segLen
      txMore := !lastSeg
      destIdx := 0
      frameType := 0
      noAck := false
      extOnly := false
      extAndCtl := false
      moreAggr := false
      isAggr := false
      burstDur := if lastSeg then o₀.burstDur else 0
      durUpdateEn := if lastSeg then o₀.durUpdateEn else false
      series := fun i =>
        { o.series i with
          tries := if lastSeg then (o₀.series i).tries else 0
          rate := if lastSeg then (o₀.series i).rate else 0 } }

/-- What a rate series asks of the hardware. -/
def Hal11nRateSeries.order (r : Hal11nRateSeries) (i : Fin 4) : SeriesOrder where
  tries := (arXmitDataTries i).cut r.tries
  rate := (arXmitRate i).cut r.rate
  packetDur := (arPacketDur i).cut r.pktDuration
  rtsctsQual := on r.rateFlags halRateseriesRtsCts
  cw40 := on r.rateFlags halRateseries2040
  gi := on r.rateFlags halRateseriesHalfgi
  stbc := on r.rateFlags halRateseriesStbc
  chainSel := (arChainSel i).cut r.chSel

/-- What a call asks of the hardware; what it does not mention stays as it was. -/
def HalCall.order (o : TxOrder) : HalCall → TxOrder
  | .setupTxDesc pktLen type txPower txRate0 txTries0 keyIx flags rtsctsRate rtsctsDuration =>
    o.setup pktLen type txPower txRate0 txTries0 keyIx flags rtsctsRate rtsctsDuration
  | .fillTxDesc segLen firstSeg lastSeg ds0 => o.fill segLen firstSeg lastSeg ds0.order
  | .fillKeyTxDesc keyType =>
    { o with aggrLen := 0, padDelim := 0, encrType := arEncrType.cut keyType }
  | .set11nTxDesc pktLen type txPower keyIx keyType flags =>
    { o with
      frameLen := arFrameLen.cut pktLen
      virtMoreFrag := on flags halTxdescVmf
      xmitPower := if 63#32 < txPower then 63#32 else txPower
      rtsEnable := on flags halTxdescRtsena
      veol := on flags halTxdescVeol
      clrDestMask := on flags halTxdescClrdmask
      txIntrReq := on flags halTxdescIntreq
      destIdxValid := keyIx ≠ halTxkeyixInvalid
      ctsEnable := on flags halTxdescCtsena
      bufLen := 0
      txMore := false
      destIdx := if keyIx ≠ halTxkeyixInvalid then arDestIdx.cut keyIx else 0
      frameType := arFrameType.cut type
      noAck := on flags halTxdescNoack
      extOnly := on flags halTxdescExtOnly
      extAndCtl := on flags halTxdescExtAndCtl
      moreAggr := false
      isAggr := false
      aggrLen := 0
      padDelim := 0
      encrType := arEncrType.cut keyType }
  | .set11nRateScenario durUpdateEn rtsctsRate series flags =>
    { o with
      rtsEnable := on flags halTxdescRtsena
      ctsEnable := on flags halTxdescCtsena && !on flags halTxdescRtsena
      burstDur := 0
      durUpdateEn := durUpdateEn
      rtsctsRate := arRTSCTSRate.cut rtsctsRate
      series := fun i => (series i).order i }
  | .set11nAggrFirst aggrLen numDelims =>
    { o with
      isAggr := true
      moreAggr := true
      aggrLen := arAggrLen.cut aggrLen
      padDelim := arPadDelim.cut numDelims }
  | .set11nAggrMiddle numDelims =>
    { o with isAggr := true, moreAggr := true, padDelim := arPadDelim.cut numDelims }
  | .set11nAggrLast => { o with isAggr := true, moreAggr := false, padDelim := 0 }
  | .clr11nAggr => { o with isAggr := false, moreAggr := false }
  | .set11nBurstDuration burstDuration => { o with burstDur := arBurstDur.cut burstDuration }
  | .set11nVirtualMoreFrag vmf => { o with virtMoreFrag := vmf }

section

variable (ads : Ar5416Desc)

theorem power_lt (p : Word) : (if 63#32 < p then 63#32 else p).toNat < 2 ^ 6 := by
  split
  · decide
  · rename_i hle
    exact Nat.lt_succ_of_le (BitVec.le_def.mp (BitVec.not_lt.mp hle))

theorem cut_xmitPower (p : Word) :
    arXmitPower.cut (if 63#32 < p then 63#32 else p) = if 63#32 < p then 63#32 else p := by
  have hwide : arXmitPower.Wide 6 := by decide
  exact hwide.cut_of_lt (power_lt p)

theorem power_in_place (p : Word) :
    (if 63#32 < p then 63#32 else p) <<< arXmitPower.shift =
      put (if 63#32 < p then 63#32 else p) arXmitPower := by
  have hwide : arXmitPower.Wide 6 := by decide
  exact hwide.put_of_lt (power_lt p)

theorem order_set11nTxDesc (pktLen type txPower keyIx keyType flags : Word) :
    (set11nTxDesc ads pktLen type txPower keyIx keyType flags).order =
      (HalCall.set11nTxDesc pktLen type txPower keyIx keyType flags).order ads.order := by
  have hseries : (set11nTxDesc ads pktLen type txPower keyIx keyType flags).seriesOrder =
      ads.seriesOrder := rfl
  rw [Ar5416Desc.order, hseries]
  rcases eq_or_ne keyIx halTxkeyixInvalid with hkey | hkey
  · simp (disch := decide) [set11nTxDesc, HalCall.order, Ar5416Desc.order, cut_xmitPower, hkey]
  · simp (disch := decide) [set11nTxDesc, HalCall.order, Ar5416Desc.order, cut_xmitPower, hkey]

theorem order_fillKeyTxDesc (keyType : Word) :
    (fillKeyTxDesc ads keyType).order = (HalCall.fillKeyTxDesc keyType).order ads.order := by
  have hseries : (fillKeyTxDesc ads keyType).seriesOrder = ads.seriesOrder := rfl
  rw [Ar5416Desc.order, hseries]
  simp (disch := decide) [fillKeyTxDesc, HalCall.order, Ar5416Desc.order]

theorem order_set11nAggrFirst (aggrLen numDelims : Word) :
    (set11nAggrFirst ads aggrLen numDelims).order =
      (HalCall.set11nAggrFirst aggrLen numDelims).order ads.order := by
  have hseries : (set11nAggrFirst ads aggrLen numDelims).seriesOrder = ads.seriesOrder := rfl
  rw [Ar5416Desc.order, hseries]
  simp (disch := decide) [set11nAggrFirst, HalCall.order, Ar5416Desc.order, get_of_disjoint,
    on_of_disjoint, on_of_meets]

theorem order_set11nAggrMiddle (numDelims : Word) :
    (set11nAggrMiddle ads numDelims).order =
      (HalCall.set11nAggrMiddle numDelims).order ads.order := by
  have hseries : (set11nAggrMiddle ads numDelims).seriesOrder = ads.seriesOrder := rfl
  rw [Ar5416Desc.order, hseries]
  simp (disch := decide) [set11nAggrMiddle, HalCall.order, Ar5416Desc.order, get_of_disjoint,
    on_of_disjoint, on_of_meets]

theorem order_set11nAggrLast :
    (set11nAggrLast ads).order = HalCall.set11nAggrLast.order ads.order := by
  have hseries : (set11nAggrLast ads).seriesOrder = ads.seriesOrder := rfl
  rw [Ar5416Desc.order, hseries]
  simp (disch := decide) [set11nAggrLast, HalCall.order, Ar5416Desc.order, get_of_disjoint,
    on_of_disjoint, on_of_meets]

theorem order_clr11nAggr : (clr11nAggr ads).order = HalCall.clr11nAggr.order ads.order := by
  have hseries : (clr11nAggr ads).seriesOrder = ads.seriesOrder := rfl
  rw [Ar5416Desc.order, hseries]
  simp (disch := decide) [clr11nAggr, HalCall.order, Ar5416Desc.order, ← BitVec.and_assoc]

theorem order_set11nVirtualMoreFrag (vmf : Bool) :
    (set11nVirtualMoreFrag ads vmf).order = (HalCall.set11nVirtualMoreFrag vmf).order ads.order := by
  have hseries : (set11nVirtualMoreFrag ads vmf).seriesOrder = ads.seriesOrder := rfl
  rw [Ar5416Desc.order, hseries]
  cases vmf <;>
    simp (disch := decide) [set11nVirtualMoreFrag, HalCall.order, Ar5416Desc.order,
      get_of_disjoint, on_of_disjoint, on_of_meets]

theorem order_set11nBurstDuration (burstDuration : Word) :
    (set11nBurstDuration ads burstDuration).order =
      (HalCall.set11nBurstDuration burstDuration).order ads.order := by
  have hseries : (set11nBurstDuration ads burstDuration).seriesOrder = ads.seriesOrder := by
    funext i
    fin_cases i <;>
      simp (disch := decide) [set11nBurstDuration, Ar5416Desc.seriesOrder, Ar5416Desc.durWord]
  rw [Ar5416Desc.order, hseries]
  simp (disch := decide) [set11nBurstDuration, HalCall.order, Ar5416Desc.order]

theorem seriesOrder_set11nRateScenario (durUpdateEn : Bool) (rtsctsRate : Word)
    (series : Fin 4 → Hal11nRateSeries) (flags : Word) (i : Fin 4) :
    (set11nRateScenario ads durUpdateEn rtsctsRate series flags).seriesOrder i =
      (series i).order i := by
  fin_cases i <;>
    simp (disch := decide) [set11nRateScenario, Ar5416Desc.seriesOrder, Ar5416Desc.durWord,
      set11nTries, set11nRate, set11nPktDurRTSCTS, set11nRateFlags, Hal11nRateSeries.order]

theorem order_set11nRateScenario (durUpdateEn : Bool) (rtsctsRate : Word)
    (series : Fin 4 → Hal11nRateSeries) (flags : Word) :
    (set11nRateScenario ads durUpdateEn rtsctsRate series flags).order =
      (HalCall.set11nRateScenario durUpdateEn rtsctsRate series flags).order ads.order := by
  have hseries : (set11nRateScenario ads durUpdateEn rtsctsRate series flags).seriesOrder =
      fun i => (series i).order i :=
    funext fun i => seriesOrder_set11nRateScenario ads durUpdateEn rtsctsRate series flags i
  rw [Ar5416Desc.order, hseries]
  cases hrts : on flags halTxdescRtsena <;> cases hcts : on flags halTxdescCtsena <;>
    simp (disch := decide) [set11nRateScenario, HalCall.order, Ar5416Desc.order, asks, on_or_mask,
      hrts, hcts, set11nTries, set11nRateFlags, set11nRate, get_of_disjoint, on_of_disjoint,
      on_of_meets]

theorem bufLen_of_fits {segLen : Word} (h : segLen.toNat < 2 ^ 12) : segLen = put segLen arBufLen := by
  have hwide : arBufLen.Wide 12 := by decide
  have hput := hwide.put_of_lt h
  rwa [show arBufLen.shift = 0 from rfl, BitVec.shiftLeft_zero] at hput

theorem order_fillTxDesc {segLen : Word} (firstSeg lastSeg : Bool) (ds0 : Ar5416Desc)
    (hfits : segLen.toNat < 2 ^ 12) :
    (fillTxDesc ads segLen firstSeg lastSeg ds0).order =
      ads.order.fill segLen firstSeg lastSeg ds0.order := by
  have hwide : arBufLen.Wide 12 := by decide
  have hcut : arBufLen.cut segLen = segLen := hwide.cut_of_lt hfits
  have hseries : (fillTxDesc ads segLen firstSeg lastSeg ds0).seriesOrder =
      (ads.order.fill segLen firstSeg lastSeg ds0.order).series := by
    funext i
    cases firstSeg <;> cases lastSeg <;> fin_cases i <;>
      simp (disch := decide) [fillTxDesc, TxOrder.fill, Ar5416Desc.order, Ar5416Desc.seriesOrder,
        Ar5416Desc.durWord, get_of_disjoint]
  rw [Ar5416Desc.order, hseries, fillTxDesc, bufLen_of_fits hfits]
  cases firstSeg <;> cases lastSeg <;>
    simp (disch := decide) [TxOrder.fill, Ar5416Desc.order, get_of_disjoint, on_of_disjoint,
      on_of_meets, hcut] <;>
    rw [← bufLen_of_fits hfits]

theorem seriesOrder_setupTxDesc
    (pktLen type txPower txTries0 keyIx flags rtsctsRate rtsctsDuration : Word) {txRate0 : Word}
    (hrate : txRate0.toNat < 2 ^ 8) :
    (setupTxDesc ads pktLen type txPower txRate0 txTries0 keyIx flags rtsctsRate
        rtsctsDuration).2.seriesOrder =
      (ads.order.setup pktLen type txPower txRate0 txTries0 keyIx flags rtsctsRate
        rtsctsDuration).series := by
  have hwide : (arXmitRate 0).Wide 8 := by decide
  have hcut : (arXmitRate 0).cut txRate0 = txRate0 := hwide.cut_of_lt hrate
  have hchain : ∀ i, (arChainSel i).cut ar5416LegacyChainmask = ar5416LegacyChainmask := by decide
  funext i
  simp only [setupTxDesc, TxOrder.setup, hwide.put_of_lt hrate]
  by_cases hprot : on flags (halTxdescRtsena ||| halTxdescCtsena) = true <;>
    by_cases hvalid : isValidTxRate rtsctsRate = true <;>
    by_cases hkey : keyIx = halTxkeyixInvalid <;> fin_cases i <;>
    simp (disch := decide) [Ar5416Desc.order, Ar5416Desc.seriesOrder, Ar5416Desc.durWord, asks,
      hprot, hvalid, hkey, hcut, hchain]

theorem order_setupTxDesc (pktLen txPower txTries0 keyIx flags rtsctsRate rtsctsDuration : Word)
    {type txRate0 : Word} (htype : type.toNat < 2 ^ 4) (hrate : txRate0.toNat < 2 ^ 8) :
    (setupTxDesc ads pktLen type txPower txRate0 txTries0 keyIx flags rtsctsRate
        rtsctsDuration).2.order =
      ads.order.setup pktLen type txPower txRate0 txTries0 keyIx flags rtsctsRate
        rtsctsDuration := by
  have hwide : arFrameType.Wide 4 := by decide
  have hcut : arFrameType.cut type = type := hwide.cut_of_lt htype
  rw [Ar5416Desc.order, seriesOrder_setupTxDesc ads pktLen type txPower txTries0 keyIx flags
    rtsctsRate rtsctsDuration hrate]
  simp only [setupTxDesc, TxOrder.setup, hwide.put_of_lt htype, power_in_place]
  by_cases hprot : on flags (halTxdescRtsena ||| halTxdescCtsena) = true <;>
    by_cases hvalid : isValidTxRate rtsctsRate = true <;>
    by_cases hkey : keyIx = halTxkeyixInvalid <;>
    simp (disch := decide) [Ar5416Desc.order, asks, hprot, hvalid, hkey, hcut, cut_xmitPower,
      get_of_disjoint, on_of_disjoint, on_of_meets]

/-- Each call does to the reading of the hardware what it asks for. -/
theorem HalCall.order_run {call : HalCall} (hfits : call.Fits) :
    (call.run ads).order = call.order ads.order := by
  cases call with
  | setupTxDesc pktLen type txPower txRate0 txTries0 keyIx flags rtsctsRate rtsctsDuration =>
      exact order_setupTxDesc ads pktLen txPower txTries0 keyIx flags rtsctsRate rtsctsDuration
        hfits.1 hfits.2
  | fillTxDesc segLen firstSeg lastSeg ds0 =>
      exact order_fillTxDesc ads firstSeg lastSeg ds0 hfits
  | fillKeyTxDesc keyType => exact order_fillKeyTxDesc ads keyType
  | set11nTxDesc pktLen type txPower keyIx keyType flags =>
      exact order_set11nTxDesc ads pktLen type txPower keyIx keyType flags
  | set11nRateScenario durUpdateEn rtsctsRate series flags =>
      exact order_set11nRateScenario ads durUpdateEn rtsctsRate series flags
  | set11nAggrFirst aggrLen numDelims => exact order_set11nAggrFirst ads aggrLen numDelims
  | set11nAggrMiddle numDelims => exact order_set11nAggrMiddle ads numDelims
  | set11nAggrLast => exact order_set11nAggrLast ads
  | clr11nAggr => exact order_clr11nAggr ads
  | set11nBurstDuration burstDuration => exact order_set11nBurstDuration ads burstDuration
  | set11nVirtualMoreFrag vmf => exact order_set11nVirtualMoreFrag ads vmf

end

def runCalls (calls : List HalCall) (d : Ar5416Desc) : Ar5416Desc := calls.foldl HalCall.run d

def orderCalls (calls : List HalCall) (o : TxOrder) : TxOrder := calls.foldl HalCall.order o

/-- The hardware reads what the calls asked for, one after the other. -/
theorem order_runCalls {calls : List HalCall} (hfits : ∀ call ∈ calls, call.Fits) (d : Ar5416Desc) :
    (runCalls calls d).order = orderCalls calls d.order := by
  induction calls generalizing d with
  | nil => rfl
  | cons call calls ih =>
      have hcall := HalCall.order_run d (hfits call List.mem_cons_self)
      have hrest := ih (fun c hc => hfits c (List.mem_cons_of_mem _ hc)) (call.run d)
      rw [hcall] at hrest
      exact hrest

end Ath9kHtc.Tx
