import Ath9kHtc.Lib.BitField
import Ath9kHtc.Tx.Types

/-!
# Transmit descriptors

The words of a transmit descriptor (`ar5416desc.h`) and the calls of the hardware layer that write
them (`ar5416_hw.c`).  The assertions of these calls are compiled out.
-/

namespace Ath9kHtc.Tx

open BitField

abbrev Word := BitVec 32

/-- `ar5416_desc_20` as a transmit descriptor; no call writes the control words from 8 on. -/
@[ext]
structure Ar5416Desc where
  dsLink : Word := 0
  dsData : Word := 0
  dsCtl0 : Word := 0
  dsCtl1 : Word := 0
  dsCtl2 : Word := 0
  dsCtl3 : Word := 0
  dsCtl4 : Word := 0
  dsCtl5 : Word := 0
  dsCtl6 : Word := 0
  dsCtl7 : Word := 0
  dsTxstatus0 : Word := 0
  dsTxstatus1 : Word := 0
  dsTxstatus2 : Word := 0
  dsTxstatus3 : Word := 0
  dsTxstatus4 : Word := 0
  dsTxstatus5 : Word := 0
  dsTxstatus6 : Word := 0
  dsTxstatus7 : Word := 0
  dsTxstatus9 : Word := 0
  deriving DecidableEq

/-! ## Fields of the control words -/

-- ds_ctl0
def arFrameLen : Field 32 := ⟨0x00000fff, 0⟩
def arVirtMoreFrag : Word := 0x00001000
def arXmitPower : Field 32 := ⟨0x003f0000, 16⟩
def arRTSEnable : Word := 0x00400000
def arVEOL : Word := 0x00800000
def arClrDestMask : Word := 0x01000000
def arTxIntrReq : Word := 0x20000000
def arDestIdxValid : Word := 0x40000000
def arCTSEnable : Word := 0x80000000

-- ds_ctl1
def arBufLen : Field 32 := ⟨0x00000fff, 0⟩
def arTxMore : Word := 0x00001000
def arDestIdx : Field 32 := ⟨0x000fe000, 13⟩
def arFrameType : Field 32 := ⟨0x00f00000, 20⟩
def arNoAck : Word := 0x01000000
def arExtOnly : Word := 0x08000000
def arExtAndCtl : Word := 0x10000000
def arMoreAggr : Word := 0x20000000
def arIsAggr : Word := 0x40000000

-- ds_ctl2
def arBurstDur : Field 32 := ⟨0x00007fff, 0⟩
def arDurUpdateEn : Word := 0x00008000

def arXmitDataTries : Fin 4 → Field 32
  | 0 => ⟨0x000f0000, 16⟩
  | 1 => ⟨0x00f00000, 20⟩
  | 2 => ⟨0x0f000000, 24⟩
  | 3 => ⟨0xf0000000, 28⟩

-- ds_ctl3
def arXmitRate : Fin 4 → Field 32
  | 0 => ⟨0x000000ff, 0⟩
  | 1 => ⟨0x0000ff00, 8⟩
  | 2 => ⟨0x00ff0000, 16⟩
  | 3 => ⟨0xff000000, 24⟩

-- ds_ctl4 for the series 0 and 1, ds_ctl5 for 2 and 3
def arPacketDur : Fin 4 → Field 32
  | 0 => ⟨0x00007fff, 0⟩
  | 1 => ⟨0x7fff0000, 16⟩
  | 2 => ⟨0x00007fff, 0⟩
  | 3 => ⟨0x7fff0000, 16⟩

def arRTSCTSQual : Fin 4 → Word
  | 0 => 0x00008000
  | 1 => 0x80000000
  | 2 => 0x00008000
  | 3 => 0x80000000

-- ds_ctl6
def arAggrLen : Field 32 := ⟨0x0000ffff, 0⟩
def arPadDelim : Field 32 := ⟨0x03fc0000, 18⟩
def arEncrType : Field 32 := ⟨0x1c000000, 26⟩

-- ds_ctl7
def ar2040 : Fin 4 → Word
  | 0 => 0x00000001
  | 1 => 0x00000020
  | 2 => 0x00000400
  | 3 => 0x00008000

def arGI : Fin 4 → Word
  | 0 => 0x00000002
  | 1 => 0x00000040
  | 2 => 0x00000800
  | 3 => 0x00010000

def arChainSel : Fin 4 → Field 32
  | 0 => ⟨0x0000001c, 2⟩
  | 1 => ⟨0x00000380, 7⟩
  | 2 => ⟨0x00007000, 12⟩
  | 3 => ⟨0x000e0000, 17⟩

def arSTBC : Fin 4 → Word
  | 0 => 0x10000000
  | 1 => 0x20000000
  | 2 => 0x40000000
  | 3 => 0x80000000

def arRTSCTSRate : Field 32 := ⟨0x0ff00000, 20⟩

-- ds_status9
def arTxDone : Word := 0x00000001

/-! ## What the calls are given -/

-- HAL_TXDESC flags
def halTxdescClrdmask : Word := 0x0001
def halTxdescNoack : Word := 0x0002
def halTxdescRtsena : Word := 0x0004
def halTxdescCtsena : Word := 0x0008
def halTxdescIntreq : Word := 0x0010
def halTxdescVeol : Word := 0x0020
def halTxdescExtOnly : Word := 0x0040
def halTxdescExtAndCtl : Word := 0x0080
def halTxdescVmf : Word := 0x0100

-- HAL_RATESERIES flags
def halRateseriesRtsCts : Word := 0x0001
def halRateseries2040 : Word := 0x0002
def halRateseriesHalfgi : Word := 0x0004
def halRateseriesStbc : Word := 0x0008

-- HAL_PKT_TYPE
def halPktTypeNormal : Word := 0
def halPktTypeAtim : Word := 1
def halPktTypeBeacon : Word := 3
def halPktTypeProbeResp : Word := 4

def halTxkeyixInvalid : Word := 0xff

def ar5416LegacyChainmask : Word := 1

def validTxRates : Word := 0x7f00ff00

/-- `isValidTxRate` -/
def isValidTxRate (r : Word) : Bool := on (1 <<< r.toNat) validTxRates

/-- `HAL_11N_RATE_SERIES` -/
structure Hal11nRateSeries where
  tries : Word := 0
  rate : Word := 0
  pktDuration : Word := 0
  chSel : Word := 0
  rateFlags : Word := 0
  deriving DecidableEq

/-! ## The calls -/

/-- The condition in front of a flag in `c ? flag : 0`, where `c` asks for a bit of `flags`. -/
abbrev asks (flags m : Word) : Prop := on flags m = true

/-- `ar5416SetupTxDesc_20`, without its header length, which it does not use. -/
def setupTxDesc (ads : Ar5416Desc) (pktLen type txPower txRate0 txTries0 keyIx flags rtsctsRate
    rtsctsDuration : Word) : Bool × Ar5416Desc :=
  let ads := { ads with dsTxstatus9 := ads.dsTxstatus9 &&& ~~~arTxDone }
  let txPower := if 63#32 < txPower then 63#32 else txPower
  let ads := { ads with
    dsCtl0 := pktLen &&& arFrameLen.mask
      ||| txPower <<< arXmitPower.shift
      ||| flag (asks flags halTxdescVeol) arVEOL
      ||| flag (asks flags halTxdescClrdmask) arClrDestMask
      ||| flag (asks flags halTxdescIntreq) arTxIntrReq
    dsCtl1 := type <<< arFrameType.shift ||| flag (asks flags halTxdescNoack) arNoAck
    dsCtl2 := put txTries0 (arXmitDataTries 0)
    dsCtl3 := txRate0 <<< (arXmitRate 0).shift
    dsCtl7 := put ar5416LegacyChainmask (arChainSel 0) ||| put ar5416LegacyChainmask (arChainSel 1)
      ||| put ar5416LegacyChainmask (arChainSel 2) ||| put ar5416LegacyChainmask (arChainSel 3) }
  let ads :=
    if keyIx ≠ halTxkeyixInvalid then
      { ads with
        dsCtl1 := ads.dsCtl1 ||| put keyIx arDestIdx
        dsCtl0 := ads.dsCtl0 ||| arDestIdxValid }
    else ads
  if asks flags (halTxdescRtsena ||| halTxdescCtsena) then
    if isValidTxRate rtsctsRate then
      (true, { ads with
        dsCtl0 := ads.dsCtl0 ||| (flag (asks flags halTxdescCtsena) arCTSEnable
          ||| flag (asks flags halTxdescRtsena) arRTSEnable)
        dsCtl2 := ads.dsCtl2 ||| put rtsctsDuration arBurstDur
        -- the rate has its field in ds_ctl7
        dsCtl3 := ads.dsCtl3 ||| rtsctsRate <<< arRTSCTSRate.shift })
    else (false, ads)
  else (true, ads)

/-- `ar5416FillTxDesc_20`; `ds0` is the first descriptor of the frame. -/
def fillTxDesc (ads : Ar5416Desc) (segLen : Word) (firstSeg lastSeg : Bool) (ds0 : Ar5416Desc) :
    Ar5416Desc :=
  let ads :=
    if firstSeg then
      { ads with dsCtl1 := ads.dsCtl1 ||| (segLen ||| flag (lastSeg = false) arTxMore) }
    else if lastSeg then
      { ads with dsCtl0 := 0, dsCtl1 := segLen, dsCtl2 := ds0.dsCtl2, dsCtl3 := ds0.dsCtl3 }
    else
      { ads with dsCtl0 := 0, dsCtl1 := segLen ||| arTxMore, dsCtl2 := 0, dsCtl3 := 0 }
  { ads with dsTxstatus0 := 0, dsTxstatus1 := 0 }

/-- `ar5416FillKeyTxDesc_20` -/
def fillKeyTxDesc (ads : Ar5416Desc) (keyType : Word) : Ar5416Desc :=
  { ads with dsCtl6 := put keyType arEncrType }

/-- `ar5416Set11nTxDesc_20` -/
def set11nTxDesc (ads : Ar5416Desc) (pktLen type txPower keyIx keyType flags : Word) :
    Ar5416Desc :=
  let txPower := if 63#32 < txPower then 63#32 else txPower
  { ads with
    dsCtl0 := pktLen &&& arFrameLen.mask
      ||| flag (asks flags halTxdescVmf) arVirtMoreFrag
      ||| put txPower arXmitPower
      ||| flag (asks flags halTxdescRtsena) arRTSEnable
      ||| flag (asks flags halTxdescVeol) arVEOL
      ||| flag (asks flags halTxdescClrdmask) arClrDestMask
      ||| flag (asks flags halTxdescIntreq) arTxIntrReq
      ||| flag (keyIx ≠ halTxkeyixInvalid) arDestIdxValid
      ||| flag (asks flags halTxdescCtsena) arCTSEnable
    dsCtl1 := (if keyIx ≠ halTxkeyixInvalid then put keyIx arDestIdx else 0)
      ||| put type arFrameType
      ||| flag (asks flags halTxdescNoack) arNoAck
      ||| flag (asks flags halTxdescExtOnly) arExtOnly
      ||| flag (asks flags halTxdescExtAndCtl) arExtAndCtl
    dsCtl6 := put keyType arEncrType }

/-- `set11nTries` -/
def set11nTries (series : Fin 4 → Hal11nRateSeries) (index : Fin 4) : Word :=
  put (series index).tries (arXmitDataTries index)

/-- `set11nRate` -/
def set11nRate (series : Fin 4 → Hal11nRateSeries) (index : Fin 4) : Word :=
  put (series index).rate (arXmitRate index)

/-- `set11nPktDurRTSCTS` -/
def set11nPktDurRTSCTS (series : Fin 4 → Hal11nRateSeries) (index : Fin 4) : Word :=
  put (series index).pktDuration (arPacketDur index)
    ||| flag (asks (series index).rateFlags halRateseriesRtsCts) (arRTSCTSQual index)

/-- `set11nRateFlags` -/
def set11nRateFlags (series : Fin 4 → Hal11nRateSeries) (index : Fin 4) : Word :=
  flag (asks (series index).rateFlags halRateseries2040) (ar2040 index)
    ||| flag (asks (series index).rateFlags halRateseriesHalfgi) (arGI index)
    ||| flag (asks (series index).rateFlags halRateseriesStbc) (arSTBC index)
    ||| put (series index).chSel (arChainSel index)

/-- `ar5416Set11nRateScenario_20` -/
def set11nRateScenario (ads : Ar5416Desc) (durUpdateEn : Bool) (rtsctsRate : Word)
    (series : Fin 4 → Hal11nRateSeries) (flags : Word) : Ar5416Desc :=
  { ads with
    dsCtl0 :=
      if asks flags (halTxdescRtsena ||| halTxdescCtsena) then
        if asks flags halTxdescRtsena then ads.dsCtl0 &&& ~~~arCTSEnable ||| arRTSEnable
        else ads.dsCtl0 &&& ~~~arRTSEnable ||| arCTSEnable
      else ads.dsCtl0 &&& ~~~(arRTSEnable ||| arCTSEnable)
    dsCtl2 := set11nTries series 0 ||| set11nTries series 1 ||| set11nTries series 2
      ||| set11nTries series 3 ||| flag (durUpdateEn = true) arDurUpdateEn
    dsCtl3 := set11nRate series 0 ||| set11nRate series 1 ||| set11nRate series 2
      ||| set11nRate series 3
    dsCtl4 := set11nPktDurRTSCTS series 0 ||| set11nPktDurRTSCTS series 1
    dsCtl5 := set11nPktDurRTSCTS series 2 ||| set11nPktDurRTSCTS series 3
    dsCtl7 := set11nRateFlags series 0 ||| set11nRateFlags series 1 ||| set11nRateFlags series 2
      ||| set11nRateFlags series 3 ||| put rtsctsRate arRTSCTSRate }

/-- `ar5416Set11nAggrFirst_20` -/
def set11nAggrFirst (ads : Ar5416Desc) (aggrLen numDelims : Word) : Ar5416Desc :=
  { ads with
    dsCtl1 := ads.dsCtl1 ||| (arIsAggr ||| arMoreAggr)
    dsCtl6 := ads.dsCtl6 &&& ~~~(arAggrLen.mask ||| arPadDelim.mask)
      ||| (put aggrLen arAggrLen ||| put numDelims arPadDelim) }

/-- `ar5416Set11nAggrMiddle_20` -/
def set11nAggrMiddle (ads : Ar5416Desc) (numDelims : Word) : Ar5416Desc :=
  { ads with
    dsCtl1 := ads.dsCtl1 ||| (arIsAggr ||| arMoreAggr)
    dsCtl6 := ads.dsCtl6 &&& ~~~arPadDelim.mask ||| put numDelims arPadDelim }

/-- `ar5416Set11nAggrLast_20` -/
def set11nAggrLast (ads : Ar5416Desc) : Ar5416Desc :=
  { ads with
    dsCtl1 := (ads.dsCtl1 ||| arIsAggr) &&& ~~~arMoreAggr
    dsCtl6 := ads.dsCtl6 &&& ~~~arPadDelim.mask }

/-- `ar5416Clr11nAggr_20` -/
def clr11nAggr (ads : Ar5416Desc) : Ar5416Desc :=
  { ads with dsCtl1 := ads.dsCtl1 &&& (~~~arIsAggr &&& ~~~arMoreAggr) }

/-- `ar5416Set11nBurstDuration_20` -/
def set11nBurstDuration (ads : Ar5416Desc) (burstDuration : Word) : Ar5416Desc :=
  { ads with dsCtl2 := ads.dsCtl2 &&& ~~~arBurstDur.mask ||| put burstDuration arBurstDur }

/-- `ar5416Set11nVirtualMoreFrag_20` -/
def set11nVirtualMoreFrag (ads : Ar5416Desc) (vmf : Bool) : Ar5416Desc :=
  { ads with
    dsCtl0 := if vmf then ads.dsCtl0 ||| arVirtMoreFrag else ads.dsCtl0 &&& ~~~arVirtMoreFrag }

end Ath9kHtc.Tx
