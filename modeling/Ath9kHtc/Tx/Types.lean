import Ath9kHtc.Htc.Types
import Ath9kHtc.Lib.Chain
import Ath9kHtc.Lib.SlidingWindow

/-!
# Transmit path data model

The structures of `if_athvar.h` that `if_owl.c` works on.  Transmit buffers, their
descriptors and host buffers live in heaps and are named by their index; a `TAILQ` is the
list of its elements.  What leaves the transmit path is kept in a log.
-/

namespace Ath9kHtc.Tx

/-- An `ath_tx_buf`, and the one descriptor (`ATH_TXDESC`) that belongs to it. -/
abbrev BufId := ℕ

/-- A host buffer: the host's frames are numbered as they arrive. -/
abbrev SkbId := ℕ

/-- `TARGET_NODE_MAX` stations. -/
abbrev NodeId := Fin 8

/-- `WME_NUM_TID` traffic identifiers of a station. -/
abbrev TidNo := Fin 8

abbrev TidId := NodeId × TidNo

/-- `HAL_NUM_TX_QUEUES` hardware queues. -/
abbrev QueueId := Fin 10

abbrev EndpointId := Htc.EndpointId

instance neZeroSeries : NeZero 4 := ⟨by decide⟩

instance neZeroTids : NeZero 8 := ⟨by decide⟩

instance neZeroQueues : NeZero 10 := ⟨by decide⟩

instance neZeroSeqs : NeZero 4096 := ⟨by decide⟩

def ieee80211SeqMax : ℕ := 4096
def wmeMaxBa : ℕ := 64
def athTidMaxBufs : ℕ := 128
def owlmaxRetries : ℕ := 10
def owlmaxBarRetries : ℕ := 10
def athTxmaxtry : ℕ := 11
def athAggrMinQdepth : ℕ := 1
def htcMaxTxStatus : ℕ := 12
def ieee80211AmpduLimitMax : ℕ := 64 * 1024 - 1

-- ds_txstat.ts_status
def halTxerrXretry : BitVec 8 := 0x01
def halTxerrFilt : BitVec 8 := 0x02
def halTxerrFifo : BitVec 8 := 0x04
def halTxerrTimerExpired : BitVec 8 := 0x10

-- ds_txstat.ts_flags
def halTxBa : BitVec 8 := 0x01
def halTxSwFiltered : BitVec 8 := 0x80

-- flags of a rate series
def athRcCw40Flag : BitVec 16 := 0x02
def athRcHt40SgiFlag : BitVec 16 := 0x04
def athRcRtsctsFlag : BitVec 16 := 0x10

-- ts_flags of a TXSTATUS entry
def ath9kHtcTxstatAck : BitVec 8 := 0x01
def ath9kHtcTxstatFilt : BitVec 8 := 0x02
def ath9kHtcTxstatRtcCts : BitVec 8 := 0x04
def ath9kHtcTxstatMcs : BitVec 8 := 0x08
def ath9kHtcTxstatCw40 : BitVec 8 := 0x10
def ath9kHtcTxstatSgi : BitVec 8 := 0x20

/-- `HAL_KEY_TYPE`; the host can send any byte. -/
inductive KeyType
  | clear | wep | aes | tkip | wapi | other
  deriving DecidableEq, Repr

/-- The completion functions `bf_comp` can point to. -/
inductive Comp
  | normal | aggr | bar
  deriving DecidableEq, Repr

/-- `ATH_AGGR_STATUS` -/
inductive AggrStatus
  | done | bawClosed | limited
  deriving DecidableEq, Repr

/-- `owl_txq_state_t` -/
inductive TxqState
  | active | stopped | filtered
  deriving DecidableEq, Repr

structure RcSeries where
  rix : ℕ := 0
  tries : ℕ := 0
  flags : BitVec 16 := 0
  max4msframelen : ℕ := 0
  deriving DecidableEq, Repr

/-- What the rate control answers to `ath_rate_findrate`. -/
structure RateAnswer where
  series : Fin 4 → RcSeries
  isProbe : Bool

/-- `ds_txstat`, as `ah_procTxDesc` fills it in. -/
structure TxStat where
  tsStatus : BitVec 8 := 0
  tsFlags : BitVec 8 := 0
  tsSeqnum : Fin 4096 := 0
  ba : BitVec 64 := 0
  tsRate : Fin 4 := 0
  deriving DecidableEq, Repr

structure TxDesc where
  dsLink : Option BufId := none
  dsTxstat : TxStat := {}
  deriving DecidableEq, Repr

/-- `ath_buf_state` -/
structure BufState where
  bfComp : Option Comp := none
  bfPktlen : ℕ := 0
  bfSeqno : ℕ := 0
  bfNdelim : ℕ := 0
  bfNframes : ℕ := 0
  bfTidno : TidNo := 0
  bfAl : ℕ := 0
  bfRcs : Fin 4 → RcSeries := fun _ => {}
  bfTxq : QueueId := 0
  bfKeytype : KeyType := .clear
  bfRetries : ℕ := 0
  bfIsmcast : Bool := false
  bfIsaggr : Bool := false
  bfIsretried : Bool := false

/-- `ath_tx_buf`; `bfLastds` is the buffer whose descriptor `bf_lastds` points to. -/
structure TxBuf extends BufState where
  bfNode : Option NodeId := none
  bfSkbhead : List SkbId := []
  bfSkb : Option SkbId := none
  bfNext : Option BufId := none
  bfLastds : BufId
  bfEndpt : EndpointId := 0
  bfCookie : BitVec 8 := 0
  vapIndex : ℕ := 0

/-- A network buffer of the host: its length and its bytes from the 802.11 header on. -/
structure Nbuf where
  len : ℕ
  byte : ℕ → BitVec 8

/-- A sequence number given to a frame of the host. -/
structure Issue where
  seq : ℕ
  skb : SkbId
  moreFrag : Bool
  deriving DecidableEq, Repr

/-- `ath_atx_tid`, with a log of the numbers issued and of the frames handed to the hardware
since the last `owl_tgt_tid_init`, the latest first. -/
structure Tid where
  seqStart : ℕ := 0
  seqNext : ℕ := 0
  bawSize : ℕ := 0
  bawHead : ℕ := 0
  bawTail : ℕ := 0
  txBufBitmap : ℕ → Bool := fun _ => false
  bufQ : List BufId := []
  paused : Bool := false
  sched : Bool := false
  cleanupInprogres : Bool := false
  aggrEnabled : Bool := false
  reinitializeFlag : Bool := false
  incomp : Int := 0
  issued : List Issue := []
  handed : List SkbId := []

/-- `ath_txq` -/
structure Txq where
  axqQ : List BufId := []
  axqDepth : ℕ := 0
  axqLink : Option BufId := none
  axqTidq : List TidId := []

/-- `__WMI_TXSTATUS_EVENT` -/
structure TxStatusEntry where
  cookie : BitVec 8 := 0
  tsRate : BitVec 8 := 0
  tsFlags : BitVec 8 := 0
  deriving DecidableEq, Repr

/-- `WMI_TXSTATUS_EVENT` -/
structure TxStatusEvent where
  cnt : ℕ := 0
  txstatus : ℕ → TxStatusEntry := fun _ => {}

/-- What leaves the transmit path. -/
inductive Output
  | returnBuffers (endpt : EndpointId) (skb : SkbId)
  | txstatus (entries : List TxStatusEntry)
  | delba (node : NodeId) (tidno : TidNo)
  | rateTxComplete (node : NodeId) (nframes nbad : ℕ)
  deriving DecidableEq, Repr

/-- What differs between platforms and what the rate tables say. -/
structure Config where
  /-- `ATH_TXBUF + 1` -/
  txBufs : ℕ
  /-- the bound on subframes of `ath_tgt_tx_form_aggr`: 17 on K2, else 22 -/
  maxAggrFrames : ℕ
  /-- whether a rate of `sc_currates` has the HT phy -/
  phyHt : ℕ → Bool
  rateCode : ℕ → BitVec 8
  dot11Rate : ℕ → BitVec 8
  /-- `ath_get_minrateidx` of the interface with an index -/
  minrateidx : ℕ → ℕ

/-- The part of `ath_softc_tgt` the transmit path works on. -/
structure TxState where
  cfg : Config
  buf : BufId → TxBuf
  ds : BufId → TxDesc
  nbuf : SkbId → Nbuf
  scTxbuf : List BufId
  scTxbufHeld : Option BufId
  tid : TidId → Tid
  txq : QueueId → Txq
  niMaxampdu : NodeId → ℕ
  icAmpduLimit : ℕ
  icEnableCoex : Bool
  scTxDraining : Bool
  txStatus : Fin 2 → TxStatusEvent
  /-- the answers the rate control will give, and how many it has given -/
  rateAnswers : ℕ → RateAnswer
  rateCalls : ℕ
  out : List Output

namespace TxState

def setBuf (s : TxState) (bf : BufId) (x : TxBuf) : TxState :=
  { s with buf := Function.update s.buf bf x }

def modBuf (s : TxState) (bf : BufId) (f : TxBuf → TxBuf) : TxState :=
  s.setBuf bf (f (s.buf bf))

def modDs (s : TxState) (bf : BufId) (f : TxDesc → TxDesc) : TxState :=
  { s with ds := Function.update s.ds bf (f (s.ds bf)) }

def modNbuf (s : TxState) (skb : SkbId) (f : Nbuf → Nbuf) : TxState :=
  { s with nbuf := Function.update s.nbuf skb (f (s.nbuf skb)) }

def modTid (s : TxState) (k : TidId) (f : Tid → Tid) : TxState :=
  { s with tid := Function.update s.tid k (f (s.tid k)) }

def modTxq (s : TxState) (q : QueueId) (f : Txq → Txq) : TxState :=
  { s with txq := Function.update s.txq q (f (s.txq q)) }

def emit (s : TxState) (o : Output) : TxState :=
  { s with out := o :: s.out }

/-- `ATH_AN_2_TID(bf->bf_node, bf->bf_tidno)`; there is none without a node. -/
def tidOf (s : TxState) (bf : BufId) : Option TidId :=
  (s.buf bf).bfNode.map fun ni => (ni, (s.buf bf).bfTidno)

/-- A buffer and its `bf_next` subframes. -/
def subframes (s : TxState) (bf : BufId) : List BufId :=
  walk (fun b => (s.buf b).bfNext) s.cfg.txBufs (some bf)

end TxState

/-- `TID_TO_ACTXQ`: the hardware queue of a TID's access category. -/
def tidToActxq (tidno : TidNo) : QueueId :=
  if tidno = 0 ∨ tidno = 3 then 0
  else if tidno = 1 ∨ tidno = 2 then 1
  else if tidno = 4 ∨ tidno = 5 then 2
  else 3

/-- `SEQNO_FROM_BF_SEQNO` -/
def seqnoFromBfSeqno (seqno : ℕ) : ℕ := seqno / 16

/-- `BAW_WITHIN`; both numbers are below `IEEE80211_SEQ_MAX`. -/
def bawWithin (start bawsz seqno : ℕ) : Bool :=
  decide ((seqno + 4096 - start) % 4096 < bawsz)

end Ath9kHtc.Tx
