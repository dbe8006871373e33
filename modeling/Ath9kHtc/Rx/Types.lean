import Mathlib.Data.List.Basic
import Mathlib.Logic.Function.Basic

/-!
# Receive path data model

The descriptors, buffers and frame records of the receive path of `if_ath.c`.  A `TAILQ` is
the list of its elements, a physical address is the descriptor or buffer it belongs to.
-/

namespace Ath9kHtc.Rx

/-- An `ath_rx_desc`. -/
abbrev DescId := ℕ

/-- A buffer of the pool `POOL_ID_WLAN_RX_BUF`. -/
abbrev BufId := ℕ

abbrev Byte := BitVec 8

/-- `ath_numrxdescs` and `ath_numrxbufs`; every platform has at least eleven of each. -/
structure Config where
  numrxdescs : ℕ
  numrxbufs : ℕ
  two_le_descs : 2 ≤ numrxdescs
  three_le_bufs : 3 ≤ numrxbufs

/-- `ath_rx_desc` with the words the hardware writes; `dsData` is the buffer it writes to. -/
structure RxDesc where
  dsLink : Option DescId := none
  dsNbuf : Option BufId := none
  dsData : Option BufId := none
  rxDone : Bool := false
  dataLen : ℕ := 0
  rxMore : Bool := false

/-- The memory of a buffer, and how much of it is data. -/
structure Nbuf where
  len : ℕ := 0
  mem : List Byte := []

/-- `ath_rx_buf`: a frame record with its `ATH_BUFSTATUS_DONE`, its frame as the chain of its
buffers, and the fields of `bf_rx_status` that are read. -/
structure RxBuf where
  done : Bool := false
  bfSkb : Option (List BufId) := none
  rsDatalen : ℕ := 0
  rsMore : Bool := false

/-- What the hardware receives into one descriptor. -/
structure Segment where
  bytes : List Byte
  more : Bool
  deriving DecidableEq, Repr

/-- A frame handed to the host: its data and its `rs_datalen`. -/
structure Handed where
  data : List Byte
  rsDatalen : ℕ
  deriving DecidableEq, Repr

/-- The part of `ath_softc_tgt` the receive path works on, the hardware's receive pointer, and a
log of what the hardware received and of what the host was given, the earliest first. -/
structure RxState where
  cfg : Config
  desc : DescId → RxDesc
  nbuf : BufId → Nbuf
  scRxdesc : List DescId
  scRxdescIdle : List DescId
  scRxdescHeld : Option DescId
  /-- the descriptor whose `ds_link` is at `sc_rxlink` -/
  scRxlink : Option DescId
  pool : List BufId
  scRxbuf : List RxBuf
  inTransfer : List (List BufId)
  rxdp : Option DescId
  rxEnabled : Bool
  received : List Segment
  handed : List Handed

namespace RxState

def modDesc (s : RxState) (ds : DescId) (f : RxDesc → RxDesc) : RxState :=
  { s with desc := Function.update s.desc ds (f (s.desc ds)) }

def modNbuf (s : RxState) (b : BufId) (f : Nbuf → Nbuf) : RxState :=
  { s with nbuf := Function.update s.nbuf b (f (s.nbuf b)) }

/-- `asf_tailq_next` on `sc_rxdesc`. -/
def next (s : RxState) (ds : DescId) : Option DescId :=
  (s.scRxdesc.dropWhile (· ≠ ds)).tail.head?

/-- The data of a frame. -/
def frameData (s : RxState) (skb : List BufId) : List Byte :=
  skb.flatMap fun b => (s.nbuf b).mem.take (s.nbuf b).len

end RxState

end Ath9kHtc.Rx
