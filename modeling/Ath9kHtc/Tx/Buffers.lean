import Ath9kHtc.Tx.Window

/-!
# Buffers and transmit status

How `if_owl.c` fills, swaps and frees transmit buffers, and how it reports the outcome of a
frame to the host.  A function that can dereference a null pointer or fail an assertion is
partial.
-/

namespace Ath9kHtc.Tx

/-- `ath_filltxdesc`: a frame has one segment. -/
def athFilltxdesc (s : TxState) (bf : BufId) : TxState :=
  (s.modDs bf fun ds => { ds with dsLink := none }).modBuf bf fun b => { b with bfLastds := bf }

/-- The move of a frame from `bf` to the held buffer in `ath_buf_toggle`. -/
def toggleMove (s : TxState) (bf tmp : BufId) : Option TxState :=
  let s := s.modBuf tmp fun b => { b with bfSkbhead := [] }
  match (s.buf bf).bfSkbhead with
  | [buf] =>
    let old := s.buf bf
    let s := s.modBuf tmp fun b =>
      { b with
        toBufState := old.toBufState
        bfSkbhead := [buf]
        bfNext := old.bfNext
        bfEndpt := old.bfEndpt
        bfSkb := old.bfSkb
        bfNode := old.bfNode
        bfCookie := old.bfCookie }
    let s := s.modBuf bf fun b =>
      { b with
        bfSkbhead := []
        bfIsaggr := false
        bfNext := none
        bfSkb := none
        bfNode := none
        bfComp := none
        bfRetries := 0
        bfNframes := 0 }
    some (athFilltxdesc s tmp)
  | _ => none

/-- `ath_buf_toggle`: the buffer to go on with, `bf` being held from now on. -/
def athBufToggle (s : TxState) (bf : BufId) (retry : Bool) : Option (BufId × TxState) :=
  match s.scTxbufHeld with
  | none => none
  | some tmp =>
    if retry then
      (toggleMove s bf tmp).map fun s => (tmp, { s with scTxbufHeld := some bf })
    else some (tmp, { s with scTxbufHeld := some bf })

/-- `ath_tgt_skb_free` of the buffer's queue. -/
def athTgtSkbFree (s : TxState) (bf : BufId) : TxState :=
  let s := { s with
    out := ((s.buf bf).bfSkbhead.map (Output.returnBuffers (s.buf bf).bfEndpt)).reverse ++ s.out }
  s.modBuf bf fun b => { b with bfSkbhead := [] }

def scTxbufInsertTail (s : TxState) (bf : BufId) : TxState :=
  { s with scTxbuf := s.scTxbuf ++ [bf] }

def athBufComp (s : TxState) (bf : BufId) : Option TxState :=
  let s := (athTgtSkbFree s bf).modBuf bf fun b => { b with bfSkb := none, bfNode := none }
  (athBufToggle s bf false).map fun (bf, s) => scTxbufInsertTail s bf

def athTxFreebuf (s : TxState) (bf : BufId) : Option TxState :=
  let s := (athTgtSkbFree s bf).modBuf bf fun b =>
    { b with bfSkb := none, bfComp := none, bfNode := none, bfNext := none }
  (athBufToggle s bf false).map fun (bf, s) =>
    scTxbufInsertTail (s.modBuf bf fun b => { b with bfRetries := 0, bfIsretried := false }) bf

/-- `ath_tx_buf_alloc`; an empty list fails the assertion. -/
def athTxBufAlloc (s : TxState) : Option (BufId × TxState) :=
  match s.scTxbuf with
  | [] => none
  | bf :: rest =>
    some (bf, ({ s with scTxbuf := rest } : TxState).modBuf bf fun b =>
      { b with toBufState := ({} : BufState) })

/-- `ath_tx_set_retry` -/
def athTxSetRetry (s : TxState) (bf : BufId) : Option TxState :=
  (s.buf bf).bfSkb.map fun skb =>
    (s.modBuf bf fun b =>
      { b with bfIsretried := true, bfRetries := (b.bfRetries + 1) % 256 }).modNbuf skb fun n =>
        { n with byte := Function.update n.byte 1 (n.byte 1 ||| 0x08) }

/-! ## Transmit status -/

def athTxStatusClear (s : TxState) : TxState :=
  { s with txStatus := fun i => { s.txStatus i with cnt := 0 } }

/-- `ath_tx_status_get` -/
def athTxStatusGet (s : TxState) : Option (Fin 2) :=
  if (s.txStatus 0).cnt < htcMaxTxStatus then some 0
  else if (s.txStatus 1).cnt < htcMaxTxStatus then some 1
  else none

/-- `SM(bf->bf_endpt, ATH9K_HTC_TXSTAT_EPID)` -/
def txstatEpid (endpt : EndpointId) : BitVec 8 :=
  (BitVec.ofNat 8 endpt <<< 4) &&& 0xf0

/-- `ath_tx_status_update_rate` -/
def athTxStatusUpdateRate (cfg : Config) (rc : RcSeries) (e : TxStatusEntry) : TxStatusEntry :=
  let ht := cfg.rateCode rc.rix &&& 0x80 ≠ 0
  let rate := if ht then cfg.dot11Rate rc.rix else BitVec.ofNat 8 rc.rix
  let mcs := if ht then ath9kHtcTxstatMcs else 0
  let cw40 := if ht ∧ rc.flags &&& athRcCw40Flag ≠ 0 then ath9kHtcTxstatCw40 else 0
  let sgi := if ht ∧ rc.flags &&& athRcHt40SgiFlag ≠ 0 then ath9kHtcTxstatSgi else 0
  let rtscts := if rc.flags &&& athRcRtsctsFlag ≠ 0 then ath9kHtcTxstatRtcCts else 0
  { e with
    tsRate := e.tsRate ||| (rate &&& 0x0f)
    tsFlags := e.tsFlags ||| mcs ||| cw40 ||| sgi ||| rtscts }

/-- Write the entry at `txs->cnt` and count it. -/
def putTxStatus (s : TxState) (i : Fin 2) (f : TxStatusEntry → TxStatusEntry) : TxState :=
  let txs := s.txStatus i
  let txs' : TxStatusEvent :=
    { cnt := txs.cnt + 1
      txstatus := Function.update txs.txstatus txs.cnt (f (txs.txstatus txs.cnt)) }
  { s with txStatus := Function.update s.txStatus i txs' }

/-- None of the errors after which `ath_tx_status_update` withholds the acknowledgement. -/
def txAcked (tsStatus : BitVec 8) : Bool :=
  tsStatus &&& (halTxerrXretry ||| halTxerrFifo ||| halTxerrTimerExpired ||| halTxerrFilt) = 0

def athTxStatusUpdate (s : TxState) (bf : BufId) : TxState :=
  let b := s.buf bf
  let stat := (s.ds b.bfLastds).dsTxstat
  if s.scTxDraining then s
  else match athTxStatusGet s with
    | none => s
    | some i =>
      putTxStatus s i fun _ =>
        athTxStatusUpdateRate s.cfg (b.bfRcs stat.tsRate)
          { cookie := b.bfCookie
            tsRate := txstatEpid b.bfEndpt
            tsFlags :=
              (if stat.tsStatus &&& halTxerrFilt ≠ 0 then ath9kHtcTxstatFilt else 0) |||
              (if txAcked stat.tsStatus then ath9kHtcTxstatAck else 0) }

/-- `ath_tx_status_update_aggr`: the flags of the entry are not cleared first. -/
def athTxStatusUpdateAggr (s : TxState) (bf : BufId) (stat : TxStat)
    (rcs : Option (Fin 4 → RcSeries)) (txok : Bool) : TxState :=
  let b := s.buf bf
  if s.scTxDraining then s
  else match athTxStatusGet s with
    | none => s
    | some i =>
      putTxStatus s i fun e =>
        let e := { e with
          cookie := b.bfCookie
          tsRate := txstatEpid b.bfEndpt
          tsFlags := if txok then e.tsFlags ||| ath9kHtcTxstatAck else e.tsFlags }
        match rcs with
        | none => e
        | some rcs => athTxStatusUpdateRate s.cfg (rcs stat.tsRate) e

/-- One array of `ath_tx_status_send`. -/
def sendTxStatus (s : TxState) (i : Fin 2) : TxState :=
  let txs := s.txStatus i
  if txs.cnt = 0 then s
  else
    { s.emit (.txstatus ((List.range txs.cnt).map txs.txstatus)) with
      txStatus := Function.update s.txStatus i { txs with cnt := 0 } }

def athTxStatusSend (s : TxState) : TxState :=
  if s.scTxDraining then s else sendTxStatus (sendTxStatus s 0) 1

/-- `ath_tx_uc_comp` -/
def athTxUcComp (s : TxState) (bf : BufId) (ni : NodeId) : TxState :=
  (athTxStatusUpdate s bf).emit (.rateTxComplete ni 1 0)

end Ath9kHtc.Tx
