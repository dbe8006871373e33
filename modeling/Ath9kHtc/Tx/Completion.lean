import Ath9kHtc.Tx.Schedule

/-!
# Completion of frames

What `if_owl.c` does when the hardware is done with a frame: acknowledgement, retries, block-ack
requests, the cleanup of a TID, and the drain of a hardware queue.
-/

namespace Ath9kHtc.Tx

/-! ## Draining and cleaning up a TID -/

/-- The loop of `ath_tgt_tid_drain`. -/
def tidDrainLoop (k : TidId) : List BufId → TxState → Option TxState
  | [], s => some s
  | bf :: rest, s => (athTxFreebuf (bufQRemoveHead s k) bf).bind (tidDrainLoop k rest)

def rewindTid (s : TxState) (k : TidId) : TxState :=
  s.modTid k fun tid => { tid with seqNext := tid.seqStart, bawTail := tid.bawHead }

def athTgtTidDrain (s : TxState) (k : TidId) : Option TxState :=
  (tidDrainLoop k (s.tid k).bufQ s).map fun s => rewindTid s k

/-- `ath_tx_update_baw` for a frame thrown out of `buf_q`. -/
def discardFromBaw (s : TxState) (k : TidId) (bf : BufId) : TxState :=
  if (s.buf bf).bfIsretried then
    s.modTid k fun tid => athTxUpdateBaw tid (seqnoFromBfSeqno (s.buf bf).bfSeqno)
  else s

/-- The walk of `ath_tgt_tx_cleanup` over `buf_q`.  It takes the first frame off the queue
whenever it selects one, whichever that was. -/
def cleanupBufQ (k : TidId) (discardAll : Bool) : List BufId → TxState → Option TxState
  | [], s => some s
  | bf :: rest, s =>
    if discardAll ∨ (s.buf bf).bfIsretried then
      match (s.tid k).bufQ with
      | [] => none
      | first :: _ =>
        (athTxFreebuf (discardFromBaw (bufQRemoveHead s k) k first) first).bind
          (cleanupBufQ k discardAll rest)
    else cleanupBufQ k discardAll rest (s.modBuf bf fun b => { b with bfComp := some .normal })

def athTgtTxCleanup (s : TxState) (k : TidId) (discardAll : Bool) : Option TxState :=
  (cleanupBufQ k discardAll (s.tid k).bufQ s).bind fun s =>
    let s := (athAggrPauseTid s k).modTid k (cleanupBaw athTidMaxBufs)
    if (s.tid k).cleanupInprogres then some s else athAggrResumeTid s k

/-- `owl_tgt_tid_cleanup` -/
def owlTgtTidCleanup (s : TxState) (k : TidId) : Option TxState :=
  let s := s.modTid k fun tid => { tid with incomp := aInt8 (tid.incomp - 1) }
  if (s.tid k).incomp ≠ 0 then some s
  else
    let s := s.modTid k fun tid => { tid with cleanupInprogres := false }
    if (s.tid k).reinitializeFlag then some (s.modTid k owlTgtTidInit)
    else athAggrResumeTid s k

/-! ## Block-ack requests -/

/-- `ath_tgt_delba_send` -/
def athTgtDelbaSend (s : TxState) (k : TidId) : Option TxState :=
  (athTgtTxCleanup (s.modTid k fun tid => { tid with aggrEnabled := false }) k true).map fun s =>
    s.emit (.delba k.1 k.2)

/-- The frame of a BAR over the bytes of an earlier frame; the CPU stores a 16-bit word with
its high byte first. -/
def barFrame (tidno : TidNo) (seqStart : ℕ) (n : Nbuf) : Nbuf :=
  let byte := Function.update n.byte 1 0x00
  let byte := Function.update byte 0 0x84
  let byte := Function.update byte 16 (BitVec.ofNat 8 (tidno * 16))
  let byte := Function.update byte 17 0x04
  let byte := Function.update byte 18 (BitVec.ofNat 8 (seqStart * 16 % 256))
  { len := 20, byte := Function.update byte 19 (BitVec.ofNat 8 (seqStart * 16 / 256)) }

/-- `ath_bar_tx` -/
def athBarTx (s : TxState) (k : TidId) (bf : BufId) : Option TxState :=
  let s := athAggrPauseTid s k
  match (s.buf bf).bfSkbhead with
  | [] => none
  | skb :: skbs =>
    let seqStart := (s.tid k).seqStart
    let s := s.modNbuf skb (barFrame k.2 seqStart)
    let s := s.modBuf bf fun b =>
      { b with
        bfSkbhead := skbs ++ [skb]
        bfSeqno := seqStart * 16
        bfComp := some .bar
        bfTidno := k.2
        bfNode := some k.1
        bfIsaggr := false
        bfNext := none }
    some (athTgtTxqAddUcast (athFilltxdesc s bf) bf)

/-- `ath_bar_retry` -/
def athBarRetry (s : TxState) (k : TidId) (bf : BufId) : Option TxState :=
  if owlmaxBarRetries ≤ (s.buf bf).bfRetries then
    (athTgtDelbaSend s k).bind fun s =>
      (athTgtTidDrain s k).bind fun s =>
        athBufComp (s.modBuf bf fun b => { b with bfComp := none }) bf
  else
    (if (s.ds (s.buf bf).bfLastds).dsLink = none then athBufToggle s bf true
      else some (bf, s)).bind fun (bf, s) =>
      (athTxSetRetry (s.modDs (s.buf bf).bfLastds fun ds => { ds with dsLink := none }) bf).map
        fun s => athTgtTxqAddUcast s bf

def athBarTxComp (s : TxState) (k : TidId) (bf : BufId) : Option TxState :=
  if (s.ds (s.buf bf).bfLastds).dsTxstat.tsStatus &&& halTxerrXretry ≠ 0 then athBarRetry s k bf
  else
    (athAggrResumeTid s k).bind fun s =>
      athBufComp (s.modBuf bf fun b => { b with bfComp := none }) bf

/-! ## Data frames -/

/-- `ath_tgt_tx_comp_normal` -/
def athTgtTxCompNormal (s : TxState) (k : TidId) (bf : BufId) : Option TxState :=
  (if (s.tid k).cleanupInprogres then owlTgtTidCleanup s k else some s).bind fun s =>
    athTxFreebuf (athTxUcComp s bf k.1) bf

/-- The loop of `ath_tx_comp_cleanup` over an aggregate. -/
def compCleanupLoop (k : TidId) (stat : TxStat) (rcs : Fin 4 → RcSeries) :
    ℕ → Option BufId → TxState → Option TxState
  | _, none, s => some s
  | 0, some _, _ => none
  | n + 1, some bf, s =>
    let bfNext := (s.buf bf).bfNext
    (athTxFreebuf (athTxStatusUpdateAggr s bf stat (some rcs) false) bf).bind fun s =>
      let s := s.modTid k fun tid => { tid with incomp := aInt8 (tid.incomp - 1) }
      if (s.tid k).incomp = 0 then
        athAggrResumeTid (s.modTid k fun tid => { tid with cleanupInprogres := false }) k
      else compCleanupLoop k stat rcs n bfNext s

/-- `ath_tx_comp_cleanup` -/
def athTxCompCleanup (s : TxState) (k : TidId) (bf : BufId) : Option TxState :=
  let b := s.buf bf
  if b.bfIsaggr then
    (compCleanupLoop k (s.ds b.bfLastds).dsTxstat b.bfRcs s.cfg.txBufs (some bf) s).map fun s =>
      s.emit (.rateTxComplete k.1 b.bfNframes 0)
  else
    (athTxFreebuf (athTxStatusUpdate s bf) bf).bind fun s =>
      if (s.tid k).cleanupInprogres then owlTgtTidCleanup s k else some s

/-- What the completion of an aggregate collects: the frames to send again, the frame that
becomes a BAR, and the number of bad frames. -/
structure CompAcc where
  bfQ : List BufId := []
  bar : Option BufId := none
  nbad : ℕ := 0

/-- `ath_tx_retry_subframe` -/
def athTxRetrySubframe (s : TxState) (bf : BufId) (acc : CompAcc) :
    Option (CompAcc × TxState) :=
  (s.tidOf bf).bind fun k =>
    if owlmaxRetries ≤ (s.buf bf).bfRetries then
      let stat := (s.ds (s.buf bf).bfLastds).dsTxstat
      let s := s.modTid k fun tid => athTxUpdateBaw tid (seqnoFromBfSeqno (s.buf bf).bfSeqno)
      let s := athTxStatusUpdateAggr s bf stat none false
      match acc.bar with
      | none => some ({ acc with bar := some bf }, s)
      | some _ => (athTxFreebuf s bf).map fun s => (acc, s)
    else
      (if (s.buf bf).bfNext = none then athBufToggle s bf true
        else some (bf, s.modBuf bf fun b => { b with bfLastds := bf })).bind fun (bf, s) =>
        (athTxSetRetry s bf).map fun s => ({ acc with bfQ := acc.bfQ ++ [bf] }, s)

/-- `ath_tx_update_baw`, the status and the release of an acknowledged subframe. -/
def ackSubframe (s : TxState) (k : TidId) (bf : BufId) (stat : TxStat)
    (rcs : Fin 4 → RcSeries) : Option TxState :=
  let s := s.modTid k fun tid => athTxUpdateBaw tid (seqnoFromBfSeqno (s.buf bf).bfSeqno)
  athTxFreebuf (athTxStatusUpdateAggr s bf stat (some rcs) true) bf

/-- The loop over the subframes of an aggregate in `ath_tgt_tx_comp_aggr` and
`ath_tx_comp_aggr_error`; the latter takes no frame as acknowledged. -/
def compAggrLoop (k : TidId) (stat : TxStat) (rcs : Fin 4 → RcSeries) (acked : TxBuf → Bool) :
    ℕ → Option BufId → CompAcc → TxState → Option (CompAcc × TxState)
  | _, none, acc, s => some (acc, s)
  | 0, some _, _, _ => none
  | n + 1, some bf, acc, s =>
    let bfNext := (s.buf bf).bfNext
    if acked (s.buf bf) then
      (ackSubframe s k bf stat rcs).bind (compAggrLoop k stat rcs acked n bfNext acc)
    else
      (athTxRetrySubframe s bf acc).bind fun (acc, s) =>
        compAggrLoop k stat rcs acked n bfNext { acc with nbad := acc.nbad + 1 } s

/-- `TAILQ_INSERTQ_HEAD` of the frames to send again. -/
def prependBufQ (s : TxState) (k : TidId) (bfQ : List BufId) : TxState :=
  s.modTid k fun tid => { tid with bufQ := bfQ ++ tid.bufQ }

/-- The end both completions of an aggregate share. -/
def finishAggr (s : TxState) (k : TidId) (txq : QueueId) (acc : CompAcc) : Option TxState :=
  (match acc.bar with
    | none => some s
    | some bar => athBarTx s k bar).map fun s =>
    if acc.bfQ = [] then s else athTgtTxEnqueue (prependBufQ s k acc.bfQ) txq k

/-- `ath_tx_comp_aggr_error` -/
def athTxCompAggrError (s : TxState) (k : TidId) (bf : BufId) : Option TxState :=
  let b := s.buf bf
  (compAggrLoop k (s.ds b.bfLastds).dsTxstat b.bfRcs (fun _ => false) s.cfg.txBufs (some bf) {}
    s).bind fun (acc, s) =>
      finishAggr (s.emit (.rateTxComplete k.1 b.bfNframes b.bfNframes)) k b.bfTxq acc

/-- `ath_tx_retry_unaggr` -/
def athTxRetryUnaggr (s : TxState) (k : TidId) (bf : BufId) : Option TxState :=
  let txq := (s.buf bf).bfTxq
  if owlmaxRetries ≤ (s.buf bf).bfRetries then
    let s := s.modTid k fun tid => athTxUpdateBaw tid (seqnoFromBfSeqno (s.buf bf).bfSeqno)
    athBarTx (athTxStatusUpdate s bf) k bf
  else
    (if (s.ds (s.buf bf).bfLastds).dsLink = none then athBufToggle s bf true
      else some (bf, s)).bind fun (bf, s) =>
      (athTxSetRetry s bf).map fun s => athTgtTxEnqueue (prependBufQ s k [bf]) txq k

/-- `ath_tx_comp_unaggr` -/
def athTxCompUnaggr (s : TxState) (k : TidId) (bf : BufId) : Option TxState :=
  let stat := (s.ds (s.buf bf).bfLastds).dsTxstat
  let s := s.emit (.rateTxComplete k.1 1 0)
  if stat.tsStatus &&& halTxerrXretry ≠ 0 then athTxRetryUnaggr s k bf
  else
    let s := s.modTid k fun tid => athTxUpdateBaw tid (seqnoFromBfSeqno (s.buf bf).bfSeqno)
    athTxFreebuf (athTxStatusUpdate s bf) bf

/-- `ATH_BA_ISSET` for a subframe in the block-ack of `stat`. -/
def baIsset (stat : TxStat) (b : TxBuf) : Bool :=
  stat.ba.getLsbD (athBaIndex stat.tsSeqnum (seqnoFromBfSeqno b.bfSeqno))

/-- `ath_tgt_tx_comp_aggr` -/
def athTgtTxCompAggr (s : TxState) (k : TidId) (bf : BufId) : Option TxState :=
  let b := s.buf bf
  let stat := (s.ds b.bfLastds).dsTxstat
  if (s.tid k).cleanupInprogres then athTxCompCleanup s k bf
  else if stat.tsFlags = halTxSwFiltered then none
  else if !b.bfIsaggr then athTxCompUnaggr s k bf
  else if stat.tsStatus &&& halTxerrXretry ≠ 0 then athTxCompAggrError s k bf
  else if stat.tsStatus = 0 ∧ stat.tsFlags &&& halTxBa = 0 then athTxCompAggrError s k bf
  else
    let acked := fun b => stat.tsStatus = 0 && baIsset stat b
    (compAggrLoop k stat b.bfRcs acked s.cfg.txBufs (some bf) {} s).bind fun (acc, s) =>
      finishAggr (s.emit (.rateTxComplete k.1 b.bfNframes acc.nbad)) k b.bfTxq acc

/-! ## Hardware queues -/

/-- The call of `bf_comp`, which finds the TID through the node of the buffer. -/
def completeBuf (s : TxState) (bf : BufId) : Option TxState :=
  match (s.buf bf).bfComp with
  | none => athBufComp (athTxStatusUpdate s bf) bf
  | some .normal => (s.tidOf bf).bind fun k => athTgtTxCompNormal s k bf
  | some .aggr => (s.tidOf bf).bind fun k => athTgtTxCompAggr s k bf
  | some .bar => (s.tidOf bf).bind fun k => athBarTxComp s k bf

/-- The status `owltgt_tx_processq` leaves in the descriptor; `none` is `HAL_EINPROGRESS`. -/
def procStatus (state : TxqState) (answer : Option TxStat) (old : TxStat) : TxStat :=
  match answer, state with
  | some stat, _ => stat
  | none, .filtered => { old with tsFlags := halTxSwFiltered }
  | none, _ => { old with tsFlags := 0, tsStatus := 0 }

/-- `ATH_TXQ_REMOVE_HEAD` -/
def txqRemoveHead (s : TxState) (q : QueueId) : TxState :=
  s.modTxq q fun txq =>
    { txq with
      axqQ := txq.axqQ.tail
      axqDepth := txq.axqDepth - 1
      axqLink := if txq.axqQ.tail = [] then none else txq.axqLink }

/-- One round of the loop of `owltgt_tx_processq`, and whether it goes on. -/
def processqRound (q : QueueId) (state : TxqState) (answer : Option TxStat) (s : TxState) :
    Option (TxState × Bool) :=
  match (s.txq q).axqQ with
  | [] => some (s.modTxq q fun txq => { txq with axqLink := none }, false)
  | bf :: _ =>
    if answer = none ∧ state = .active then some (s, false)
    else
      let s := s.modDs (s.buf bf).bfLastds fun ds =>
        { ds with dsTxstat := procStatus state answer ds.dsTxstat }
      (completeBuf (txqRemoveHead s q) bf).bind fun s =>
        (if state = .active then athTgtTxqSchedule s q else some s).map fun s => (s, true)

/-- `owltgt_tx_processq`, given what the hardware answers in its rounds. -/
def owltgtTxProcessq (q : QueueId) (state : TxqState) :
    List (Option TxStat) → TxState → Option TxState
  | [], _ => none
  | answer :: answers, s =>
    (processqRound q state answer s).bind fun (s, more) =>
      if more then owltgtTxProcessq q state answers s else some s

end Ath9kHtc.Tx
