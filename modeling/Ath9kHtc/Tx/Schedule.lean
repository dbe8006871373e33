import Ath9kHtc.Tx.Buffers

/-!
# Handing frames to the hardware

The transmit queues of `if_owl.c`: single frames, aggregates, and the choice of the TID that
may send next.
-/

namespace Ath9kHtc.Tx

def axqLinkTo (s : TxState) (link : Option BufId) (bf : BufId) : TxState :=
  match link with
  | none => s
  | some last => s.modDs last fun ds => { ds with dsLink := some bf }

/-- Note in the log of its TID that a frame goes to the hardware. -/
def logHanded (s : TxState) (bf : BufId) : TxState :=
  match s.tidOf bf with
  | none => s
  | some k => s.modTid k fun tid => { tid with handed := (s.buf bf).bfSkb.toList ++ tid.handed }

/-- `ath_tgt_txq_add_ucast`; the status `ah_procTxDesc` reads here is thrown away. -/
def athTgtTxqAddUcast (s : TxState) (bf : BufId) : TxState :=
  let q := (s.buf bf).bfTxq
  let lastds := (s.buf bf).bfLastds
  let s := axqLinkTo s (s.txq q).axqLink bf
  s.modTxq q fun txq =>
    { txq with
      axqQ := txq.axqQ ++ [bf]
      axqDepth := txq.axqDepth + 1
      axqLink := some lastds }

/-- `ath_tgt_txqaddbuf` -/
def athTgtTxqaddbuf (s : TxState) (q : QueueId) (bf : BufId) (lastds : BufId) : TxState :=
  let s := axqLinkTo s (s.txq q).axqLink bf
  s.modTxq q fun txq =>
    { txq with
      axqQ := txq.axqQ ++ [bf]
      axqDepth := txq.axqDepth + 1
      axqLink := some lastds }

/-- `ath_rate_findrate` -/
def athRateFindrate (s : TxState) : RateAnswer × TxState :=
  (s.rateAnswers s.rateCalls, { s with rateCalls := s.rateCalls + 1 })

/-- The rates `ath_tgt_tx_send_normal` puts into the buffer. -/
def normalSeries (s : TxState) (bf : BufId) : TxState :=
  if (s.buf bf).bfIsmcast then
    let mrcs : RcSeries := { rix := s.cfg.minrateidx (s.buf bf).vapIndex, tries := 1 }
    s.modBuf bf fun b => { b with bfRcs := Function.update (fun _ => {}) 0 mrcs }
  else
    let found := athRateFindrate s
    found.2.modBuf bf fun b => { b with bfRcs := found.1.series }

def athTgtTxSendNormal (s : TxState) (bf : BufId) : TxState :=
  athTgtTxqAddUcast (normalSeries (logHanded s bf) bf) bf

/-- `ath_tgt_tx_enqueue` -/
def athTgtTxEnqueue (s : TxState) (q : QueueId) (k : TidId) : TxState :=
  if (s.tid k).paused then s
  else if (s.tid k).sched then s
  else
    (s.modTid k fun tid => { tid with sched := true }).modTxq q fun txq =>
      { txq with axqTidq := txq.axqTidq ++ [k] }

/-- `asf_tailq_remove` of the first frame of `buf_q`. -/
def bufQRemoveHead (s : TxState) (k : TidId) : TxState :=
  s.modTid k fun tid => { tid with bufQ := tid.bufQ.tail }

/-- The loop of `ath_tgt_tx_sched_normal`; every round takes a frame off `buf_q`. -/
def schedNormalLoop (k : TidId) : ℕ → TxState → TxState
  | 0, s => s
  | n + 1, s =>
    match (s.tid k).bufQ with
    | [] => s
    | bf :: _ =>
      let s := athTgtTxSendNormal (bufQRemoveHead s k) bf
      if (s.txq (tidToActxq k.2)).axqDepth < athAggrMinQdepth then schedNormalLoop k n s else s

def athTgtTxSchedNormal (s : TxState) (k : TidId) : TxState :=
  schedNormalLoop k ((s.tid k).bufQ.length + 1) s

/-! ## Aggregates -/

/-- The rates `ath_lookup_rate` puts into the buffer.  For a multicast frame the rate control
is not asked, and `prate` is what the stack holds. -/
def lookupSeries (b : TxBuf) (answer : RateAnswer) : Fin 4 → RcSeries :=
  if b.bfIsmcast then fun i =>
    if i = 0 then { b.bfRcs 0 with rix := 0xb, tries := athTxmaxtry - 1, flags := 0 }
    else { b.bfRcs i with tries := 0 }
  else answer.series

/-- The limit on the length of an aggregate that the rates of its first frame set. -/
def aggrLimit (s : TxState) (ni : NodeId) (rcs : Fin 4 → RcSeries) (prate : Bool) : ℕ :=
  let used := (List.finRange 4).filter fun i => (rcs i).tries ≠ 0
  if prate ∨ used.any (fun i => !s.cfg.phyHt (rcs i).rix) then 0
  else
    let max4ms := used.foldl (fun m i => min m (rcs i).max4msframelen) ieee80211AmpduLimitMax
    let limit := min (if s.icEnableCoex then max4ms * 3 / 8 else max4ms) s.icAmpduLimit
    if s.niMaxampdu ni ≠ 0 then min limit (s.niMaxampdu ni) else limit

/-- `ath_lookup_rate` -/
def athLookupRate (s : TxState) (ni : NodeId) (bf : BufId) : ℕ × TxState :=
  let found := athRateFindrate s
  let rcs := lookupSeries (s.buf bf) found.1
  (aggrLimit s ni rcs found.1.isProbe, found.2.modBuf bf fun b => { b with bfRcs := rcs })

/-- `ATH_AGGR_GET_NDELIM` and what the key type adds to it. -/
def aggrNdelim (b : TxBuf) : ℕ :=
  let len := b.bfPktlen
  (if len + 4 < 256 then (256 - len - 4) / 4 else 0) +
    match b.bfKeytype with
    | .aes => 10
    | .wep => 64
    | .tkip => 64
    | .wapi => 12
    | _ => 0

/-- The local variables of `ath_tgt_tx_form_aggr`. -/
structure AggrAcc where
  bfQ : List BufId := []
  al : ℕ := 0
  bpad : ℕ := 0
  nframes : ℕ := 0
  aggrLimit : ℕ := 64 * 1024 - 1
  rl : Bool := false

/-- The rate lookup for the first frame of the aggregate. -/
def aggrRate (s : TxState) (k : TidId) (bf : BufId) (acc : AggrAcc) : AggrAcc × TxState :=
  if acc.rl then (acc, s)
  else
    let looked := athLookupRate s k.1 bf
    ({ acc with aggrLimit := looked.1, rl := true }, looked.2)

def alDelta (b : TxBuf) : ℕ := (4 + b.bfPktlen) % 65536

/-- The aggregate is full without the next frame. -/
def aggrFull (s : TxState) (k : TidId) (bf : BufId) (acc : AggrAcc) : Bool :=
  decide (0 < acc.nframes ∧ acc.aggrLimit < acc.al + acc.bpad + alDelta (s.buf bf) ∨
    min ((s.tid k).bawSize / 2) s.cfg.maxAggrFrames ≤ acc.nframes)

/-- `bf_prev->bf_next = bf` and the link of their descriptors. -/
def linkSubframe (s : TxState) (prev : Option BufId) (bf : BufId) : TxState :=
  match prev with
  | none => s
  | some prev =>
    (s.modBuf prev fun b => { b with bfNext := some bf }).modDs (s.buf prev).bfLastds fun ds =>
      { ds with dsLink := some bf }

/-- The move of the first frame of `buf_q` into the aggregate. -/
def aggrTake (s : TxState) (k : TidId) (bf : BufId) (acc : AggrAcc) : Option TxState :=
  let b := s.buf bf
  if b.bfComp = some .aggr then
    let s := logHanded (bufQRemoveHead (s.modTid k fun tid => athTxAddtoBaw tid b) k) bf
    let s := s.modBuf bf fun b => { b with bfNdelim := aggrNdelim b % 256 }
    some (linkSubframe s acc.bfQ.getLast? bf)
  else none

def AggrAcc.push (acc : AggrAcc) (bf : BufId) (b : TxBuf) : AggrAcc where
  bfQ := acc.bfQ ++ [bf]
  al := (acc.al + acc.bpad + alDelta b) % 65536
  bpad := ((4 - alDelta b % 4) % 4 + aggrNdelim b * 4) % 65536
  nframes := acc.nframes + 1
  aggrLimit := acc.aggrLimit
  rl := acc.rl

/-- The loop of `ath_tgt_tx_form_aggr` over `buf_q`. -/
def formAggrLoop (k : TidId) :
    List BufId → AggrAcc → TxState → Option (AggrStatus × AggrAcc × TxState)
  | [], acc, s => some (.done, acc, s)
  | bf :: rest, acc, s =>
    if bawWithin (s.tid k).seqStart (s.tid k).bawSize (seqnoFromBfSeqno (s.buf bf).bfSeqno) then
      let rated := aggrRate s k bf acc
      if aggrFull rated.2 k bf rated.1 then some (.limited, rated.1, rated.2)
      else
        (aggrTake rated.2 k bf rated.1).bind
          (formAggrLoop k rest (rated.1.push bf (s.buf bf)))
    else some (.bawClosed, acc, s)

/-- `ath_tgt_tx_form_aggr`: the status and the frames of the aggregate. -/
def athTgtTxFormAggr (s : TxState) (k : TidId) :
    Option (AggrStatus × List BufId × TxState) :=
  match (s.tid k).bufQ with
  | [] => none
  | first :: rest =>
    (formAggrLoop k (first :: rest) {} s).map fun (status, acc, s) =>
      (status, acc.bfQ,
        s.modBuf first fun b => { b with bfAl := acc.al, bfNframes := acc.nframes })

/-- A frame of `ath_tgt_tx_sched_aggr` that goes out alone. -/
def schedSingle (s : TxState) (bf : BufId) : TxState :=
  let s := s.modBuf bf fun b => { b with bfIsaggr := false, bfLastds := bf, bfNext := none }
  athTgtTxqAddUcast (s.modDs bf fun ds => { ds with dsLink := none }) bf

/-- An aggregate of `ath_tgt_tx_sched_aggr`. -/
def schedAggregate (s : TxState) (bf bfLast : BufId) : TxState :=
  let s := s.modBuf bfLast fun b => { b with bfNext := none, bfNdelim := 0 }
  let lastds := (s.buf bfLast).bfLastds
  let s := s.modDs lastds fun ds => { ds with dsLink := none }
  athTgtTxqAddUcast (s.modBuf bf fun b => { b with bfIsaggr := true, bfLastds := lastds }) bf

/-- The loop of `ath_tgt_tx_sched_aggr`; every round takes a frame off `buf_q` or ends it. -/
def schedAggrLoop (k : TidId) : ℕ → TxState → Option TxState
  | 0, s => some s
  | n + 1, s =>
    if (s.tid k).bufQ = [] then some s
    else
      (athTgtTxFormAggr s k).bind fun (status, bfQ, s) =>
        match bfQ with
        | [] => some s
        | bf :: more =>
          let s :=
            if (s.buf bf).bfNframes = 1 then schedSingle s bf
            else schedAggregate s bf ((bf :: more).getLastD bf)
          if (s.txq (tidToActxq k.2)).axqDepth < athAggrMinQdepth ∧ status ≠ .bawClosed then
            schedAggrLoop k n s
          else some s

def athTgtTxSchedAggr (s : TxState) (k : TidId) : Option TxState :=
  schedAggrLoop k ((s.tid k).bufQ.length + 1) s

/-! ## Scheduling -/

/-- One TID taken off `axq_tidq`. -/
def tidqRemoveHead (s : TxState) (q : QueueId) (k : TidId) : TxState :=
  (s.modTxq q fun txq => { txq with axqTidq := txq.axqTidq.tail }).modTid k fun tid =>
    { tid with sched := false }

/-- `ath_tgt_tx_enqueue` of a TID that has frames left. -/
def requeueTid (s : TxState) (q : QueueId) (k : TidId) : TxState :=
  if (s.tid k).bufQ = [] then s else athTgtTxEnqueue s q k

/-- The loop of `ath_tgt_txq_schedule`: paused TIDs are dropped, the first other sends. -/
def txqScheduleLoop (q : QueueId) : List TidId → TxState → Option TxState
  | [], s => some s
  | k :: rest, s =>
    let s := tidqRemoveHead s q k
    if (s.tid k).paused then txqScheduleLoop q rest s
    else
      (if (s.tid k).aggrEnabled then athTgtTxSchedAggr s k
        else some (athTgtTxSchedNormal s k)).map fun s => requeueTid s q k

def athTgtTxqSchedule (s : TxState) (q : QueueId) : Option TxState :=
  txqScheduleLoop q (s.txq q).axqTidq s

def athAggrPauseTid (s : TxState) (k : TidId) : TxState :=
  s.modTid k fun tid => { tid with paused := true }

def athAggrResumeTid (s : TxState) (k : TidId) : Option TxState :=
  let s := s.modTid k fun tid => { tid with paused := false }
  if (s.tid k).bufQ = [] then some s
  else
    let q := tidToActxq k.2
    athTgtTxqSchedule (athTgtTxEnqueue s q k) q

end Ath9kHtc.Tx
