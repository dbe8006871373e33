import Ath9kHtc.Lib.Run
import Ath9kHtc.Tx.Prepare

/-!
# The transmit path as a machine

The commands of the host, the drain of all queues and the transmit tasklet.  The drain and the
tasklet are broken into their rounds; every other handler runs to completion in one event.
-/

namespace Ath9kHtc.Tx

/-- What a command says about a node. -/
structure NodeCmd where
  niNodeindex : ℕ
  niVapindex : ℕ
  niIsVapnode : Bool
  niMaxampdu : ℕ

/-! ## Commands -/

/-- `ath_enable_aggr_tgt` -/
def athEnableAggrTgt (sc : Softc) (nodeindex tidno : ℕ) (enable : Bool) : Option Softc :=
  if hn : nodeindex < 8 then
    if ht : tidno < 8 then
      let k : TidId := (⟨nodeindex, hn⟩, ⟨tidno, ht⟩)
      if (sc.scSta k.1).anValid = false then some sc
      else if enable then
        some { sc with tx := sc.tx.modTid k fun tid => { tid with aggrEnabled := true } }
      else if (sc.tx.tid k).aggrEnabled then
        (athTgtTxCleanup (sc.tx.modTid k fun tid => { tid with aggrEnabled := false }) k true).map
          fun s => { sc with tx := s }
      else some sc
    else some sc
  else some sc

/-- What `owl_tgt_node_init` does to one TID. -/
def nodeInitTid (tid : Tid) : Tid :=
  if tid.cleanupInprogres then { tid with reinitializeFlag := true } else owlTgtTidInit tid

/-- `owl_tgt_node_init` -/
def owlTgtNodeInit (s : TxState) (ni : NodeId) : TxState :=
  { s with tid := fun k => if k.1 = ni then nodeInitTid (s.tid k) else s.tid k }

def setMaxampdu (s : TxState) (ni : NodeId) (maxampdu : ℕ) : TxState :=
  { s with niMaxampdu := Function.update s.niMaxampdu ni maxampdu }

/-- `ath_node_create_tgt`; an index past the tables overwrites other memory. -/
def athNodeCreateTgt (sc : Softc) (cmd : NodeCmd) : Option Softc :=
  if h : cmd.niNodeindex < 8 then
    if cmd.niIsVapnode ∧ 2 ≤ cmd.niVapindex then none
    else
      let ni : NodeId := ⟨cmd.niNodeindex, h⟩
      let s := setMaxampdu sc.tx ni cmd.niMaxampdu
      some { sc.modSta ni fun _ => { anValid := true, niVap := true } with
        tx := owlTgtNodeInit s ni
        encaps := Function.update sc.encaps ni [] }
  else none

/-- `ath_node_cleanup_tgt` -/
def athNodeCleanupTgt (sc : Softc) (nodeIndex : ℕ) : Option Softc :=
  if h : nodeIndex < 8 then
    some (sc.modSta ⟨nodeIndex, h⟩ fun node => { node with anValid := false })
  else none

/-- `ath_node_update_tgt` -/
def athNodeUpdateTgt (sc : Softc) (cmd : NodeCmd) : Option Softc :=
  if h : cmd.niNodeindex < 8 then
    let ni : NodeId := ⟨cmd.niNodeindex, h⟩
    some { sc.modSta ni fun node =>
        { node with niVap := true, niTxseqmgmt := 0, pn := ⟨0, 0⟩ } with
      tx := setMaxampdu sc.tx ni cmd.niMaxampdu }
  else none

/-- `ath_ic_update_tgt` -/
def athIcUpdateTgt (s : TxState) (ampduLimit : ℕ) (enableCoex : Bool) : TxState :=
  { s with icAmpduLimit := ampduLimit, icEnableCoex := enableCoex }

/-! ## Draining all queues -/

/-- The start of `ath_draintxq`. -/
def drainStart (s : TxState) : TxState :=
  { athTxStatusClear s with scTxDraining := true }

/-- One round of the second loop of `ath_draintxq`, which takes a TID off a hardware queue that
the first has emptied. -/
def drainTidq (q : QueueId) (s : TxState) : Option TxState :=
  match (s.txq q).axqQ, (s.txq q).axqTidq with
  | [], k :: _ => athTgtTidDrain (tidqRemoveHead s q k) k
  | _, _ => none

/-- The second loop of `ath_draintxq`; every round takes a TID off the queue. -/
def drainTidqLoop (q : QueueId) : ℕ → TxState → Option TxState
  | 0, s => some s
  | n + 1, s =>
    if (s.txq q).axqTidq = [] then some s else (drainTidq q s).bind (drainTidqLoop q n)

def drainEnd (s : TxState) : TxState :=
  { s with scTxDraining := false }

/-- `ath_draintxq`, given what the stopped hardware answers for each queue. -/
def athDraintxq (answers : QueueId → List (Option TxStat)) (s : TxState) : Option TxState :=
  ((List.finRange 10).foldlM
    (fun s q => (owltgtTxProcessq q .stopped (answers q) s).bind fun s =>
      drainTidqLoop q (s.txq q).axqTidq.length s) (drainStart s)).map drainEnd

/-- `owl_tgt_tx_tasklet`, given what the hardware answers for the first four queues. -/
def owlTgtTxTasklet (answers : QueueId → List (Option TxStat)) (s : TxState) : Option TxState :=
  ([0, 1, 2, 3].foldlM (fun s q => owltgtTxProcessq q .active (answers q) s)
    (athTxStatusClear s)).map athTxStatusSend

/-! ## The machine -/

inductive Event
  | recvData (endpt : EndpointId) (dh : DataHdr) (frame : Nbuf)
  | recvMgmt (endpt : EndpointId) (mh : MgtHdr) (frame : Nbuf)
  | processq (q : QueueId) (state : TxqState) (answer : Option TxStat)
  | statusClear
  | statusSend
  | drainStart
  | drainTidq (q : QueueId)
  | drainEnd
  | enableAggr (nodeindex tidno : ℕ) (enable : Bool)
  | nodeCreate (cmd : NodeCmd)
  | nodeCleanup (nodeIndex : ℕ)
  | nodeUpdate (cmd : NodeCmd)
  | icUpdate (ampduLimit : ℕ) (enableCoex : Bool)

/-- A frame arrives in a host buffer of its own. -/
def arrive (sc : Softc) (frame : Nbuf) : Softc :=
  { sc with tx := sc.tx.modNbuf sc.skbs fun _ => frame, skbs := sc.skbs + 1 }

def step : Event → Softc → Option Softc
  | .recvData endpt dh frame, sc =>
    tgtHtcRecvMessageHandler (arrive sc frame) endpt sc.skbs dh
  | .recvMgmt endpt mh frame, sc => athTgtSendMgt (arrive sc frame) endpt sc.skbs mh
  | .processq q state answer, sc =>
    (processqRound q state answer sc.tx).map fun out => { sc with tx := out.1 }
  | .statusClear, sc => some { sc with tx := athTxStatusClear sc.tx }
  | .statusSend, sc => some { sc with tx := athTxStatusSend sc.tx }
  | .drainStart, sc => some { sc with tx := Tx.drainStart sc.tx }
  | .drainTidq q, sc => (Tx.drainTidq q sc.tx).map fun s => { sc with tx := s }
  | .drainEnd, sc => some { sc with tx := Tx.drainEnd sc.tx }
  | .enableAggr nodeindex tidno enable, sc => athEnableAggrTgt sc nodeindex tidno enable
  | .nodeCreate cmd, sc => athNodeCreateTgt sc cmd
  | .nodeCleanup nodeIndex, sc => athNodeCleanupTgt sc nodeIndex
  | .nodeUpdate cmd, sc => athNodeUpdateTgt sc cmd
  | .icUpdate ampduLimit enableCoex, sc =>
    some { sc with tx := athIcUpdateTgt sc.tx ampduLimit enableCoex }

/-- The transmit path after `ath_desc_alloc`: the first buffer is held, the others are free. -/
def attachTx (cfg : Config) (rateAnswers : ℕ → RateAnswer) : TxState where
  cfg := cfg
  buf := fun bf => { bfLastds := bf }
  ds := fun _ => {}
  nbuf := fun _ => ⟨0, fun _ => 0⟩
  scTxbuf := (List.range cfg.txBufs).tail
  scTxbufHeld := (List.range cfg.txBufs).head?
  tid := fun _ => {}
  txq := fun _ => {}
  niMaxampdu := fun _ => 0
  icAmpduLimit := 0
  icEnableCoex := false
  scTxDraining := false
  txStatus := fun _ => {}
  rateAnswers := rateAnswers
  rateCalls := 0
  out := []

def attach (cfg : Config) (rateAnswers : ℕ → RateAnswer) : Softc where
  tx := attachTx cfg rateAnswers
  scSta := fun _ => {}
  skbs := 0
  encaps := fun _ => []

/-- The transmit path from its attachment on. -/
def transmit : Machine Softc Event :=
  .ofPartial (fun sc => ∃ cfg rateAnswers, 0 < cfg.txBufs ∧ sc = attach cfg rateAnswers) step

/-- A platform with four buffers. -/
def smallConfig : Config where
  txBufs := 4
  maxAggrFrames := 22
  phyHt := fun _ => true
  rateCode := fun _ => 0
  dot11Rate := fun _ => 0
  minrateidx := fun _ => 0

/-- A rate control that always chooses the same series. -/
def steadyAnswers : ℕ → RateAnswer := fun _ => ⟨fun _ => {}, false⟩

/-- A data frame to the first TID of the first node, or a management frame to that node. -/
def dataTo (tidno : ℕ) : DataHdr := ⟨0, 0, tidno, .clear, 0⟩

def mgmtTo (niIndex : ℕ) : MgtHdr := ⟨niIndex, 0, 0⟩

/-- A frame of 100 bytes that are all zero. -/
def blankFrame : Nbuf := ⟨100, fun _ => 0⟩

/-- A frame that more fragments follow. -/
def fragment : Nbuf := ⟨100, fun i => if i = 1 then 0x04 else 0⟩

def createNode (ni : ℕ) : NodeCmd := ⟨ni, 0, false, 0⟩

/-- The frame the hardware is asked for has been sent. -/
def sent : Option TxStat := some {}

/-- The hardware gives a frame up. -/
def failed : Option TxStat := some { tsStatus := halTxerrXretry }

end Ath9kHtc.Tx
