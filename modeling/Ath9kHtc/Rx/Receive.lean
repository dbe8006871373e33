import Ath9kHtc.Lib.Run
import Ath9kHtc.Rx.Ring

/-!
# Frames from the hardware

`ath_uapsd_processtriggers`, `ath_tgt_rx_tasklet`, and the receive path as a machine.
-/

namespace Ath9kHtc.Rx

/-- The buffers taken off descriptors so far, with the receive path. -/
abbrev Taking := List BufId × RxState

/-- `adf_nbuf_queue_add` of the buffer of a descriptor. -/
def queueNbuf (ds : DescId) (out : Taking) : Option Taking :=
  (out.2.desc ds).dsNbuf.map fun b =>
    (out.1 ++ [b], out.2.modDesc ds fun d => { d with dsNbuf := none })

/-- `BUF_Pool_free_buf` of the buffer of a descriptor. -/
def dropNbuf (ds : DescId) (out : Taking) : Option Taking :=
  (bufPoolFreeBuf out.2 (out.2.desc ds).dsNbuf).map fun s =>
    (out.1, s.modDesc ds fun d => { d with dsNbuf := none })

/-- The loops of `ath_uapsd_processtriggers` over the descriptors of a frame, which take a buffer
off each and arm the descriptor held before.  Every round takes one off the list. -/
def recycleRun (take : DescId → Taking → Option Taking) (dsTail : DescId) :
    ℕ → DescId → Taking → Option Taking
  | 0, _, _ => none
  | n + 1, ds, out =>
    match out.2.next ds with
    | none => none
    | some next =>
      (take ds out).bind fun out =>
        let out := (out.1, recycleRxdesc out.2 ds)
        if ds = dsTail then some out else recycleRun take dsTail n next out

/-- The local variables of `ath_uapsd_processtriggers`; `bf` is a position in `sc_rxbuf`. -/
structure Scan where
  cnt : ℕ
  ds : Option DescId
  dsHead : Option DescId
  frameLen : ℕ
  bf : ℕ
  deriving DecidableEq

/-- How a round of a loop ends. -/
inductive Round (α : Type) where
  | more (a : α)
  | stop (s : RxState)
  | fault

/-- `ah_procRxDescFast` says `HAL_EINPROGRESS`. -/
def inProgress (s : RxState) (ds nds : DescId) : Bool :=
  !(s.desc ds).rxDone || (!(s.desc nds).rxDone && s.rxdp == some ds)

def modRxbuf (s : RxState) (i : ℕ) (f : RxBuf → RxBuf) : RxState :=
  { s with scRxbuf := s.scRxbuf.modify i f }

/-- `adf_nbuf_put_tail` where the buffer is still empty; there must be a buffer. -/
def putData (s : RxState) (ds : DescId) : Option RxState :=
  (s.desc ds).dsNbuf.map fun b =>
    if (s.nbuf b).len = 0 then s.modNbuf b fun n => { n with len := (s.desc ds).dataLen } else s

/-- The end of a frame: its buffers go into the record. -/
def finishFrame (s : RxState) (c : Scan) (ds : DescId) (frameLen : ℕ) : Round (Scan × RxState) :=
  let following := s.next ds
  match c.dsHead with
  | none => .fault
  | some head =>
    match recycleRun queueNbuf ds s.scRxdesc.length head ([], s) with
    | none => .fault
    | some (frags, s) =>
      .more ({ cnt := 0, ds := following, dsHead := following, frameLen := 0, bf := c.bf + 1 },
        modRxbuf s c.bf fun bf =>
          { bf with rsDatalen := frameLen, bfSkb := some frags, done := true })

/-- A descriptor the hardware is done with. -/
def scanDone (s : RxState) (c : Scan) (ds : DescId) : Round (Scan × RxState) :=
  let d := s.desc ds
  match putData s ds with
  | none => .fault
  | some s =>
    let s := modRxbuf s c.bf fun bf => { bf with rsDatalen := d.dataLen, rsMore := d.rxMore }
    let frameLen := (c.frameLen + d.dataLen) % 65536
    if d.rxMore then
      .more ({ c with cnt := c.cnt + 1, ds := s.next ds, frameLen := frameLen }, s)
    else finishFrame s c ds frameLen

/-- The packet takes too many descriptors. -/
def dropLong (s : RxState) (c : Scan) (ds : DescId) : Round (Scan × RxState) :=
  match c.dsHead with
  | none => .stop s
  | some head =>
    match recycleRun dropNbuf ds s.scRxdesc.length head ([], s) with
    | none => .fault
    | some (_, s) => .stop s

/-- One round of the loop of `ath_uapsd_processtriggers`. -/
def scanRound (c : Scan) (s : RxState) : Round (Scan × RxState) :=
  match c.ds with
  | none => .stop s
  | some ds =>
    if c.cnt + 1 = s.cfg.numrxbufs - 1 then dropLong s c ds
    else
      match (s.desc ds).dsLink with
      | none => .stop s
      | some nds =>
        match s.scRxbuf[c.bf]? with
        | none => .fault
        | some bf =>
          if bf.done then .more ({ c with cnt := c.cnt + 1 }, s)
          else if inProgress s ds nds then .stop s
          else scanDone s c ds

/-- The loop of `ath_uapsd_processtriggers`, if it ends within so many rounds. -/
def scanLoop : ℕ → Scan → RxState → Option RxState
  | 0, _, _ => none
  | n + 1, c, s =>
    match scanRound c s with
    | .more (c, s) => scanLoop n c s
    | .stop s => some s
    | .fault => none

def Scan.start (s : RxState) : Scan :=
  { cnt := 0, ds := s.scRxdesc.head?, dsHead := s.scRxdesc.head?, frameLen := 0, bf := 0 }

def athUapsdProcesstriggers (rounds : ℕ) (s : RxState) : Option RxState :=
  scanLoop rounds (.start s) s

/-- One round of the loop of `ath_tgt_rx_tasklet`. -/
def taskletRound (s : RxState) : Round RxState :=
  match s.scRxbuf with
  | [] => .stop s
  | bf :: rest =>
    if bf.done then
      match bf.bfSkb with
      | none => .more s
      | some skb =>
        .more { s with
          scRxbuf := rest ++ [{ bf with bfSkb := none, done := false }]
          inTransfer := s.inTransfer ++ [skb]
          handed := s.handed ++ [⟨s.frameData skb, bf.rsDatalen⟩] }
    else .stop s

/-- `ath_tgt_rx_tasklet`, if its loop ends within so many rounds. -/
def athTgtRxTasklet : ℕ → RxState → Option RxState
  | 0, _ => none
  | n + 1, s =>
    match taskletRound s with
    | .more s => athTgtRxTasklet n s
    | .stop s => some s
    | .fault => none

/-! ## The machine -/

/-- Commands of the host, what the hardware does, and the handlers; a handler with a loop comes
with a number of rounds that is enough for it. -/
inductive Event
  | startRecv
  | stopRecv
  | flushRecv
  | receive (seg : Segment)
  | advance
  | interrupt (rounds : ℕ)
  | tasklet (rounds : ℕ)
  | complete (i : ℕ)

/-- The hardware fills the descriptor it is at. -/
def hwReceive (s : RxState) (seg : Segment) : Option RxState :=
  s.rxdp.bind fun ds =>
    (s.desc ds).dsData.bind fun b =>
      if s.rxEnabled ∧ (s.desc ds).rxDone = false ∧ seg.bytes.length < 4096 then
        let s := s.modNbuf b fun n => { n with mem := seg.bytes ++ n.mem.drop seg.bytes.length }
        let s := s.modDesc ds fun d =>
          { d with rxDone := true, dataLen := seg.bytes.length, rxMore := seg.more }
        some { s with received := s.received ++ [seg] }
      else none

/-- The hardware goes on along the link of the descriptor it has filled. -/
def hwAdvance (s : RxState) : Option RxState :=
  s.rxdp.bind fun ds =>
    if s.rxEnabled ∧ (s.desc ds).rxDone then
      (s.desc ds).dsLink.map fun next => { s with rxdp := some next }
    else none

/-- The transfer of a frame to the host is complete. -/
def complete (s : RxState) (i : ℕ) : Option RxState :=
  s.inTransfer[i]?.map fun frags =>
    athRxComplete { s with inTransfer := s.inTransfer.eraseIdx i } frags

def step : Event → RxState → Option RxState
  | .startRecv, s => athStartrecv s
  | .stopRecv, s => some (athStoprecvTgt s)
  | .flushRecv, s => athFlushrecvTgt s
  | .receive seg, s => hwReceive s seg
  | .advance, s => hwAdvance s
  | .interrupt rounds, s => athUapsdProcesstriggers rounds s
  | .tasklet rounds, s => athTgtRxTasklet rounds s
  | .complete i, s => complete s i

/-- The receive path after `ath_desc_alloc` and the creation of its pool. -/
def attach (cfg : Config) : RxState where
  cfg := cfg
  desc := fun ds => { dsLink := if ds + 1 < cfg.numrxdescs then some (ds + 1) else none }
  nbuf := fun _ => {}
  scRxdesc := List.range cfg.numrxdescs
  scRxdescIdle := []
  scRxdescHeld := none
  scRxlink := none
  pool := (List.range cfg.numrxdescs).reverse
  scRxbuf := List.replicate cfg.numrxdescs {}
  inTransfer := []
  rxdp := none
  rxEnabled := false
  received := []
  handed := []

/-- The receive path from its attachment on. -/
def receive : Machine RxState Event :=
  .ofPartial (fun s => ∃ cfg, s = attach cfg) step

end Ath9kHtc.Rx
