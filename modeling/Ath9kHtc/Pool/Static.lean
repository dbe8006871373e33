import Ath9kHtc.Lib.Run
import Ath9kHtc.Pool.Nbuf

/-!
# Buffer pools

The pools of `buf_pool_static.c`, the ways of a buffer to the host, and the users of the pools: the
control messages of HTC, the events and replies of WMI, and the receive path.  An operation is
`none` where the source follows a null pointer, fails an assertion or does not return.
-/

namespace Ath9kHtc.Pool

open Dma

/-- The pools of `BUF_POOL_ID`. -/
inductive PoolId
  | htcControl | wmiSvcCmdReply | wmiSvcEvent | wlanRxBuf
  deriving DecidableEq, Repr

/-- `WMI_EVT_CLASS` -/
inductive EvtClass
  | none | cmdEvent | cmdReply
  deriving DecidableEq, Repr

/-- A pipe to the host: `HIF_USB_PIPE_INTERRUPT`, or one that works by DMA. -/
inductive Pipe
  | interrupt | dma
  deriving DecidableEq, Repr

abbrev EndpointId := ℕ

def endpoint0 : EndpointId := 0

def rxEndpointId : EndpointId := 3

def htcHdrLength : ℕ := 8

def wmiCmdHdrLength : ℕ := 4

/-- The size of `rx_frame_header`. -/
def rxFrameHeaderLength : ℕ := 40

def poolIds : List PoolId := [.htcControl, .wmiSvcCmdReply, .wmiSvcEvent, .wlanRxBuf]

/-- The numbers of `VBUF`s and `VDESC`s, the storage `adf_os_mem_alloc` gives each pool, and the
endpoint of the WMI control service; endpoint 0 is never given to a service. -/
structure Config where
  nBuf : ℕ
  nDesc : ℕ
  storage : PoolId → List ℕ
  controlEp : EndpointId
  nBuf_pos : 0 < nBuf
  nDesc_pos : 0 < nDesc
  distinct : (poolIds.flatMap storage).Nodup
  controlEp_ne : controlEp ≠ endpoint0

/-- The buffers, the pools of `g_poolCtx`, and the two queues to the host: that of the DMA engine
with the hardware's pointer, and `eventBufQ`. -/
structure Bufs where
  mem : Memory
  bufQ : PoolId → Option BufId
  upQ : TxQueue
  txDesc : DescId
  eventHead : Option BufId
  eventTail : Option BufId

/-! ## The pools -/

/-- `_buf_pool_static_alloc_buf`, with the null pointer for an empty pool. -/
def bufPoolStaticAllocBuf (poolId : PoolId) (reserve : ℕ) (s : Bufs) :
    Option (Option BufId × Bufs) :=
  match s.bufQ poolId with
  | none => some (none, s)
  | some buf =>
    (s.mem.vb buf).descList.map fun desc =>
      (some buf, { s with
        bufQ := Function.update s.bufQ poolId (s.mem.nextBuf buf)
        mem := (s.mem.modVb buf fun v => { v with nextBuf := none, bufLength := 0 }).modVd desc
          fun v => { v with dataOffset := reserve, dataSize := 0 } })

/-- `_buf_pool_static_free_buf`: on an empty pool the link is not written. -/
def bufPoolStaticFreeBuf (poolId : PoolId) (buf : Option BufId) (s : Bufs) : Option Bufs :=
  match s.bufQ poolId with
  | none => some { s with bufQ := Function.update s.bufQ poolId buf }
  | some head => buf.map fun buf => { s with
      mem := s.mem.modVb buf fun v => { v with nextBuf := some head }
      bufQ := Function.update s.bufQ poolId (some buf) }

/-- `_buf_pool_static_create_pool`, for the storage at these addresses. -/
def bufPoolStaticCreatePool (poolId : PoolId) (nSize : ℕ) : List ℕ → Bufs → Option Bufs
  | [], s => some s
  | addr :: addrs, s => do
    let (buf, m) ← vbufAllocVbuf s.mem
    let (desc, m) ← vdescAllocDesc m
    let m := m.modVd desc fun v =>
      { v with bufAddr := addr, bufSize := nSize, dataOffset := 0, dataSize := 0 }
    let m := m.modVb buf fun v => { v with bufLength := 0, descList := some desc }
    let s ← bufPoolStaticFreeBuf poolId (some buf) { s with mem := m }
    bufPoolStaticCreatePool poolId nSize addrs s

/-! ## The data of a buffer -/

/-- `__adf_nbuf_push_head` -/
def adfNbufPushHead (buf : BufId) (len : ℕ) (m : Memory) : Option Memory :=
  (m.vb buf).descList.map fun desc =>
    (m.modVd desc fun v => { v with
      dataOffset := (v.dataOffset + 65536 - len) % 65536
      dataSize := (v.dataSize + len) % 65536 }).modVb buf
      fun v => { v with bufLength := (v.bufLength + len) % 65536 }

/-- `__adf_nbuf_pull_head` -/
def adfNbufPullHead (buf : BufId) (len : ℕ) (m : Memory) : Option Memory :=
  (m.vb buf).descList.map fun desc =>
    (m.modVd desc fun v => { v with
      dataOffset := (v.dataOffset + len) % 65536
      dataSize := (v.dataSize + 65536 - len) % 65536 }).modVb buf
      fun v => { v with bufLength := (v.bufLength + 65536 - len) % 65536 }

/-- `__adf_nbuf_put_tail` -/
def adfNbufPutTail (buf : BufId) (len : ℕ) (m : Memory) : Option Memory := do
  let ds ← walkUpTo m.nextDesc (fun _ => false) m.nDesc (m.vb buf).descList
  let last ← ds.getLast?
  some ((m.modVd last fun v => { v with dataSize := (v.dataSize + len) % 65536 }).modVb buf
    fun v => { v with bufLength := (v.bufLength + len) % 65536 })

/-! ## To the host -/

/-- `send_buffer_via_fifo` -/
def sendBufferViaFifo (buf : BufId) (s : Bufs) : Option Bufs :=
  match s.eventHead with
  | none => some { s with eventHead := some buf, eventTail := some buf }
  | some _ => s.eventTail.map fun tail => { s with
      mem := s.mem.modVb tail fun v => { v with nextBuf := some buf }
      eventTail := some buf }

/-- `usbfifo_get_event_buf` -/
def usbfifoGetEventBuf (s : Bufs) : Option (BufId × Bufs) :=
  s.eventHead.map fun buf =>
    let s' := if s.eventHead = s.eventTail then { s with eventHead := none, eventTail := none }
      else { s with eventHead := s.mem.nextBuf buf }
    (buf, { s' with mem := s.mem.modVb buf fun v => { v with nextBuf := none } })

/-- `_DMAengine_xmit_buf` of the queue to the host. -/
def xmitUp (buf : BufId) (s : Bufs) : Option Bufs :=
  (xmitBuf s.upQ buf s.mem).map fun (q, m) => { s with upQ := q, mem := m }

/-- `_HIFusb_send_buffer` -/
def hifUsbSendBuffer (pipe : Pipe) (buf : BufId) (s : Bufs) : Option Bufs :=
  match pipe with
  | .interrupt => sendBufferViaFifo buf s
  | .dma => xmitUp buf s

/-- `_DMAengine_reap_xmited_buf` of the queue to the host. -/
def reapUp (s : Bufs) : Option (Option BufId × Bufs) :=
  (reapXmitedBuf s.upQ s.mem).map fun (buf, q, m) => (buf, { s with upQ := q, mem := m })

/-- The hardware completes a packet of the queue to the host, which it finds by the marks on its
descriptors. -/
def completeUp (o : Own) (s : Bufs) : Option Bufs :=
  if o.Completed ∧ (s.mem.hw s.txDesc).own = .hw then do
    let ds ← walkUntil s.mem.nextAddr (fun d => (s.mem.hw d).ls) s.mem.nDesc s.txDesc
    let last ← ds.getLast?
    let next ← s.mem.nextAddr last
    some { s with
      mem := { s.mem with hw := writeAll (fun _ d => { d with own := o }) ds s.mem.hw }
      txDesc := next }
  else none

/-! ## The users of the pools -/

/-- What is read of the context of a buffer when it comes back. -/
structure BufContext where
  endPoint : EndpointId := endpoint0
  eventClass : EvtClass := .none
  deriving DecidableEq, Repr

/-- The buffers with their contexts, the event that is on its way through the FIFO, the receive
descriptors with their buffers, and the frames of `sc_rxbuf` that are done, in their order. -/
structure Firmware extends Bufs where
  cfg : Config
  ctx : BufId → BufContext
  evntbuf : Option BufId
  dsNbuf : ℕ → Option BufId
  scRxdesc : List ℕ
  scRxdescIdle : List ℕ
  scRxdescHeld : Option ℕ
  frames : List BufId

/-- `_HTC_SendMsg` on an endpoint with its pipe, with a trailer of some length. -/
def htcSendMsg (endpointId : EndpointId) (pipe : Pipe) (trailer : ℕ) (buf : BufId)
    (s : Firmware) : Option Firmware := do
  let m ← adfNbufPushHead buf htcHdrLength s.mem
  let m ← if trailer = 0 then some m else adfNbufPutTail buf trailer m
  let bufs ← hifUsbSendBuffer pipe buf { s.toBufs with mem := m }
  some { s with
    toBufs := bufs
    ctx := Function.update s.ctx buf { s.ctx buf with endPoint := endpointId } }

/-- A control message is put together in a buffer of `HTCAllocMsgBuffer` and sent; a credit report
is put off while there is none. -/
def htcSendControl (pipe : Pipe) (len trailer : ℕ) (s : Firmware) : Option Firmware := do
  let (buf, bufs) ← bufPoolStaticAllocBuf .htcControl htcHdrLength s.toBufs
  match buf with
  | none => some s
  | some buf =>
    let m ← adfNbufPutTail buf len bufs.mem
    htcSendMsg endpoint0 pipe trailer buf { s with toBufs := { bufs with mem := m } }

/-- The pool of the buffers of a class. -/
def EvtClass.poolId : EvtClass → PoolId
  | .cmdEvent => .wmiSvcEvent
  | _ => .wmiSvcCmdReply

/-- `_WMI_AllocEvent` and `_WMI_SendEvent`; nothing is sent where there is no buffer. -/
def wmiSendEvent (eventClass : EvtClass) (pipe : Pipe) (len trailer : ℕ) (s : Firmware) :
    Option Firmware := do
  let (buf, bufs) ← bufPoolStaticAllocBuf eventClass.poolId (wmiCmdHdrLength + htcHdrLength) s.toBufs
  match buf with
  | none => some s
  | some buf =>
    let m ← adfNbufPutTail buf len bufs.mem
    let m ← adfNbufPushHead buf wmiCmdHdrLength m
    htcSendMsg s.cfg.controlEp pipe trailer buf { s with
      toBufs := { bufs with mem := m }
      ctx := Function.update s.ctx buf { s.ctx buf with eventClass := eventClass } }

/-- `ath_rxdesc_init`: whether it returns 0. -/
def athRxdescInit (ds : ℕ) (s : Firmware) : Option (Bool × Firmware) :=
  match s.scRxdescHeld with
  | none => some (true, { s with scRxdescHeld := some ds })
  | some held =>
    match s.dsNbuf held with
    | some _ => some (true, { s with scRxdescHeld := some ds })
    | none => do
      let (buf, bufs) ←
        bufPoolStaticAllocBuf .wlanRxBuf (htcHdrLength + rxFrameHeaderLength) s.toBufs
      match buf with
      | none => some (false, s)
      | some buf => some (true, { s with
          toBufs := bufs
          scRxdescHeld := some ds
          dsNbuf := Function.update s.dsNbuf held (some buf) })

/-- The loop of `ath_startrecv`; it ends with the first descriptor that cannot be armed. -/
def startrecvLoop : List ℕ → Firmware → Option Firmware
  | [], s => some s
  | ds :: rest, s => do
    let (ok, s) ← athRxdescInit ds s
    if ok then startrecvLoop rest s else some s

/-- `ath_startrecv` -/
def athStartrecv (s : Firmware) : Option Firmware :=
  startrecvLoop s.scRxdesc { s with scRxdescHeld := none }

/-- `ath_uapsd_processtriggers` takes a descriptor off that has lost its buffer. -/
def recycleRxdesc (ds : ℕ) (s : Firmware) : Option Firmware := do
  let (ok, s) ← athRxdescInit ds s
  if ok then some { s with scRxdesc := s.scRxdesc.erase ds ++ [ds] }
  else some { s with
    scRxdesc := s.scRxdesc.erase ds
    scRxdescIdle := s.scRxdescIdle ++ [ds] }

/-- The buffers of the first descriptors go into a queue; behind the last there must be one more
descriptor. -/
def queueRxbufs : ℕ → NbufQueue → Firmware → Option (NbufQueue × Firmware)
  | 0, qhead, s => some (qhead, s)
  | n + 1, qhead, s =>
    match s.scRxdesc with
    | ds :: _ :: _ => do
      let buf ← s.dsNbuf ds
      let (qhead, m) ← adfNbufQueueAdd qhead buf s.mem
      let s ← recycleRxdesc ds { s with
        mem := m
        dsNbuf := Function.update s.dsNbuf ds none }
      queueRxbufs n qhead s
    | _ => none

/-- A frame that ends in the last of the first `n` descriptors. -/
def athRxFrame (n : ℕ) (s : Firmware) : Option Firmware := do
  let (qhead, s) ← queueRxbufs n {} s
  let (skb, _, m) ← adfNbufCreateFrmFrag qhead s.mem
  some { s with mem := m, frames := s.frames ++ [skb] }

/-- The buffers of the first descriptors are freed, where a packet takes too many. -/
def dropRxbufs : ℕ → Firmware → Option Firmware
  | 0, s => some s
  | n + 1, s =>
    match s.scRxdesc with
    | ds :: _ :: _ => do
      let bufs ← bufPoolStaticFreeBuf .wlanRxBuf (s.dsNbuf ds) s.toBufs
      let s ← recycleRxdesc ds { s with
        toBufs := bufs
        dsNbuf := Function.update s.dsNbuf ds none }
      dropRxbufs n s
    | _ => none

/-- `ath_uapsd_processtriggers` notes the length of the data in a buffer. -/
def noteRxdata (ds len : ℕ) (s : Firmware) : Option Firmware := do
  let buf ← s.dsNbuf ds
  if (s.mem.vb buf).bufLength = 0 then
    (adfNbufPutTail buf len s.mem).map fun m => { s with mem := m }
  else some s

/-- `ath_tgt_rx_tasklet` sends the first frame. -/
def sendRxFrame (pipe : Pipe) (trailer : ℕ) (s : Firmware) : Option Firmware :=
  match s.frames with
  | [] => none
  | skb :: frames => do
    let m ← adfNbufPushHead skb rxFrameHeaderLength s.mem
    htcSendMsg rxEndpointId pipe trailer skb { s with mem := m, frames := frames }

/-- `ath_flushrecv_tgt`: for every frame a null pointer is freed, as the queue `bf_skbhead` is always
empty, and the frame is forgotten. -/
def athFlushrecvTgt (s : Firmware) : Option Firmware :=
  if s.frames = [] then some s
  else (bufPoolStaticFreeBuf .wlanRxBuf none s.toBufs).map fun bufs =>
    { s with toBufs := bufs, frames := [] }

/-- The loop of `ath_rx_complete`. -/
def rxCompleteLoop : List ℕ → NbufQueue → Firmware → Option Firmware
  | [], _, s => some s
  | ds :: idle, qhead, s =>
    match adfNbufQueueRemove qhead s.mem with
    | none => some s
    | some (buf, qhead, m) => do
      let bufs ← bufPoolStaticFreeBuf .wlanRxBuf (some buf) { s.toBufs with mem := m }
      let (_, s) ← athRxdescInit ds { s with toBufs := bufs }
      rxCompleteLoop idle qhead { s with
        scRxdescIdle := s.scRxdescIdle.erase ds
        scRxdesc := s.scRxdesc ++ [ds] }

/-- `ath_rx_complete` -/
def athRxComplete (buf : BufId) (s : Firmware) : Option Firmware := do
  let (qhead, m) ← adfNbufSplitToFrag buf s.mem
  rxCompleteLoop s.scRxdescIdle qhead { s with mem := m }

/-- `_WMI_SendCompleteHandler` -/
def wmiSendCompleteHandler (buf : BufId) (s : Firmware) : Option Firmware :=
  (bufPoolStaticFreeBuf (s.ctx buf).eventClass.poolId (some buf) s.toBufs).map fun bufs =>
    { s with toBufs := bufs }

/-- `HTCControlSvcProcessSendComplete`; a credit report that follows is another message. -/
def htcControlSvcProcessSendComplete (buf : BufId) (s : Firmware) : Option Firmware :=
  (bufPoolStaticFreeBuf .htcControl (some buf) s.toBufs).map fun bufs => { s with toBufs := bufs }

/-- `HTCSendDoneHandler`; the services but those of the control endpoints are the WLAN's. -/
def htcSendDoneHandler (buf : BufId) (s : Firmware) : Option Firmware := do
  let m ← adfNbufPullHead buf htcHdrLength s.mem
  let s := { s with mem := m }
  if (s.ctx buf).endPoint = endpoint0 then htcControlSvcProcessSendComplete buf s
  else if (s.ctx buf).endPoint = s.cfg.controlEp then wmiSendCompleteHandler buf s
  else if (s.ctx buf).endPoint = rxEndpointId then athRxComplete buf s
  else some s

/-! ## The machine -/

/-- `_vbuf_init` -/
def vbufInit (nBuf : ℕ) (m : Memory) : Memory :=
  let m := { m.modVb 0 fun v => { v with nextBuf := none, descList := none } with
    freeBufHead := some 0 }
  (List.range' 1 (nBuf - 1)).foldl (fun m b =>
    { m.modVb b fun v => { v with descList := none, nextBuf := m.freeBufHead } with
      freeBufHead := some b }) m

/-- `_vdesc_init` -/
def vdescInit (nDesc : ℕ) (m : Memory) : Memory :=
  let m := { m.modVd 0 fun v => { v with nextDesc := none, control := 0 } with
    freeVdescHead := some 0 }
  (List.range' 1 (nDesc - 1)).foldl (fun m d =>
    { m.modVd d fun v => { v with control := 0, nextDesc := m.freeVdescHead } with
      freeVdescHead := some d }) m

/-- The firmware after its pools and its queues were set up. -/
def attach (cfg : Config) : Option Firmware := do
  let blank : Memory := ⟨fun _ => {}, fun _ => {}, fun _ => {}, cfg.nDesc, none, none⟩
  let (q, m) ← initTxQueue (vdescInit cfg.nDesc (vbufInit cfg.nBuf blank))
  let bufs : Bufs := ⟨m, fun _ => none, q, q.head, none, none⟩
  let bufs ← bufPoolStaticCreatePool .wmiSvcCmdReply 112 (cfg.storage .wmiSvcCmdReply) bufs
  let bufs ← bufPoolStaticCreatePool .wmiSvcEvent 112 (cfg.storage .wmiSvcEvent) bufs
  let bufs ← bufPoolStaticCreatePool .wlanRxBuf 1664 (cfg.storage .wlanRxBuf) bufs
  let bufs ← bufPoolStaticCreatePool .htcControl 64 (cfg.storage .htcControl) bufs
  some { bufs with
    cfg := cfg
    ctx := fun _ => {}
    evntbuf := none
    dsNbuf := fun _ => none
    scRxdesc := List.range (cfg.storage .wlanRxBuf).length
    scRxdescIdle := []
    scRxdescHeld := none
    frames := [] }

inductive Event
  | sendControl (pipe : Pipe) (len trailer : ℕ)
  | sendEvent (eventClass : EvtClass) (pipe : Pipe) (len trailer : ℕ)
  | startRecv
  | flushRecv
  /-- `ath_uapsd_processtriggers` finds data, a frame and a packet that is too long. -/
  | rxData (ds len : ℕ)
  | rxFrame (n : ℕ)
  | rxDrop (n : ℕ)
  | sendFrame (pipe : Pipe) (trailer : ℕ)
  /-- The hardware completes a packet, and the completed one is reaped. -/
  | complete (o : Own)
  | reap
  /-- `usb_status_in` takes an event, and is done with it. -/
  | takeEvent
  | eventDone
  deriving DecidableEq, Repr

def step : Event → Firmware → Option Firmware
  | .sendControl pipe len trailer, s => htcSendControl pipe len trailer s
  | .sendEvent eventClass pipe len trailer, s => wmiSendEvent eventClass pipe len trailer s
  | .startRecv, s => athStartrecv s
  | .flushRecv, s => athFlushrecvTgt s
  | .rxData ds len, s => noteRxdata ds len s
  | .rxFrame n, s => athRxFrame n s
  | .rxDrop n, s => dropRxbufs n s
  | .sendFrame pipe trailer, s => sendRxFrame pipe trailer s
  | .complete o, s => (completeUp o s.toBufs).map fun bufs => { s with toBufs := bufs }
  | .reap, s => do
    let (buf, bufs) ← reapUp s.toBufs
    match buf with
    | none => some { s with toBufs := bufs }
    | some buf => htcSendDoneHandler buf { s with toBufs := bufs }
  | .takeEvent, s =>
    match s.evntbuf with
    | none => (usbfifoGetEventBuf s.toBufs).map fun (buf, bufs) =>
      { s with toBufs := bufs, evntbuf := some buf }
    | some _ => none
  | .eventDone, s => do
    let buf ← s.evntbuf
    htcSendDoneHandler buf { s with evntbuf := none }

/-- The users of the pools at work. -/
def pools : Machine Firmware Event := .ofPartial (fun s => ∃ cfg, attach cfg = some s) step

end Ath9kHtc.Pool
