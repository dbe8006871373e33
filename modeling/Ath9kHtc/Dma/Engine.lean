import Ath9kHtc.Dma.Types
import Ath9kHtc.Lib.Chain

/-!
# The DMA engine

The functions of `desc.c`, `dma_engine.c` and `dma_lib.c` on a ring.  An operation is `none` where
the source follows a null or unset pointer, fails an assertion or does not return.
-/

namespace Ath9kHtc.Dma

/-! ## Descriptors and buffers -/

/-- `_vdesc_alloc_desc`; `none` for the null pointer. -/
def vdescAllocDesc (m : Memory) : Option (DescId × Memory) :=
  m.freeVdescHead.map fun d =>
    (d, { m with freeVdescHead := m.nextDesc d }.modVd d fun v => { v with nextDesc := none })

/-- `_vdesc_swap_vdesc`: all but the links. -/
def vdescSwapVdesc (dest src : DescId) (m : Memory) : Memory :=
  let a := m.vd dest
  let b := m.vd src
  (m.modVd dest fun v => { b with nextDesc := v.nextDesc }).modVd src
    fun v => { a with nextDesc := v.nextDesc }

/-- `_vbuf_alloc_vbuf`; `none` for the null pointer. -/
def vbufAllocVbuf (m : Memory) : Option (BufId × Memory) :=
  m.freeBufHead.map fun b =>
    (b, { m with freeBufHead := m.nextBuf b }.modVb b fun v => { v with nextBuf := none })

/-- `_vbuf_free_vbuf`. -/
def vbufFreeVbuf (b : BufId) (m : Memory) : Memory :=
  { m.modVb b fun v => { v with nextBuf := m.freeBufHead } with freeBufHead := some b }

/-- What `init_usb_desc` leaves. -/
def initUsbDesc : HwDesc := {}

/-! ## Packets on a ring -/

/-- `zfDmaGetPacket`. -/
def zfDmaGetPacket (q : Queue) (m : Memory) : Option (Option DescId × Queue) :=
  if q.head = q.terminator then some (none, q)
  else if (m.hw q.head).own.Completed then do
    let last ← (m.hw q.head).lastAddr
    let next ← m.nextAddr last
    some (some q.head, { q with head := next })
  else some (none, q)

/-- The descriptors from the first of a packet to its last. -/
def packetDescs (desc : DescId) (m : Memory) : Option (List DescId) :=
  walkUntil m.nextAddr (fun d => (m.hw desc).lastAddr = some d) m.nDesc desc

/-- The exchange of the terminator with the first descriptor of a packet, which ends both
`zfDmaPutPacket` and `zfDmaReclaimPacket`. -/
def exchange (q : Queue) (desc : DescId) (m : Memory) : Queue × Memory :=
  let tdesc := m.hw desc
  let m := m.modHw desc fun d => { d with own := .sw }
  let m := vdescSwapVdesc q.terminator desc m
  ({ q with terminator := desc }, m.modHw q.terminator fun _ => { tdesc with own := .hw })

/-- `zfDmaPutPacket`. -/
def zfDmaPutPacket (q : Queue) (desc : DescId) (m : Memory) : Option (Queue × Memory) := do
  let ds ← packetDescs desc m
  let m := { m with hw := writeAll (fun _ d => { d with own := .hw }) ds m.hw }
  let last ← (m.hw desc).lastAddr
  let m := m.modHw last (HwDesc.setNext (some desc))
  -- the copy in the terminator's place is then its own last descriptor
  let m := if last = desc then m.modHw desc fun d => { d with lastAddr := some q.terminator } else m
  some (exchange q desc m)

/-- `zfDmaReclaimPacket`. -/
def zfDmaReclaimPacket (q : Queue) (desc : DescId) (m : Memory) : Option (Queue × Memory) := do
  let ds ← packetDescs desc m
  let m := { m with
    hw := writeAll (fun _ d => { d with own := .hw, fs := false, ls := false, totalLen := 0 }) ds m.hw }
  let last ← (m.hw desc).lastAddr
  let m := m.modHw last (HwDesc.setNext (some desc))
  some (exchange q desc m)

/-- `relinkUSBDescToVdesc`. -/
def relinkUSBDescToVdesc (b : BufId) (desc : DescId) (m : Memory) : Option Memory := do
  let ds ← walkUpTo m.nextAddr (fun d => (m.hw d).ls) m.nDesc (some desc)
  let last ← ds.getLast?
  let m := m.modVb b fun v => { v with descList := some desc, bufLength := (m.hw desc).totalLen }
  let m := { m with
    vd := thread Vdesc.setNext (fun d v => { v with dataSize := (m.hw d).dataSize }) none ds m.vd }
  some (if (m.hw last).ls then m.modVd last (Vdesc.setNext none) else m)

/-! ## Queues -/

/-- `_DMAengine_init_rx_queue`; without a descriptor the queue is left without one. -/
def initRxQueue (m : Memory) : Option (Queue × Memory) := do
  let (desc, m) ← vdescAllocDesc m
  some (⟨desc, desc⟩, m.modHw desc fun _ => initUsbDesc)

/-- `_DMAengine_init_tx_queue`. -/
def initTxQueue (m : Memory) : Option (TxQueue × Memory) := do
  let (q, m) ← initRxQueue m
  some ({ q with xmitedBufHead := none, xmitedBufTail := none }, m)

/-- The descriptor `_DMAengine_xmit_buf` makes of a `VDESC`. -/
def xmitDesc (v : Vdesc) : HwDesc :=
  { initUsbDesc with dataSize := v.dataSize, dataAddr := v.bufAddr + v.dataOffset, own := .sw }

/-- The buffer queued behind `xmited_buf_tail`. -/
def pushXmited (q : TxQueue) (b : BufId) (m : Memory) : Option (TxQueue × Memory) :=
  if q.xmitedBufHead = none ∧ q.xmitedBufTail = none then
    some ({ q with xmitedBufHead := some b, xmitedBufTail := some b },
      m.modVb b fun v => { v with nextBuf := some b })
  else q.xmitedBufTail.map fun tail =>
    ({ q with xmitedBufTail := some b }, m.modVb tail fun v => { v with nextBuf := some b })

/-- The descriptors of a packet written one after the other, and the marks on its first and its
last. -/
def writePacket (ds : List DescId) (head last : DescId) (bufLength : ℕ) (m : Memory) : Memory :=
  let m := { m with hw := thread HwDesc.setNext (fun d _ => xmitDesc (m.vd d)) none ds m.hw }
  let m := m.modHw head fun d => { d with fs := true, totalLen := bufLength }
  let m := m.modHw last fun d => { d with ls := true }
  m.modHw head fun d => { d with lastAddr := some last }

/-- `_DMAengine_xmit_buf`. -/
def xmitBuf (q : TxQueue) (b : BufId) (m : Memory) : Option (TxQueue × Memory) := do
  let ds ← walkUpTo m.nextDesc (fun _ => false) m.nDesc (m.vb b).descList
  let head ← ds.head?
  let last ← ds.getLast?
  let (q, m) ← pushXmited q b (writePacket ds head last (m.vb b).bufLength m)
  let (ring, m) ← zfDmaPutPacket q.toQueue head m
  some ({ q with toQueue := ring }, m)

/-- The buffer taken from `xmited_buf_head`. -/
def popXmited (q : TxQueue) (m : Memory) : Option (BufId × TxQueue × Memory) :=
  q.xmitedBufHead.map fun sentBuf =>
    (sentBuf,
      if q.xmitedBufHead = q.xmitedBufTail then
        { q with xmitedBufHead := none, xmitedBufTail := none }
      else { q with xmitedBufHead := m.nextBuf sentBuf },
      m.modVb sentBuf fun v => { v with nextBuf := none })

/-- `_DMAengine_reap_xmited_buf`. -/
def reapXmitedBuf (q : TxQueue) (m : Memory) : Option (Option BufId × TxQueue × Memory) := do
  let (desc, ring) ← zfDmaGetPacket q.toQueue m
  match desc with
  | none => some (none, q, m)
  | some desc =>
    let (sentBuf, q, m) ← popXmited { q with toQueue := ring } m
    let m ← relinkUSBDescToVdesc sentBuf desc m
    some (some sentBuf, q, m)

/-- `__dma_flush_xmit`; the pointer it gives the hardware is the terminator. -/
def dmaFlushXmit (q : TxQueue) (m : Memory) : Option (DescId × Memory) := do
  let ds ← walkUntil m.nextAddr (fun d => d = q.terminator) m.nDesc q.head
  some (q.terminator, { m with hw := writeAll (fun _ d => { d with own := .sw }) ds.dropLast m.hw })

/-- `_DMAengine_has_compl_packets`. -/
def hasComplPackets (q : Queue) (m : Memory) : Bool :=
  decide (q.head ≠ q.terminator ∧ (m.hw q.head).own ≠ .hw)

/-- `_DMAengine_reap_recv_buf`. -/
def reapRecvBuf (q : Queue) (m : Memory) : Option (Option BufId × Queue × Memory) := do
  let (desc, ring) ← zfDmaGetPacket q m
  match desc with
  | none => some (none, q, m)
  | some desc =>
    let (buf, m) ← vbufAllocVbuf m
    let m ← relinkUSBDescToVdesc buf desc m
    some (some buf, ring, m)

/-- The descriptor `config_queue` makes of a `VDESC`. -/
def recvDesc (v : Vdesc) : HwDesc :=
  { initUsbDesc with dataAddr := v.bufAddr + v.dataOffset, dataSize := v.bufSize }

/-- `config_queue`. -/
def configQueue (q : Queue) (descList : Option DescId) (m : Memory) : Option (Queue × Memory) := do
  let ds ← walkUpTo m.nextDesc (fun _ => false) m.nDesc descList
  let head ← ds.head?
  let last ← ds.getLast?
  let m := { m with vd := writeAll (fun _ v => { v with dataOffset := 0 }) ds m.vd }
  let m := { m with hw := thread HwDesc.setNext (fun d _ => recvDesc (m.vd d)) none ds m.hw }
  let m := m.modHw head fun d => { d with lastAddr := some last }
  zfDmaReclaimPacket q head m

/-- `_DMAengine_return_recv_buf`. -/
def returnRecvBuf (q : Queue) (b : BufId) (m : Memory) : Option (Queue × Memory) := do
  let (q, m) ← configQueue q (m.vb b).descList m
  some (q, vbufFreeVbuf b m)

/-- The descriptors `_DMAengine_config_rx_queue` allocates for the buffers at `addrs`, each put
before the ones there are. -/
def allocBufs (bufSize : ℕ) : List ℕ → Option DescId → Memory → Option (Option DescId × Memory)
  | [], head, m => some (head, m)
  | addr :: addrs, head, m => do
    let (desc, m) ← vdescAllocDesc m
    allocBufs bufSize addrs (some desc) (m.modVd desc fun _ => ⟨head, addr, bufSize, 0, 0, 0⟩)

/-- `_DMAengine_config_rx_queue`, for as many descriptors as `adf_os_mem_alloc` gives buffers. -/
def configRxQueue (q : Queue) (addrs : List ℕ) (bufSize : ℕ) (m : Memory) :
    Option (Queue × Memory) := do
  let (head, m) ← allocBufs bufSize addrs none m
  configQueue q head m

end Ath9kHtc.Dma
