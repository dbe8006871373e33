import Ath9kHtc.Usb.RegOut

/-!
# Events on endpoint 3

The event queue of `HIF_usb.c`, and `usb_status_in_patch`, which sends an event to the host packet
by packet.
-/

namespace Ath9kHtc.Usb

def usbEp3MaxPktSize : ℕ := 64

/-- `VBUF_GET_DATA_ADDR` -/
def Vbuf.dataAddr (v : Vbuf) : ℕ := v.bufAddr + v.dataOffset

/-- The event queue, the static variables of `usb_status_in_patch`, and what the registers have
been given: the bytes of the packet under way, the packets, and the calls of `send_event_done`. -/
structure StatusFifo where
  vbuf : VbufId → Vbuf
  mem : ℕ → BitVec 8
  head : Option VbufId
  tail : Option VbufId
  intEnabled : Bool
  bufLen : ℕ
  evntbuf : Option VbufId
  regaddr : ℕ
  cmdIsNew : Bool
  /-- How many bytes of a word `ZM_CBUS_FIFO_SIZE_OFFSET` lets into the FIFO. -/
  fifoSize : ℕ
  fifo : List (BitVec 8)
  packets : List (List (BitVec 8))
  done : List VbufId

namespace StatusFifo

def next (s : StatusFifo) (b : VbufId) : Option VbufId := (s.vbuf b).nextBuf

def setNext (s : StatusFifo) (b : VbufId) (n : Option VbufId) : StatusFifo :=
  { s with vbuf := Function.update s.vbuf b { s.vbuf b with nextBuf := n } }

/-- The bytes of the event in a buffer. -/
def event (s : StatusFifo) (b : VbufId) : List (BitVec 8) :=
  Memory.fetch s.mem (s.vbuf b).dataAddr (s.vbuf b).bufLength

end StatusFifo

/-! ## The event queue -/

/-- `send_buffer_via_fifo`; it is `none` where the tail is a null pointer. -/
def sendBufferViaFifo (s : StatusFifo) (b : VbufId) : Option StatusFifo :=
  match s.head with
  | none => some { s with head := some b, tail := some b, intEnabled := true }
  | some _ =>
    s.tail.map fun tail => { s.setNext tail (some b) with tail := some b, intEnabled := true }

/-- `usbfifo_get_event_buf`; on an empty queue it writes through the null pointer. -/
def usbfifoGetEventBuf (s : StatusFifo) : Option (VbufId × StatusFifo) :=
  s.head.map fun buf =>
    let s :=
      if s.head = s.tail then { s with head := none, tail := none }
      else { s with head := s.next buf }
    (buf, s.setNext buf none)

/-! ## Packets -/

/-- A write of the word at `regaddr` to the FIFO. -/
def writeFifo (s : StatusFifo) : StatusFifo :=
  { s with fifo := s.fifo ++ Memory.fetch s.mem s.regaddr s.fifoSize }

def writeWord (s : StatusFifo) : StatusFifo :=
  { writeFifo s with regaddr := s.regaddr + 4 }

/-- The bytes left over after the words. -/
def writeRemainder (s : StatusFifo) (remainder : ℕ) : StatusFifo :=
  if remainder = 0 then s
  else { writeFifo { s with fifoSize := remainder } with fifoSize := 4 }

/-- `mUSB_EP3_XFER_DONE` -/
def xferDone (s : StatusFifo) : StatusFifo :=
  { s with packets := s.packets ++ [s.fifo], fifo := [] }

/-- The part of `usb_status_in_patch` that begins an event.  Where `get_event_buf` could return
null it has faulted before. -/
def beginEvent (s : StatusFifo) : Option StatusFifo :=
  if s.cmdIsNew then
    (usbfifoGetEventBuf s).map fun (b, s) =>
      { s with
        evntbuf := some b
        regaddr := (s.vbuf b).dataAddr
        bufLen := (s.vbuf b).bufLength
        cmdIsNew := false }
  else some s

/-- A packet of `regBufLen` bytes. -/
def sendPacket (s : StatusFifo) (regBufLen : ℕ) : StatusFifo :=
  xferDone (writeRemainder (Nat.iterate writeWord (regBufLen / 4) s) (regBufLen % 4))

/-- The rest of it.  What `send_event_done` leads to does not depend on `cmd_is_new`, which is set
after it. -/
def sendEvent (s : StatusFifo) : StatusFifo :=
  if usbEp3MaxPktSize < s.bufLen then
    sendPacket { s with bufLen := s.bufLen - usbEp3MaxPktSize } usbEp3MaxPktSize
  else
    let s := sendPacket s s.bufLen
    match s.evntbuf with
    | none => s
    | some b => { s with done := s.done ++ [b], cmdIsNew := true }

def usbStatusInPatch (s : StatusFifo) : Option StatusFifo := (beginEvent s).map sendEvent

/-! ## The machine -/

/-- The endpoint with the events in the order they were queued in, and the number of
interrupts. -/
structure Ep3 where
  usb : StatusFifo
  queued : List (VbufId × List (BitVec 8))
  interrupts : ℕ

/-- The events that `send_event_done` has not been called for. -/
def Ep3.pending (m : Ep3) : List (VbufId × List (BitVec 8)) := m.queued.drop m.usb.done.length

def Ep3.inUse (m : Ep3) : List VbufId := m.pending.map Prod.fst

inductive StatusEvent
  /-- Who holds a buffer puts an event into it. -/
  | prepare (b : VbufId) (v : Vbuf) (data : List (BitVec 8))
  | send (b : VbufId)
  | statusIn

/-- The buffer is not in use, its length is of 16 bits, and the bytes written are not those of
an event in use. -/
def MayPrepare (m : Ep3) (b : VbufId) (v : Vbuf) (data : List (BitVec 8)) : Prop :=
  b ∉ m.inUse ∧ v.bufLength < 65536 ∧
    ∀ u ∈ m.inUse, v.dataAddr + data.length ≤ (m.usb.vbuf u).dataAddr ∨
      (m.usb.vbuf u).dataAddr + (m.usb.vbuf u).bufLength ≤ v.dataAddr

instance (m : Ep3) (b : VbufId) (v : Vbuf) (data : List (BitVec 8)) :
    Decidable (MayPrepare m b v data) := inferInstanceAs (Decidable (_ ∧ _ ∧ _))

def prepareEvent (s : StatusFifo) (b : VbufId) (v : Vbuf) (data : List (BitVec 8)) :
    StatusFifo :=
  { s with vbuf := Function.update s.vbuf b v, mem := Memory.store s.mem v.dataAddr data }

def stepStatus : StatusEvent → Ep3 → Option Ep3
  | .prepare b v data, m =>
    if MayPrepare m b v data then some { m with usb := prepareEvent m.usb b v data } else none
  | .send b, m =>
    if b ∈ m.inUse then none
    else
      (sendBufferViaFifo m.usb b).map fun usb =>
        { m with usb := usb, queued := m.queued ++ [(b, m.usb.event b)] }
  | .statusIn, m =>
    (usbStatusInPatch m.usb).map fun usb =>
      { m with usb := usb, interrupts := m.interrupts + 1 }

/-- The endpoint with an empty queue. -/
def freshStatus (mem : ℕ → BitVec 8) : Ep3 where
  usb :=
    { vbuf := fun _ => ⟨0, 0, 0, 0, 0, 0, none⟩, mem := mem, head := none, tail := none
      intEnabled := false, bufLen := 0, evntbuf := none, regaddr := 0, cmdIsNew := true
      fifoSize := 4, fifo := [], packets := [], done := [] }
  queued := []
  interrupts := 0

/-- Endpoint 3 from the initialisation of the queue on. -/
def ep3 : Machine Ep3 StatusEvent := .ofPartial (fun m => ∃ mem, m = freshStatus mem) stepStatus

/-- An interrupt finds an event under way or in the queue. -/
def Supplied (m : Ep3) : StatusEvent → Prop
  | .prepare .. => True
  | .send _ => True
  | .statusIn => m.usb.cmdIsNew = false ∨ m.usb.head ≠ none

instance (m : Ep3) : ∀ e, Decidable (Supplied m e)
  | .prepare .. => .isTrue trivial
  | .send _ => .isTrue trivial
  | .statusIn => inferInstanceAs (Decidable (_ ∨ _))

end Ath9kHtc.Usb
