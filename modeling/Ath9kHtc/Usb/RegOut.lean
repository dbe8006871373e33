import Ath9kHtc.Lib.Chain
import Ath9kHtc.Lib.Memory
import Ath9kHtc.Lib.Run
import Mathlib.Algebra.Ring.Nat

/-!
# Commands on endpoint 4

`usb_reg_out_patch` puts a command together from the packets of EP4, in a buffer of the command
queue of `HIF_usb.c`.  The buffers lie in one memory.
-/

namespace Ath9kHtc.Usb

abbrev VbufId := ℕ

def usbEp4MaxPktSize : ℕ := 64

/-- `_HIFusb_get_max_msg_len_patch` for the command pipe. -/
def commandMsgLen : ℕ := 512

/-- A `VBUF` and its only `VDESC`. -/
structure Vbuf where
  bufAddr : ℕ
  bufSize : ℕ
  dataOffset : ℕ := 0
  dataSize : ℕ := 0
  control : ℕ := 0
  bufLength : ℕ := 0
  nextBuf : Option VbufId := none

/-- A packet: its length, and the bytes that reads of the FIFO give, whole words of them. -/
structure Packet where
  len : ℕ
  fifo : ℕ → BitVec 8

def Packet.bytes (p : Packet) : List (BitVec 8) := Memory.fetch p.fifo 0 p.len

/-- A call of `recv_command`, with what the buffer holds. -/
structure Command where
  buf : VbufId
  dataSize : ℕ
  data : List (BitVec 8)

/-- The command queue, and the static variables of `usb_reg_out_patch`. -/
structure UsbFifo where
  vbuf : VbufId → Vbuf
  mem : ℕ → BitVec 8
  cmdQueue : Option VbufId
  regaddr : ℕ
  cmdLen : ℕ
  buf : Option VbufId
  cmdIsNew : Bool
  received : List Command

namespace UsbFifo

def modVbuf (s : UsbFifo) (b : VbufId) (f : Vbuf → Vbuf) : UsbFifo :=
  { s with vbuf := Function.update s.vbuf b (f (s.vbuf b)) }

variable (s : UsbFifo) (b : VbufId) (f : Vbuf → Vbuf)

@[simp] theorem modVbuf_self : (s.modVbuf b f).vbuf b = f (s.vbuf b) :=
  Function.update_self ..

@[simp] theorem modVbuf_mem : (s.modVbuf b f).mem = s.mem := rfl

@[simp] theorem modVbuf_received : (s.modVbuf b f).received = s.received := rfl

theorem modVbuf_of_ne {c : VbufId} (h : c ≠ b) : (s.modVbuf b f).vbuf c = s.vbuf c :=
  Function.update_of_ne h ..

end UsbFifo

/-! ## The command queue -/

/-- `_HIFusb_return_recv_buf` for the command pipe; a buffer that comes to an empty queue keeps
its link. -/
def hifusbReturnRecvBuf (s : UsbFifo) (b : VbufId) : UsbFifo :=
  match s.cmdQueue with
  | none => { s with cmdQueue := some b }
  | some head =>
    { s.modVbuf b fun v => { v with nextBuf := some head } with cmdQueue := some b }

/-- `config_command_pipe`, which puts buffers on the queue in the same way. -/
def configCommandPipe : List VbufId → UsbFifo → UsbFifo
  | [], s => s
  | b :: bufs, s => configCommandPipe bufs (hifusbReturnRecvBuf s b)

/-- `usbfifo_get_command_buf`; an empty queue is a null dereference. -/
def usbfifoGetCommandBuf (s : UsbFifo) : Option (VbufId × UsbFifo) :=
  s.cmdQueue.map fun b =>
    (b, { s with cmdQueue := (s.vbuf b).nextBuf }.modVbuf b fun v => { v with nextBuf := none })

/-! ## Packets -/

/-- One round of the copy from the FIFO. -/
def copyWord (fifo : ℕ → BitVec 8) (s : UsbFifo) (ii : ℕ) : UsbFifo :=
  { s with
    mem := Memory.store s.mem s.regaddr (Memory.fetch fifo (4 * ii) 4)
    regaddr := s.regaddr + 4 }

def copyWords (fifo : ℕ → BitVec 8) (usbfifolen : ℕ) (s : UsbFifo) : UsbFifo :=
  (List.range usbfifolen).foldl (copyWord fifo) s

/-- The length of a packet in words. -/
def roundToWords (usbfifolen : ℕ) : ℕ :=
  if usbfifolen % 4 ≠ 0 then usbfifolen / 4 + 1 else usbfifolen / 4

/-- The end of a command: the buffer is filled in and goes to `recv_command`. -/
def finishCommand (s : UsbFifo) (b : VbufId) : UsbFifo :=
  let s := s.modVbuf b fun v =>
    { v with
      dataOffset := 0
      dataSize := s.cmdLen
      control := 0
      nextBuf := none
      bufLength := s.cmdLen }
  let v := s.vbuf b
  { s with
    received := s.received ++
      [⟨b, v.dataSize, Memory.fetch s.mem (v.bufAddr + v.dataOffset) v.dataSize⟩]
    cmdIsNew := true }

/-- The part of `usb_reg_out_patch` that begins a command. -/
def beginCommand (s : UsbFifo) : Option UsbFifo :=
  if s.cmdIsNew then
    (usbfifoGetCommandBuf s).map fun (b, s) =>
      { s with buf := some b, cmdLen := 0, regaddr := (s.vbuf b).bufAddr, cmdIsNew := false }
  else some s

/-- The rest of it, for a command in the buffer `b`. -/
def takePacket (p : Packet) (s : UsbFifo) (b : VbufId) : UsbFifo :=
  let cmdIsLast := p.len < usbEp4MaxPktSize
  let s := { s with cmdLen := (s.cmdLen + p.len) % 2 ^ 16 }
  if (s.vbuf b).bufSize < s.cmdLen then s
  else
    let s := copyWords p.fifo (roundToWords p.len) s
    if cmdIsLast then finishCommand s b else s

/-- `usb_reg_out_patch`; a packet that is too big makes it reboot. -/
def usbRegOutPatch (p : Packet) (s : UsbFifo) : Option UsbFifo :=
  if usbEp4MaxPktSize < p.len then none
  else
    (beginCommand s).map fun s =>
      match s.buf with
      | none => s
      | some b => takePacket p s b

/-! ## The machine -/

/-- Where the buffers lie: `HIF_config_pipe` gives each its own block of memory. -/
structure Layout where
  credits : ℕ
  bufAddr : VbufId → ℕ
  apart : ∀ a b, a < credits → b < credits → a ≠ b →
    bufAddr a + commandMsgLen ≤ bufAddr b ∨ bufAddr b + commandMsgLen ≤ bufAddr a

/-- The FIFO with the packets that have come so far, and the buffers that `recv_command` has
been given and that have not been returned. -/
structure Ep4 where
  usb : UsbFifo
  packets : List Packet
  held : List VbufId

inductive Event
  | packet (p : Packet)
  | useBuf (b : VbufId) (dataOffset dataSize : ℕ) (data : List (BitVec 8))
  | returnRecvBuf (b : VbufId)

/-- Who has been given a buffer works in it. -/
def useBuf (s : UsbFifo) (b : VbufId) (dataOffset dataSize : ℕ) (data : List (BitVec 8)) :
    UsbFifo :=
  { s.modVbuf b fun v => { v with dataOffset := dataOffset, dataSize := dataSize } with
    mem := Memory.store s.mem (s.vbuf b).bufAddr data }

/-- The buffers that `recv_command` is called with in a call of `usb_reg_out_patch`. -/
def newlyReceived (s s' : UsbFifo) : List VbufId :=
  (s'.received.drop s.received.length).map Command.buf

def step : Event → Ep4 → Option Ep4
  | .packet p, m =>
    (usbRegOutPatch p m.usb).map fun usb =>
      { usb := usb
        packets := m.packets ++ [p]
        held := newlyReceived m.usb usb ++ m.held }
  | .useBuf b dataOffset dataSize data, m =>
    if b ∈ m.held ∧ data.length ≤ (m.usb.vbuf b).bufSize then
      some { m with usb := useBuf m.usb b dataOffset dataSize data }
    else none
  | .returnRecvBuf b, m =>
    if b ∈ m.held then
      some { m with usb := hifusbReturnRecvBuf m.usb b, held := m.held.erase b }
    else none

/-- The FIFO before the command pipe is configured. -/
def blankFifo (L : Layout) (mem : ℕ → BitVec 8) : UsbFifo where
  vbuf := fun b => { bufAddr := L.bufAddr b, bufSize := commandMsgLen }
  mem := mem
  cmdQueue := none
  regaddr := 0
  cmdLen := 0
  buf := none
  cmdIsNew := true
  received := []

def attach (L : Layout) (mem : ℕ → BitVec 8) : Ep4 where
  usb := configCommandPipe (List.range L.credits) (blankFifo L mem)
  packets := []
  held := []

/-- Endpoint 4 from the configuration of the command pipe on. -/
def ep4 (L : Layout) : Machine Ep4 Event :=
  .ofPartial (fun m => ∃ mem, m = attach L mem) step

end Ath9kHtc.Usb
