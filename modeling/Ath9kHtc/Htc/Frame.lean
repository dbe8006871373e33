import Ath9kHtc.Lib.Memory
import Ath9kHtc.Htc.Core

/-!
# Frames on the wire

The bytes `_HTC_SendMsg` writes around the payload of a buffer, and how the host reads the frame.
-/

namespace Ath9kHtc.Htc

/-! ## Buffers -/

/-- `VDESC`, with the 16-bit fields as numbers: no field can wrap in a buffer that is in bounds. -/
structure Vdesc where
  bufAddr : ℕ
  bufSize : ℕ
  dataOffset : ℕ
  dataSize : ℕ

namespace Vdesc

def start (d : Vdesc) : ℕ := d.bufAddr + d.dataOffset

/-- The address behind the data. -/
def tail (d : Vdesc) : ℕ := d.start + d.dataSize

def limit (d : Vdesc) : ℕ := d.bufAddr + d.bufSize

def data (d : Vdesc) (mem : ℕ → BitVec 8) : List (BitVec 8) := Memory.fetch mem d.start d.dataSize

end Vdesc

/-- `VBUF` with its `desc_list`, which is never empty: the last descriptor and those in front. -/
structure Vbuf where
  front : List Vdesc
  last : Vdesc
  bufLength : ℕ

namespace Vbuf

def descList (b : Vbuf) : List Vdesc := b.front ++ [b.last]

def first (b : Vbuf) : Vdesc := b.front.head?.getD b.last

def bytes (b : Vbuf) (mem : ℕ → BitVec 8) : List (BitVec 8) :=
  b.descList.flatMap fun d => d.data mem

/-- The room in the buffer, as the credit code sees it. -/
def nbuf (b : Vbuf) : NBuf where
  headroom := b.first.dataOffset
  len := b.bufLength
  tailroom := b.last.bufSize - b.last.dataOffset - b.last.dataSize
  htcFlags := 0
  endPoint := 0
  payload := .empty

end Vbuf

def Vdesc.pushHead (d : Vdesc) (len : ℕ) : Vdesc :=
  { d with dataOffset := d.dataOffset - len, dataSize := d.dataSize + len }

def Vdesc.putTail (d : Vdesc) (len : ℕ) : Vdesc := { d with dataSize := d.dataSize + len }

/-- `__adf_nbuf_push_head` without the pointer it returns, which is the start of the data. -/
def adfNbufPushHead (b : Vbuf) (len : ℕ) : Vbuf :=
  let bufLength := (b.bufLength + len) % 65536
  match b.front with
  | [] => { b with last := b.last.pushHead len, bufLength := bufLength }
  | desc :: front => { b with front := desc.pushHead len :: front, bufLength := bufLength }

/-- `__adf_nbuf_put_tail` without the pointer it returns, which is the old tail. -/
def adfNbufPutTail (b : Vbuf) (len : ℕ) : Vbuf :=
  { b with last := b.last.putTail len, bufLength := (b.bufLength + len) % 65536 }

/-! ## `_HTC_SendMsg` -/

def htcRecordCredits : BitVec 8 := 1

/-- What the trailer loop works on, with the memory and the buffer it writes to. -/
structure Outgoing where
  trailer : Trailer
  mem : ℕ → BitVec 8
  buf : Vbuf

namespace Outgoing

def addReport (pRecHdr : ℕ) (o : Outgoing) (i : EndpointId) : Outgoing :=
  let pCreditRpt := o.buf.last.tail
  let mem := Memory.store o.mem pCreditRpt
    [BitVec.ofNat 8 i, BitVec.ofInt 8 (o.trailer.endpoints i).creditsToReturn]
  { trailer := o.trailer.addReport i
    mem := Function.update mem (pRecHdr + 1) (mem (pRecHdr + 1) + 2)
    buf := adfNbufPutTail o.buf sizeofCreditReport }

/-- The walk through the pending credits map. -/
def build (pRecHdr : ℕ) : List EndpointId → Outgoing → Outgoing
  | [], o => o
  | i :: is, o =>
    if o.trailer.creditsPendingMap = 0 ∨ o.trailer.room < sizeofCreditReport then o
    else if o.trailer.creditsPendingMap.getLsbD i then
      if (o.addReport pRecHdr i).trailer.room < sizeofCreditReport then o.addReport pRecHdr i
      else build pRecHdr is (o.addReport pRecHdr i)
    else build pRecHdr is o

end Outgoing

/-- The trailer of the buffer, up to the header bytes that announce it. -/
def putTrailer (htc : Context) (room : Int) (mem : ℕ → BitVec 8) (buf : Vbuf) : Outgoing :=
  let none : Trailer := ⟨htc.endpoints, htc.epCreditPendingMap, room, 0, []⟩
  if room < (sizeofCreditReport + sizeofRecordHdr : ℕ) then ⟨none, mem, buf⟩
  else if htc.epCreditPendingMap = 0 then ⟨none, mem, buf⟩
  else
    let pRecHdr := buf.last.tail
    Outgoing.build pRecHdr (List.finRange endpointMax)
      { trailer :=
          { none with room := room - sizeofRecordHdr, totalReportBytes := sizeofRecordHdr }
        mem := Memory.store mem pRecHdr [htcRecordCredits, 0]
        buf := adfNbufPutTail buf sizeofRecordHdr }

/-- `ControlBytes[0]` and the flag of a frame with a trailer. -/
def announceTrailer (pHTCHdr totalReportBytes : ℕ) (mem : ℕ → BitVec 8) : ℕ → BitVec 8 :=
  if 0 < totalReportBytes then
    let mem := Function.update mem (pHTCHdr + 4) (BitVec.ofNat 8 totalReportBytes)
    Function.update mem (pHTCHdr + 1) (mem (pHTCHdr + 1) ||| htcFlagsRecvTrailer)
  else mem

/-- The two bytes of `PayloadLen`; the target is big-endian, so that `adf_os_htons` does
nothing. -/
def halfword (n : ℕ) : List (BitVec 8) := [BitVec.ofNat 8 (n / 256), BitVec.ofNat 8 n]

/-- The header once the trailer is known: `totsz` has been the length without it. -/
def completeHeader (pHTCHdr totalReportBytes totsz : ℕ) (mem : ℕ → BitVec 8) : ℕ → BitVec 8 :=
  Memory.store (announceTrailer pHTCHdr totalReportBytes mem) (pHTCHdr + 2)
    (halfword (totsz + totalReportBytes))

/-- `_HTC_SendMsg` up to `HIF_send_buffer`. -/
def htcSendFrame (htc : Context) (eid : EndpointId) (mem : ℕ → BitVec 8) (pBuffers : Vbuf) :
    Outgoing :=
  let totsz := pBuffers.bufLength
  let buf := adfNbufPushHead pBuffers htcHdrLength
  let pHTCHdr := buf.first.start
  let mem := Memory.store mem pHTCHdr [BitVec.ofNat 8 eid, 0]
  let room := trailerRoom (htc.endpoints eid).downLinkPipeId buf.nbuf
  let o := putTrailer htc room mem buf
  { o with mem := completeHeader pHTCHdr o.trailer.totalReportBytes totsz o.mem }

/-! ## The host -/

/-- A frame as the host understands it: the credit record is that of the trailer, if there is
one. -/
structure HostFrame where
  endpointId : ℕ
  payload : List (BitVec 8)
  credits : Option (List (ℕ × Int))
  deriving DecidableEq

def decodeReports : List (BitVec 8) → Option (List (ℕ × Int))
  | [] => some []
  | [_] => none
  | eid :: credits :: reports =>
    (decodeReports reports).map ((eid.toNat, (credits.toNat : Int)) :: ·)

/-- A trailer of one credit record. -/
def decodeTrailer : List (BitVec 8) → Option (List (ℕ × Int))
  | recordId :: length :: reports =>
    if recordId = htcRecordCredits ∧ length.toNat = reports.length then decodeReports reports
    else none
  | _ => none

/-- The header, and behind it `PayloadLen` bytes, of which the last `ControlBytes[0]` are the
trailer if the header's flags say that there is one. -/
def decodeFrame : List (BitVec 8) → Option HostFrame
  | eid :: flags :: hi :: lo :: control0 :: _ :: _ :: _ :: body =>
    if hi.toNat * 256 + lo.toNat ≠ body.length then none
    else if flags &&& htcFlagsRecvTrailer = 0 then some ⟨eid.toNat, body, none⟩
    else if body.length < control0.toNat then none
    else
      let payload := body.take (body.length - control0.toNat)
      (decodeTrailer (body.drop (body.length - control0.toNat))).map fun credits =>
        ⟨eid.toNat, payload, some credits⟩
  | _ => none

end Ath9kHtc.Htc
