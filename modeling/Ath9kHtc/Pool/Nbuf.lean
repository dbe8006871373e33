import Ath9kHtc.Dma.Engine
import Ath9kHtc.Lib.Chains

/-!
# Queues of buffers, and frames made of them

The queue of `adf_nbuf_pvt.h`, and the functions of `adf_nbuf.c` that merge the buffers of a queue
into one and split one into its fragments.  An operation is `none` where the source follows a null
pointer, fails an assertion or does not return.
-/

namespace Ath9kHtc.Pool

open Dma

/-- `__adf_nbuf_qhead_t` -/
structure NbufQueue where
  head : Option BufId := none
  tail : Option BufId := none
  qlen : ℕ := 0
  deriving DecidableEq, Repr

/-- `__adf_nbuf_queue_add` -/
def adfNbufQueueAdd (qhead : NbufQueue) (buf : BufId) (m : Memory) :
    Option (NbufQueue × Memory) :=
  let m := m.modVb buf fun v => { v with nextBuf := none }
  match qhead.head with
  | none => some (⟨some buf, some buf, qhead.qlen + 1⟩, m)
  | some head => qhead.tail.map fun tail =>
    (⟨some head, some buf, qhead.qlen + 1⟩, m.modVb tail fun v => { v with nextBuf := some buf })

/-- `__adf_nbuf_queue_remove` -/
def adfNbufQueueRemove (qhead : NbufQueue) (m : Memory) : Option (BufId × NbufQueue × Memory) :=
  qhead.head.map fun b0 =>
    (b0,
      if qhead.head = qhead.tail then ⟨none, none, qhead.qlen - 1⟩
      else { qhead with head := m.nextBuf b0, qlen := qhead.qlen - 1 },
      m.modVb b0 fun v => { v with nextBuf := none })

/-- The last `VDESC` of the buffer before is linked to a list of `VDESC`s. -/
def linkVdesc (vdescPrev descList : Option DescId) (m : Memory) : Memory :=
  match vdescPrev with
  | none => m
  | some prev => m.modVd prev (Vdesc.setNext descList)

/-- The loop of `__adf_nbuf_create_frm_frag` for `len` buffers: it must end with the last of them.
The lengths are added up in 16 bits. -/
def mergeLoop : ℕ → NbufQueue → Option DescId → ℕ → Memory → Option (ℕ × NbufQueue × Memory)
  | 0, qhead, _, totalLen, m =>
    match adfNbufQueueRemove qhead m with
    | none => some (totalLen, qhead, m)
    | some _ => none
  | n + 1, qhead, vdescPrev, totalLen, m =>
    match adfNbufQueueRemove qhead m with
    | none => none
    | some (buf, qhead, m) => do
      let v := m.vb buf
      let m := linkVdesc vdescPrev v.descList m
      let ds ← walkUpTo m.nextDesc (fun _ => false) m.nDesc v.descList
      let last ← ds.getLast?
      let m := m.modVb buf fun v => { v with descList := none, bufLength := 0 }
      mergeLoop n qhead (some last) ((totalLen + v.bufLength) % 65536) (vbufFreeVbuf buf m)

/-- `__adf_nbuf_create_frm_frag`: the frame, and the queue as it is left. -/
def adfNbufCreateFrmFrag (qhead : NbufQueue) (m : Memory) :
    Option (BufId × NbufQueue × Memory) := do
  let (bufHead, m) ← vbufAllocVbuf m
  let first ← qhead.head
  let m := m.modVb bufHead fun v => { v with descList := (m.vb first).descList }
  let (totalLen, qhead, m) ← mergeLoop qhead.qlen qhead none 0 m
  some (bufHead, qhead, m.modVb bufHead fun v => { v with bufLength := totalLen })

/-- The loop of `__adf_nbuf_split_to_frag`. -/
def splitLoop : ℕ → Option DescId → NbufQueue → Memory → Option (NbufQueue × Memory)
  | _, none, qhead, m => some (qhead, m)
  | 0, some _, _, _ => none
  | n + 1, some desc, qhead, m => do
    let (buf, m) ← vbufAllocVbuf m
    let m := m.modVb buf fun _ => ⟨some desc, none, (m.vd desc).dataSize⟩
    let (qhead, m) ← adfNbufQueueAdd qhead buf m
    splitLoop n (m.nextDesc desc) qhead (m.modVd desc (Vdesc.setNext none))

/-- `__adf_nbuf_split_to_frag` -/
def adfNbufSplitToFrag (buf : BufId) (m : Memory) : Option (NbufQueue × Memory) := do
  let (qhead, m) ← splitLoop m.nDesc (m.vb buf).descList {} m
  some (qhead, vbufFreeVbuf buf (m.modVb buf fun v => { v with descList := none, bufLength := 0 }))

end Ath9kHtc.Pool
