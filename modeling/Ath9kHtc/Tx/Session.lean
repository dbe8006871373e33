import Mathlib.Data.Multiset.AddSub
import Ath9kHtc.Lib.Run
import Ath9kHtc.Tx.Window

/-!
# The block-ack session of a TID

What the transmit path does to one TID, without buffers, queues of the hardware or other TIDs:
frames wait, are in the air as part of the block-ack window, or are about to wait again.  The
machine of this module is the abstract counterpart of the code for one TID.
-/

namespace Ath9kHtc.Tx

/-- A data frame as its TID sees it. -/
@[ext]
structure Frame where
  skb : Option SkbId
  seq : ℕ
  retried : Bool
  deriving DecidableEq

def Frame.retry (f : Frame) : Frame := { f with retried := true }

/-- The state of a TID.  `air` holds the aggregation frames at the hardware, `pend` those a
completion is about to put back. -/
@[ext]
structure Session where
  win : SlidingWindow
  bawSize : ℕ
  seqNext : ℕ
  paused : Bool
  cleanup : Bool
  aggr : Bool
  reinit : Bool
  incomp : Int
  issued : List Issue
  handed : List SkbId
  queue : List Frame
  air : Multiset Frame
  pend : List Frame

inductive Action
  | sendNormal (skb : SkbId) (more : Bool)
  | sendDirect (skb : SkbId) (more : Bool)
  | enqueue (skb : SkbId) (more : Bool)
  | sendQueued
  | retire (f : Frame)
  | retry (f : Frame)
  | prepend
  | pause
  | resume
  | completeSingle (f : Frame)
  | completeSubframe (f : Frame)
  | completeOther
  | enable
  | disable
  | teardown
  | drain
  | init
  | postpone

namespace Session

def size (v : Session) : ℕ := v.win.size 128

def offset (v : Session) (s : ℕ) : ℕ := v.win.offset 4096 s

/-- The next number goes to a frame of the host. -/
def issue (v : Session) (skb : SkbId) (more : Bool) : Session :=
  { v with
    seqNext := if more then v.seqNext else (v.seqNext + 1) % 4096
    issued := ⟨v.seqNext, skb, more⟩ :: v.issued }

/-- The frame of the host that gets the next number. -/
def fresh (v : Session) (skb : SkbId) : Frame := ⟨some skb, v.seqNext, false⟩

def hand (v : Session) (f : Frame) : Session :=
  { v with handed := f.skb.toList ++ v.handed }

/-- A frame that is sent for the first time enters the window. -/
def enter (v : Session) (f : Frame) : Session :=
  { v with win := if f.retried then v.win else v.win.add 4096 128 f.seq }

def launch (v : Session) (f : Frame) : Session :=
  { (v.enter f).hand f with air := f ::ₘ v.air }

def land (v : Session) (f : Frame) : Session := { v with air := v.air.erase f }

/-- The end of a cleanup that resumes the TID. -/
def endCleanup (v : Session) : Session := { v with cleanup := false, paused := false }

/-- A new start of the TID. -/
def reset (v : Session) : Session where
  win := ⟨0, 0, 0, fun i => if i < 128 then false else v.win.mark i⟩
  bawSize := 64
  seqNext := 0
  paused := false
  cleanup := false
  aggr := false
  reinit := false
  incomp := v.incomp
  issued := []
  handed := []
  queue := []
  air := v.air
  pend := v.pend

def countDown (v : Session) : Session := { v with incomp := aInt8 (v.incomp - 1) }

/-- What a completion does to the count, where it heeds a postponed initialisation. -/
def completed (v : Session) : Session :=
  let v := v.countDown
  if v.incomp ≠ 0 then v else if v.reinit then v.reset else v.endCleanup

/-- What the completion of a subframe does to the count. -/
def completedSubframe (v : Session) : Session :=
  let v := v.countDown
  if v.incomp = 0 then v.endCleanup else v

/-- The window after the frames of a queue are thrown away. -/
def discard (w : SlidingWindow) : List Frame → SlidingWindow
  | [] => w
  | f :: fs => discard (if f.retried then w.retire 4096 128 f.seq else w) fs

def stopAggr (v : Session) : Session := { v with aggr := false }

/-- The session without its queue, which waits for the frames of its window. -/
def cleanUp (v : Session) : Session :=
  let flushed := (discard v.win v.queue).flush 4096 128 128
  let cleanup := v.cleanup || decide (flushed.1 ≠ 0)
  { v with
    win := flushed.2
    queue := []
    incomp := if flushed.1 = 0 then v.incomp else aInt8 (v.incomp + flushed.1)
    cleanup := cleanup
    paused := cleanup }

/-- The session without its queue, which gives back the numbers of its window. -/
def drained (v : Session) : Session :=
  { v with win := { v.win with tail := v.win.head }, seqNext := v.win.start, queue := [] }

def act (v : Session) : Action → Session
  | .sendNormal skb more =>
    let w := (v.issue skb more).hand (v.fresh skb)
    { w with win := { w.win with start := (w.win.start + 1) % 4096 } }
  | .sendDirect skb more => (v.issue skb more).launch (v.fresh skb)
  | .enqueue skb more => { v.issue skb more with queue := v.queue ++ [v.fresh skb] }
  | .sendQueued =>
    match v.queue with
    | [] => v
    | f :: queue => { v with queue := queue }.launch f
  | .retire f => { v.land f with win := v.win.retire 4096 128 f.seq }
  | .retry f => { v.land f with pend := v.pend ++ [f.retry] }
  | .prepend => { v with queue := v.pend ++ v.queue, pend := [] }
  | .pause => { v with paused := true }
  | .resume => { v with paused := false }
  | .completeSingle f => (v.land f).completed
  | .completeSubframe f => (v.land f).completedSubframe
  | .completeOther => v.completed
  | .enable => { v with aggr := true }
  | .disable => v.stopAggr.cleanUp
  | .teardown => v.stopAggr.cleanUp.drained
  | .drain => v.drained
  | .init => v.reset
  | .postpone => { v with reinit := true }

/-- A host buffer whose frame has no number yet. -/
def Unissued (v : Session) (skb : SkbId) : Prop := ∀ i ∈ v.issued, i.skb ≠ skb

/-- When an action can happen. -/
def Can (v : Session) : Action → Prop
  | .sendNormal skb _ => v.aggr = false ∧ v.Unissued skb
  | .sendDirect skb _ =>
    v.aggr = true ∧ v.paused = false ∧ v.queue = [] ∧ v.offset v.seqNext < v.bawSize ∧
      v.Unissued skb
  | .enqueue skb _ => v.aggr = true ∧ v.Unissued skb
  | .sendQueued => v.aggr = true ∧ v.paused = false ∧
      ∃ f queue, v.queue = f :: queue ∧ v.offset f.seq < v.bawSize
  | .retire f => v.cleanup = false ∧ f ∈ v.air
  | .retry f => v.cleanup = false ∧ v.aggr = true ∧ f ∈ v.air
  | .prepend => True
  | .pause => True
  | .resume => True
  | .completeSingle f => v.cleanup = true ∧ f ∈ v.air
  | .completeSubframe f => v.cleanup = true ∧ f ∈ v.air
  | .completeOther => v.cleanup = true
  | .enable => v.bawSize = 64
  | .disable => v.aggr = true ∧ v.pend = []
  | .teardown => v.pend = []
  | .drain => v.air = 0 ∧ v.pend = []
  | .init => v.cleanup = false ∧ v.pend = []
  | .postpone => v.cleanup = true

end Session

/-- The life of a TID from the attachment of the transmit path on. -/
def session : Machine Session Action where
  Init v := v =
    { win := ⟨0, 0, 0, fun _ => false⟩, bawSize := 0, seqNext := 0, paused := false,
      cleanup := false, aggr := false, reinit := false, incomp := 0, issued := [], handed := [],
      queue := [], air := 0, pend := [] }
  Step v a v' := v.Can a ∧ v' = v.act a

end Ath9kHtc.Tx
