import Ath9kHtc.Tx.Types

/-!
# The block-ack window of a TID

The functions of `if_owl.c` that move the window, and what they do to the window seen as a
sliding window over sequence numbers.
-/

namespace Ath9kHtc.Tx

/-- `ATH_BA_INDEX`; both numbers are below `IEEE80211_SEQ_MAX`. -/
def athBaIndex (st seq : ℕ) : ℕ := (seq + 4096 - st) % 4096

def athTxAddtoBaw (tid : Tid) (bf : TxBuf) : Tid :=
  if bf.bfIsretried then tid
  else
    let index := athBaIndex tid.seqStart (seqnoFromBfSeqno bf.bfSeqno)
    let cindex := (tid.bawHead + index) % athTidMaxBufs
    { tid with
      txBufBitmap := Function.update tid.txBufBitmap cindex true
      bawTail :=
        if (tid.bawTail + athTidMaxBufs - tid.bawHead) % athTidMaxBufs ≤ index then
          (cindex + 1) % athTidMaxBufs
        else tid.bawTail }

/-- `INCR` of `seq_start` and `baw_head`. -/
def incrBaw (tid : Tid) : Tid :=
  { tid with
    seqStart := (tid.seqStart + 1) % ieee80211SeqMax
    bawHead := (tid.bawHead + 1) % athTidMaxBufs }

/-- The loop of `ath_tx_update_baw`; the ring has `ATH_TID_MAX_BUFS` slots to pass. -/
def slideBaw : ℕ → Tid → Tid
  | 0, tid => tid
  | n + 1, tid =>
    if tid.bawHead ≠ tid.bawTail ∧ tid.txBufBitmap tid.bawHead = false then
      slideBaw n (incrBaw tid)
    else tid

def athTxUpdateBaw (tid : Tid) (seqno : ℕ) : Tid :=
  let index := athBaIndex tid.seqStart seqno
  let cindex := (tid.bawHead + index) % athTidMaxBufs
  slideBaw athTidMaxBufs
    { tid with txBufBitmap := Function.update tid.txBufBitmap cindex false }

/-- `a_int8_t` -/
def aInt8 (x : Int) : Int := (x + 128) % 256 - 128

theorem aInt8_of_bounds {x : Int} (lo : -128 ≤ x) (hi : x < 128) : aInt8 x = x := by
  unfold aInt8
  omega

/-- What the loop of `ath_tgt_tx_cleanup` does at a frame that is in the window. -/
def countIncomp (tid : Tid) : Tid :=
  { tid with
    incomp := aInt8 (tid.incomp + 1)
    cleanupInprogres := true
    txBufBitmap := Function.update tid.txBufBitmap tid.bawHead false }

/-- The loop of `ath_tgt_tx_cleanup` over the window. -/
def cleanupBaw : ℕ → Tid → Tid
  | 0, tid => tid
  | n + 1, tid =>
    if tid.bawHead = tid.bawTail then tid
    else
      cleanupBaw n
        (incrBaw (if tid.txBufBitmap tid.bawHead then countIncomp tid else tid))

def owlTgtTidInit (tid : Tid) : Tid :=
  { tid with
    seqStart := 0
    seqNext := 0
    bawSize := wmeMaxBa
    bawHead := 0
    bawTail := 0
    paused := false
    cleanupInprogres := false
    aggrEnabled := false
    reinitializeFlag := false
    sched := false
    bufQ := []
    txBufBitmap := fun i => if i < athTidMaxBufs then false else tid.txBufBitmap i
    issued := []
    handed := [] }

/-! ## As a sliding window -/

/-- The window of a TID. -/
def Tid.window (tid : Tid) : SlidingWindow where
  start := tid.seqStart
  head := tid.bawHead
  tail := tid.bawTail
  mark := tid.txBufBitmap

theorem bawWithin_iff {tid : Tid} {bawsz seqno : ℕ} :
    bawWithin tid.seqStart bawsz seqno = true ↔ tid.window.offset 4096 seqno < bawsz := by
  simp [bawWithin, SlidingWindow.offset, fwd, Tid.window]

theorem window_athTxAddtoBaw {tid : Tid} {bf : TxBuf} (h : bf.bfIsretried = false) :
    (athTxAddtoBaw tid bf).window =
      tid.window.add 4096 128 (seqnoFromBfSeqno bf.bfSeqno) := by
  simp only [athTxAddtoBaw, h, Tid.window, SlidingWindow.add, SlidingWindow.size,
    SlidingWindow.offset, fwd, athBaIndex, athTidMaxBufs, Bool.false_eq_true, if_false,
    Nat.mod_add_mod]
  rfl

theorem athTxAddtoBaw_of_retried {tid : Tid} {bf : TxBuf} (h : bf.bfIsretried = true) :
    athTxAddtoBaw tid bf = tid := by
  simp [athTxAddtoBaw, h]

/-- Everything of a TID but its window. -/
def Tid.rest (tid : Tid) : Tid :=
  { tid with seqStart := 0, bawHead := 0, bawTail := 0, txBufBitmap := fun _ => false }

@[simp] theorem rest_athTxAddtoBaw (tid : Tid) (bf : TxBuf) :
    (athTxAddtoBaw tid bf).rest = tid.rest := by
  unfold athTxAddtoBaw
  split <;> rfl

theorem window_slideBaw (n : ℕ) (tid : Tid) :
    (slideBaw n tid).window = SlidingWindow.slide 4096 128 n tid.window := by
  induction n generalizing tid with
  | zero => rfl
  | succ n ih =>
    rw [slideBaw, SlidingWindow.slide]
    split
    · rename_i h
      rw [ih]
      exact (if_pos h).symm
    · rename_i h
      exact (if_neg h).symm

@[simp] theorem rest_slideBaw (n : ℕ) (tid : Tid) : (slideBaw n tid).rest = tid.rest := by
  induction n generalizing tid with
  | zero => rfl
  | succ n ih =>
    rw [slideBaw]
    split
    · rw [ih]
      rfl
    · rfl

theorem window_athTxUpdateBaw (tid : Tid) (seqno : ℕ) :
    (athTxUpdateBaw tid seqno).window = tid.window.retire 4096 128 seqno := by
  rw [athTxUpdateBaw, window_slideBaw]
  rfl

@[simp] theorem rest_athTxUpdateBaw (tid : Tid) (seqno : ℕ) :
    (athTxUpdateBaw tid seqno).rest = tid.rest := by
  rw [athTxUpdateBaw, rest_slideBaw]
  rfl

end Ath9kHtc.Tx
