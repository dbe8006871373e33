import Mathlib.Data.List.Basic
import Mathlib.Logic.Function.Basic

/-!
# DMA rings: the data model

The descriptors of `vdesc.c`, the buffers of `vbuf.c` and the queues of `desc.c`.  A hardware
descriptor is part of its `VDESC` (`VDESC_HW_TO_VDESC`), so that one name stands for both.
-/

namespace Ath9kHtc.Dma

/-- A `VDESC`, and the hardware descriptor within it. -/
abbrev DescId := ℕ

/-- A `VBUF`. -/
abbrev BufId := ℕ

/-- The bits `ZM_OWN_BITS_MASK` of a status. -/
inductive Own where
  | sw
  | hw
  | se
  | reserved
  deriving DecidableEq, Repr

/-- A status `zfDmaGetPacket` takes for completed. -/
def Own.Completed (o : Own) : Prop := o = .sw ∨ o = .se

instance (o : Own) : Decidable o.Completed := inferInstanceAs (Decidable (_ ∨ _))

theorem Own.Completed.ne_hw {o : Own} (h : o.Completed) : o ≠ .hw := by
  rintro rfl
  rcases h with h | h <;> cases h

/-- `zsDmaDesc`; of its control word the bits `ZM_FS_BIT` and `ZM_LS_BIT`. -/
structure HwDesc where
  own : Own := .sw
  fs : Bool := false
  ls : Bool := false
  dataSize : ℕ := 0
  totalLen : ℕ := 0
  lastAddr : Option DescId := none
  dataAddr : ℕ := 0
  nextAddr : Option DescId := none
  deriving DecidableEq, Repr

def HwDesc.setNext (n : Option DescId) (d : HwDesc) : HwDesc := { d with nextAddr := n }

@[simp] theorem HwDesc.nextAddr_setNext (n : Option DescId) (d : HwDesc) :
    (d.setNext n).nextAddr = n := rfl

structure Vdesc where
  nextDesc : Option DescId := none
  bufAddr : ℕ := 0
  bufSize : ℕ := 0
  dataOffset : ℕ := 0
  dataSize : ℕ := 0
  control : ℕ := 0
  deriving DecidableEq, Repr

def Vdesc.setNext (n : Option DescId) (v : Vdesc) : Vdesc := { v with nextDesc := n }

@[simp] theorem Vdesc.nextDesc_setNext (n : Option DescId) (v : Vdesc) :
    (v.setNext n).nextDesc = n := rfl

structure Vbuf where
  descList : Option DescId := none
  nextBuf : Option BufId := none
  bufLength : ℕ := 0
  deriving DecidableEq, Repr

/-- The memory of the descriptors and buffers, with the free lists of `g_vdescCtx` and
`g_vbufCtx`.  A loop that goes on for more than the `nDesc` descriptors there are never ends. -/
structure Memory where
  hw : DescId → HwDesc
  vd : DescId → Vdesc
  vb : BufId → Vbuf
  nDesc : ℕ
  freeVdescHead : Option DescId
  freeBufHead : Option BufId

namespace Memory

def modHw (m : Memory) (d : DescId) (f : HwDesc → HwDesc) : Memory :=
  { m with hw := Function.update m.hw d (f (m.hw d)) }

def modVd (m : Memory) (d : DescId) (f : Vdesc → Vdesc) : Memory :=
  { m with vd := Function.update m.vd d (f (m.vd d)) }

def modVb (m : Memory) (b : BufId) (f : Vbuf → Vbuf) : Memory :=
  { m with vb := Function.update m.vb b (f (m.vb b)) }

section

variable {m : Memory} {d x : DescId} {b y : BufId} {f : HwDesc → HwDesc} {g : Vdesc → Vdesc}
  {k : Vbuf → Vbuf}

@[simp] theorem hw_modHw_self : (m.modHw d f).hw d = f (m.hw d) := Function.update_self ..

theorem hw_modHw_of_ne (h : x ≠ d) : (m.modHw d f).hw x = m.hw x := Function.update_of_ne h ..

/-- A write to other fields. -/
theorem modHw_field {β : Type*} (p : HwDesc → β) (h : ∀ c, p (f c) = p c) :
    p ((m.modHw d f).hw x) = p (m.hw x) := by
  by_cases hx : x = d
  · subst hx
    rw [hw_modHw_self, h]
  · rw [hw_modHw_of_ne hx]

@[simp] theorem vd_modVd_self : (m.modVd d g).vd d = g (m.vd d) := Function.update_self ..

theorem vd_modVd_of_ne (h : x ≠ d) : (m.modVd d g).vd x = m.vd x := Function.update_of_ne h ..

theorem modVd_field {β : Type*} (p : Vdesc → β) (h : ∀ c, p (g c) = p c) :
    p ((m.modVd d g).vd x) = p (m.vd x) := by
  by_cases hx : x = d
  · subst hx
    rw [vd_modVd_self, h]
  · rw [vd_modVd_of_ne hx]

@[simp] theorem vb_modVb_self : (m.modVb b k).vb b = k (m.vb b) := Function.update_self ..

theorem vb_modVb_of_ne (h : y ≠ b) : (m.modVb b k).vb y = m.vb y := Function.update_of_ne h ..

theorem modVb_field {β : Type*} (p : Vbuf → β) (h : ∀ c, p (k c) = p c) :
    p ((m.modVb b k).vb y) = p (m.vb y) := by
  by_cases hy : y = b
  · subst hy
    rw [vb_modVb_self, h]
  · rw [vb_modVb_of_ne hy]

@[simp] theorem vd_modHw : (m.modHw d f).vd = m.vd := rfl

@[simp] theorem vb_modHw : (m.modHw d f).vb = m.vb := rfl

@[simp] theorem nDesc_modHw : (m.modHw d f).nDesc = m.nDesc := rfl

@[simp] theorem hw_modVd : (m.modVd d g).hw = m.hw := rfl

@[simp] theorem vb_modVd : (m.modVd d g).vb = m.vb := rfl

@[simp] theorem nDesc_modVd : (m.modVd d g).nDesc = m.nDesc := rfl

@[simp] theorem hw_modVb : (m.modVb b k).hw = m.hw := rfl

@[simp] theorem vd_modVb : (m.modVb b k).vd = m.vd := rfl

@[simp] theorem nDesc_modVb : (m.modVb b k).nDesc = m.nDesc := rfl

end

/-- The hardware's links. -/
def nextAddr (m : Memory) (d : DescId) : Option DescId := (m.hw d).nextAddr

/-- The links of a `desc_list`. -/
def nextDesc (m : Memory) (d : DescId) : Option DescId := (m.vd d).nextDesc

/-- The links of a list of buffers. -/
def nextBuf (m : Memory) (b : BufId) : Option BufId := (m.vb b).nextBuf

end Memory

/-- `zsDmaQueue`. -/
structure Queue where
  head : DescId
  terminator : DescId
  deriving DecidableEq, Repr

/-- `zsTxDmaQueue`. -/
structure TxQueue extends Queue where
  xmitedBufHead : Option BufId
  xmitedBufTail : Option BufId
  deriving DecidableEq, Repr

end Ath9kHtc.Dma
