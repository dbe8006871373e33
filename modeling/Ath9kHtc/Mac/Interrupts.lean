import Ath9kHtc.Lib.BitField
import Ath9kHtc.Wmi.Registers

/-!
# Interrupts of the MAC

The interrupt functions of `ar5416_hw.c` and what `ath_intr` reads through them.  The target is
built without interrupt mitigation and is not an AR9100.
-/

namespace Ath9kHtc.Mac

open BitField

abbrev Word := BitVec 32

/-! ## Bits -/

namespace HalInt

def rx : Word := 0x00000001
def rxdesc : Word := 0x00000002
def rxnofrm : Word := 0x00000008
def rxeol : Word := 0x00000010
def rxorn : Word := 0x00000020
def tx : Word := 0x00000040
def txdesc : Word := 0x00000080
def txurn : Word := 0x00000800
def mib : Word := 0x00001000
def rxphy : Word := 0x00004000
def rxkcm : Word := 0x00008000
def swba : Word := 0x00010000
def bmiss : Word := 0x00040000
def gpio : Word := 0x01000000
def cst : Word := 0x02000000
def gtt : Word := 0x20000000
def fatal : Word := 0x40000000
def global : Word := 0x80000000

def common : Word :=
  rxnofrm ||| rxdesc ||| rxeol ||| rxorn ||| txurn ||| txdesc ||| mib ||| rxphy ||| rxkcm |||
    swba ||| bmiss ||| gpio

end HalInt

-- `AR_ISR` and `AR_IMR`
def arRxok : Word := 0x00000001
def arRxdesc : Word := 0x00000002
def arRxerr : Word := 0x00000004
def arTxok : Word := 0x00000040
def arTxdesc : Word := 0x00000080
def arTxerr : Word := 0x00000100
def arTxeol : Word := 0x00000400
def arBcnmisc : Word := 0x00800000

-- the secondary status registers
def arIsrS0QcuTxok : Field 32 := ⟨0x000003ff, 0⟩
def arIsrS0QcuTxdesc : Field 32 := ⟨0x03ff0000, 16⟩
def arIsrS1QcuTxerr : Field 32 := ⟨0x000003ff, 0⟩
def arIsrS1QcuTxeol : Field 32 := ⟨0x03ff0000, 16⟩
def arIsrS2Cst : Word := 0x00400000
def arIsrS2Gtt : Word := 0x00800000

def arIntrSpurious : Word := 0xffffffff
def arIntrMacIrq : Word := 0x00000002
def arIntrSyncHost1Fatal : Word := 0x00000020
def arIntrSyncHost1Perr : Word := 0x00000040
def arIntrSyncAll : Word := 0x0003ffff
def arRtcStatusM : Word := 0x0000000f
def arRtcStatusOn : Word := 0x00000002

def arFtrig : Field 32 := ⟨0x000003f0, 4⟩
def minTxFifoThreshold : Word := 1
def maxTxFifoThreshold : Word := 4096 / 64 - 1

/-! ## State -/

/-- The registers the interrupt functions write; `arIer` is `AR_IER_ENABLE`. -/
structure Registers where
  arIer : Bool := false
  arImr : Word := 0
  arTxcfg : Word := 0
  arIntrAsyncEnable : Word := 0
  arIntrAsyncMask : Word := 0
  arIntrSyncEnable : Word := 0
  arIntrSyncCauseClr : Word := 0
  deriving DecidableEq

/-- The registers, and what `ath_hal_5416` and `ath_softc_tgt` keep of the interrupts. -/
structure MacState where
  regs : Registers := {}
  ahMaskReg : Word := 0
  ahIntrTxqs : Word := 0
  scImask : Word := 0
  scSwbaTsf : BitVec 64 := 0
  scIntStats : Wmi.IntStats := ⟨0, 0, 0, 0, 0, 0⟩

/-- What `ath_intr` and the functions it calls read from the hardware. -/
structure Cause where
  /-- `AR_INTR_ASYNC_CAUSE`, for `ar5416IsInterruptPending` -/
  hostIsr : Word
  /-- `AR_INTR_ASYNC_CAUSE` again -/
  asyncCause : Word
  rtcStatus : Word
  isrRac : Word
  isrS0 : Word
  isrS1 : Word
  isrS2 : Word
  syncCause : Word
  /-- the two reads of `ar5416GetTsf64` -/
  tsf : BitVec 64
  swbaTsf : BitVec 64
  /-- `ar5416NumTxPending` -/
  beaconPending : Word

/-! ## Functions of the hardware layer -/

def ar5416IsInterruptPending (c : Cause) : Bool :=
  decide (c.hostIsr ≠ arIntrSpurious) && on c.hostIsr arIntrMacIrq

/-- `*masked` where the causes are read. -/
def maskedOf (c : Cause) : Word :=
  (c.isrRac &&& HalInt.common) |||
    flag (on c.isrRac arBcnmisc ∧ on c.isrS2 arIsrS2Gtt) HalInt.gtt |||
    flag (on c.isrRac arBcnmisc ∧ on c.isrS2 arIsrS2Cst) HalInt.cst |||
    flag (on c.isrRac (arRxok ||| arRxerr)) HalInt.rx |||
    flag (on c.isrRac (arTxok ||| arTxdesc ||| arTxerr ||| arTxeol)) HalInt.tx

/-- The queues with transmit causes. -/
def noteTxqs (c : Cause) (m : MacState) : MacState :=
  if on c.isrRac (arTxok ||| arTxdesc ||| arTxerr ||| arTxeol) then
    { m with
      ahIntrTxqs := m.ahIntrTxqs ||| get c.isrS0 arIsrS0QcuTxok ||| get c.isrS0 arIsrS0QcuTxdesc |||
        get c.isrS1 arIsrS1QcuTxerr ||| get c.isrS1 arIsrS1QcuTxeol }
  else m

def clearSyncCause (c : Cause) (m : MacState) : MacState :=
  if c.syncCause ≠ arIntrSpurious ∧
      on c.syncCause (arIntrSyncHost1Fatal ||| arIntrSyncHost1Perr) then
    { m with regs := { m.regs with arIntrSyncCauseClr := c.syncCause } }
  else m

/-- What a call of `ar5416GetPendingInterrupts` gives. -/
structure Pending where
  result : Bool
  masked : Word
  mac : MacState

def ar5416GetPendingInterrupts (c : Cause) (m : MacState) : Pending :=
  if on c.asyncCause arIntrMacIrq = false then ⟨false, 0, m⟩
  else if c.rtcStatus &&& arRtcStatusM ≠ arRtcStatusOn then ⟨false, 0, m⟩
  else if c.isrRac = 0xffffffff then ⟨false, 0, m⟩
  else ⟨true, maskedOf c, clearSyncCause c (noteTxqs c m)⟩

/-- The mask register for the causes `ints`. -/
def imrOf (ints : Word) : Word :=
  (ints &&& HalInt.common) |||
    flag (on ints HalInt.tx) (arTxok ||| arTxdesc ||| arTxerr ||| arTxeol) |||
    flag (on ints HalInt.rx) (arRxerr ||| arRxok ||| arRxdesc) |||
    flag (on ints (HalInt.gtt ||| HalInt.cst)) arBcnmisc

/-- It returns the mask before. -/
def ar5416SetInterrupts (ints : Word) (m : MacState) : Word × MacState :=
  let omask := m.ahMaskReg
  let ier := if on omask HalInt.global then false else m.regs.arIer
  let regs := { m.regs with
    arImr := imrOf ints
    arIer := if on ints HalInt.global then true else ier
    arIntrAsyncEnable := arIntrMacIrq
    arIntrAsyncMask := arIntrMacIrq
    arIntrSyncEnable := arIntrSyncAll }
  (omask, { m with regs := regs, ahMaskReg := ints })

/-- The new trigger level. -/
def newLevel (bIncTrigLevel : Bool) (curLevel : Word) : Word :=
  if bIncTrigLevel then
    if curLevel < maxTxFifoThreshold then curLevel + 1 else curLevel
  else if curLevel > minTxFifoThreshold then curLevel - 1
  else curLevel

def writeTrigLevel (level : Word) (m : MacState) : MacState :=
  { m with regs := { m.regs with
      arTxcfg := (m.regs.arTxcfg &&& ~~~arFtrig.mask) ||| put level arFtrig } }

def ar5416UpdateTxTrigLevel (bIncTrigLevel : Bool) (m : MacState) : Bool × MacState :=
  let set := ar5416SetInterrupts (m.ahMaskReg &&& ~~~HalInt.global) m
  let curLevel := get set.2.regs.arTxcfg arFtrig
  let level := newLevel bIncTrigLevel curLevel
  let m := if level ≠ curLevel then writeTrigLevel level set.2 else set.2
  (decide (level ≠ curLevel), (ar5416SetInterrupts set.1 m).2)

/-! ## The driver's part -/

def setImask (imask : Word) (m : MacState) : MacState := { m with scImask := imask }

/-- `ah_setInterrupts` of `sc_imask`. -/
def setInterruptsImask (m : MacState) : MacState := (ar5416SetInterrupts m.scImask m).2

/-- The end of `ath_tgt_attach`. -/
def macAttach : MacState := (ar5416SetInterrupts 0 (setImask 0 {})).2

def athEnableIntrTgt (intr : Word) (m : MacState) : MacState :=
  let imask := if on intr HalInt.swba then m.scImask ||| HalInt.swba else m.scImask &&& ~~~HalInt.swba
  let imask := if on intr HalInt.bmiss then imask ||| HalInt.bmiss else imask
  setInterruptsImask (setImask imask m)

/-- `sc_imask` as `ath_init_tgt` sets it. -/
def initMask (ht : Bool) : Word :=
  let imask := HalInt.rx ||| HalInt.tx ||| HalInt.rxeol ||| HalInt.rxorn ||| HalInt.fatal |||
    HalInt.global ||| HalInt.gtt
  if ht then imask ||| HalInt.cst else imask

/-- `ht` is `HAL_CAP_HT`. -/
def athInitTgt (ht : Bool) (m : MacState) : MacState := setInterruptsImask (setImask (initMask ht) m)

def athDisableIntrTgt (m : MacState) : MacState := (ar5416SetInterrupts 0 m).2

/-- What the receive tasklet does at its end. -/
def unmaskRx (m : MacState) : MacState := setInterruptsImask (setImask (m.scImask ||| HalInt.rx) m)

/-- What `ath_intr` does once the triggers are processed. -/
def maskRx (m : MacState) : MacState := setInterruptsImask (setImask (m.scImask &&& ~~~HalInt.rx) m)

/-- What `owltgt_tx_processq` does when `ar5416ProcTxDesc` finds so many underruns. -/
def owltgtTxProcessq (underruns : ℕ) (m : MacState) : MacState :=
  (fun m => (ar5416UpdateTxTrigLevel true m).2)^[underruns] m

def owltgtTxProcessCabq (underruns : ℕ) (m : MacState) : MacState :=
  setInterruptsImask
    (owltgtTxProcessq underruns (ar5416SetInterrupts (m.scImask &&& ~~~HalInt.swba) m).2)

/-! ## The mask the hardware has -/

/-- The mask registers are those of `ah_maskReg`. -/
def Masked (m : MacState) : Prop :=
  m.regs.arImr = imrOf m.ahMaskReg ∧ m.regs.arIer = on m.ahMaskReg HalInt.global

instance (m : MacState) : Decidable (Masked m) := inferInstanceAs (Decidable (_ ∧ _))

/-- The causes let through are those of the driver, or none. -/
def Follows (m : MacState) : Prop := m.ahMaskReg = m.scImask ∨ m.ahMaskReg = 0

variable {m m' : MacState} {c : Cause} {ints : Word}

@[simp] theorem ahMaskReg_setInterrupts : (ar5416SetInterrupts ints m).2.ahMaskReg = ints := rfl

@[simp] theorem scImask_setInterrupts : (ar5416SetInterrupts ints m).2.scImask = m.scImask := rfl

theorem Masked.setInterrupts (hm : Masked m) (ints : Word) :
    Masked (ar5416SetInterrupts ints m).2 := by
  refine ⟨rfl, ?_⟩
  simp only [ar5416SetInterrupts]
  rw [hm.2]
  cases on ints HalInt.global <;> cases on m.ahMaskReg HalInt.global <;> rfl

theorem Masked.congr (hm : Masked m) (hregs : m'.regs.arImr = m.regs.arImr)
    (hier : m'.regs.arIer = m.regs.arIer) (hmask : m'.ahMaskReg = m.ahMaskReg) : Masked m' := by
  rw [Masked, hregs, hier, hmask]
  exact hm

theorem Masked.setImask (hm : Masked m) (imask : Word) : Masked (setImask imask m) :=
  hm.congr rfl rfl rfl

theorem Masked.setInterruptsImask (hm : Masked m) : Masked (setInterruptsImask m) :=
  hm.setInterrupts m.scImask

theorem follows_setInterruptsImask (m : MacState) : Follows (setInterruptsImask m) := .inl rfl

@[simp] theorem scImask_setInterruptsImask : (setInterruptsImask m).scImask = m.scImask := rfl

@[simp] theorem scImask_setImask (imask : Word) : (setImask imask m).scImask = imask := rfl

theorem masked_macAttach : Masked macAttach :=
  Masked.setInterrupts (by decide) 0

/-! ## What a read of the causes changes -/

/-- The masks have not changed. -/
structure SameMasks (m m' : MacState) : Prop where
  imr : m'.regs.arImr = m.regs.arImr
  ier : m'.regs.arIer = m.regs.arIer
  maskReg : m'.ahMaskReg = m.ahMaskReg
  imask : m'.scImask = m.scImask

namespace SameMasks

theorem refl (m : MacState) : SameMasks m m := ⟨rfl, rfl, rfl, rfl⟩

theorem trans {m₁ m₂ m₃ : MacState} (h : SameMasks m₁ m₂) (h' : SameMasks m₂ m₃) :
    SameMasks m₁ m₃ :=
  ⟨h'.imr.trans h.imr, h'.ier.trans h.ier, h'.maskReg.trans h.maskReg, h'.imask.trans h.imask⟩

theorem masked (h : SameMasks m m') (hm : Masked m) : Masked m' := hm.congr h.imr h.ier h.maskReg

theorem follows (h : SameMasks m m') (hm : Follows m) : Follows m' := by
  rw [Follows, h.maskReg, h.imask]
  exact hm

end SameMasks

theorem noteTxqs_sameMasks (c : Cause) (m : MacState) : SameMasks m (noteTxqs c m) := by
  rw [noteTxqs]
  split <;> exact ⟨rfl, rfl, rfl, rfl⟩

theorem clearSyncCause_sameMasks (c : Cause) (m : MacState) : SameMasks m (clearSyncCause c m) := by
  rw [clearSyncCause]
  split <;> exact ⟨rfl, rfl, rfl, rfl⟩

theorem getPendingInterrupts_sameMasks (c : Cause) (m : MacState) :
    SameMasks m (ar5416GetPendingInterrupts c m).mac := by
  rw [ar5416GetPendingInterrupts]
  split
  · exact .refl m
  split
  · exact .refl m
  split
  · exact .refl m
  · exact (noteTxqs_sameMasks c m).trans (clearSyncCause_sameMasks c _)

/-- Fatal errors are cleared, and never reported. -/
theorem fatal_notMem_masked (c : Cause) (m : MacState) :
    on (ar5416GetPendingInterrupts c m).masked HalInt.fatal = false := by
  have hmasked : on (maskedOf c) HalInt.fatal = false := by
    simp only [maskedOf, on_or]
    rw [on_cut_of_disjoint (by decide), on_flag_of_disjoint (by decide),
      on_flag_of_disjoint (by decide), on_flag_of_disjoint (by decide),
      on_flag_of_disjoint (by decide)]
    rfl
  have hnone : on 0 HalInt.fatal = false := on_of_disjoint BitVec.zero_and
  rw [ar5416GetPendingInterrupts]
  split
  · exact hnone
  split
  · exact hnone
  split
  · exact hnone
  · exact hmasked

/-- The level is raised with the interrupts off, and the mask is as before. -/
theorem updateTxTrigLevel_sameMasks (hm : Masked m) (inc : Bool) :
    SameMasks m (ar5416UpdateTxTrigLevel inc m).2 := by
  have hset : ∀ m' : MacState, Masked m' → m'.scImask = m.scImask →
      SameMasks m (ar5416SetInterrupts m.ahMaskReg m').2 := by
    intro m' hm' himask
    have hm'' := hm'.setInterrupts m.ahMaskReg
    exact ⟨hm.1.symm, hm''.2.trans hm.2.symm, rfl, himask⟩
  have hoff := hm.setInterrupts (m.ahMaskReg &&& ~~~HalInt.global)
  simp only [ar5416UpdateTxTrigLevel]
  split
  · exact hset _ (hoff.congr rfl rfl rfl) rfl
  · exact hset _ hoff rfl

theorem processq_sameMasks (hm : Masked m) (n : ℕ) : SameMasks m (owltgtTxProcessq n m) := by
  induction n with
  | zero => exact .refl m
  | succ n ih =>
      rw [owltgtTxProcessq, Function.iterate_succ_apply']
      exact ih.trans (updateTxTrigLevel_sameMasks (ih.masked hm) true)

end Ath9kHtc.Mac
