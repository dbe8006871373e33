import Mathlib.Algebra.Ring.Nat
import Mathlib.Data.List.Basic
import Mathlib.Data.List.GetD
import Mathlib.Logic.Function.Basic

/-!
# The serial flash and its controller

The registers of the SPI flash controller that `cmnos_sflash.c` uses, as its comments describe
them, the flash device behind them, and the loops that wait for both.
-/

namespace Ath9kHtc.Cmnos

-- op codes
def zmSflashOpRead : BitVec 8 := 0x03
def zmSflashOpFastRead : BitVec 8 := 0x0b
def zmSflashOpPp : BitVec 8 := 0x02
def zmSflashOpRdsr : BitVec 8 := 0x05
def zmSflashOpWren : BitVec 8 := 0x06

def zmSflashPageSize : ℕ := 256

/-- The addresses of the flash have 24 bits. -/
def sflashSize : ℕ := 2 ^ 24

/-- The bytes of a 32-bit register or variable, the low byte first. -/
abbrev Word := Fin 4 → BitVec 8

/-! ## The device -/

/-- A transaction as the device sees it; the address is sent as a whole or not at all. -/
structure Xcn where
  opc : BitVec 8
  addr : Option ℕ
  data : List (BitVec 8)
  rxbcnt : ℕ
  deriving DecidableEq, Repr

/-- The flash, its write enable latch, and how many more reads of its status find the write in
progress. -/
structure Flash where
  mem : ℕ → BitVec 8
  wel : Bool
  wip : ℕ

/-- The next address to program, which wraps at the end of the page. -/
def nextInPage (a : ℕ) : ℕ := a - a % zmSflashPageSize + (a + 1) % zmSflashPageSize

/-- What a page program does to the memory: programming can only clear bits. -/
def pageProgram : ℕ → List (BitVec 8) → (ℕ → BitVec 8) → ℕ → BitVec 8
  | _, [], mem => mem
  | a, b :: bs, mem => pageProgram (nextInPage a) bs (Function.update mem a (mem a &&& b))

/-- The status register: write in progress, and the write enable latch. -/
def Flash.status (f : Flash) : BitVec 8 :=
  (if f.wip = 0 then 0 else 1) ||| (if f.wel then 2 else 0)

/-- What the device does, and the bytes it answers; `time` is how long a write takes.  While one
is in progress only the status can be read. -/
def Flash.exec (f : Flash) (x : Xcn) (time : ℕ) : Flash × List (BitVec 8) :=
  if x.opc = zmSflashOpRdsr then
    ({ f with wip := f.wip - 1 }, List.replicate x.rxbcnt f.status)
  else if f.wip ≠ 0 then (f, List.replicate x.rxbcnt 0xff)
  else if x.opc = zmSflashOpWren then ({ f with wel := true }, List.replicate x.rxbcnt 0xff)
  else match x.addr with
    | none => (f, List.replicate x.rxbcnt 0xff)
    | some a =>
      if x.opc = zmSflashOpPp ∧ f.wel then
        ({ mem := pageProgram a x.data f.mem, wel := false, wip := time },
          List.replicate x.rxbcnt 0xff)
      else if x.opc = zmSflashOpRead ∧ x.data.length = 0 ∨
          x.opc = zmSflashOpFastRead ∧ x.data.length = 1 then
        (f, (List.range x.rxbcnt).map fun i => f.mem ((a + i) % sflashSize))
      else (f, List.replicate x.rxbcnt 0xff)

/-! ## The controller -/

/-- The registers `SPI_AO` and `SPI_D`, and how many more reads of `SPI_CS` find the controller
busy.  `delays` is how long each transaction takes, and the write it starts; `log` is the
transactions so far. -/
structure Spi where
  busy : ℕ
  opc : BitVec 8
  addr : ℕ
  d : Word
  flash : Flash
  delays : ℕ → ℕ × ℕ
  log : List Xcn

/-- A write to a register; there must be none while a transaction is under way. -/
def Spi.write (f : Spi → Spi) (s : Spi) : Option Spi := if s.busy = 0 then some (f s) else none

/-- `SPI_AO_OPC_SET(opc) | SPI_AO_ADDR_SET(addr)` -/
def writeAo (opc : BitVec 8) (addr : ℕ) (s : Spi) : Option Spi :=
  s.write fun s => { s with opc := opc, addr := addr % sflashSize }

def writeD (d : Word) (s : Spi) : Option Spi := s.write fun s => { s with d := d }

/-- The bytes received, the first in the low byte. -/
def receive (d : Word) (got : List (BitVec 8)) : Word := fun i => got.getD i (d i)

/-- What a transaction of so many bytes sends: the op code, three bytes of address, and the data
from the low byte of `SPI_D` on. -/
def Spi.xcn (s : Spi) (txbcnt rxbcnt : ℕ) : Xcn where
  opc := s.opc
  addr := if 4 ≤ txbcnt then some s.addr else none
  data := (List.ofFn s.d).take (txbcnt - 4)
  rxbcnt := rxbcnt

/-- The transaction a write of `SPI_CS` starts. -/
def Spi.transact (s : Spi) (txbcnt rxbcnt : ℕ) : Spi :=
  let x := s.xcn txbcnt rxbcnt
  let delay := s.delays s.log.length
  let out := s.flash.exec x delay.2
  { s with busy := delay.1, d := receive s.d out.2, flash := out.1, log := s.log ++ [x] }

/-- `SPI_CS_TXBCNT_SET(txbcnt) | SPI_CS_RXBCNT_SET(rxbcnt) | SPI_CS_XCNSTART_SET(1)` -/
def writeCs (txbcnt rxbcnt : ℕ) (s : Spi) : Option Spi := s.write fun s => s.transact txbcnt rxbcnt

/-- The loop of `_cmnos_sflash_WaitTillTransactionOver`, for so many reads at most. -/
def transactionOverLoop : ℕ → Spi → Option Spi
  | 0, _ => none
  | n + 1, s =>
    if s.busy ≠ 0 then transactionOverLoop n { s with busy := s.busy - 1 } else some s

def waitTillTransactionOver (s : Spi) : Option Spi := transactionOverLoop (s.busy + 1) s

/-- One round of `_cmnos_sflash_WaitTillNotWriteInProcess` -/
def readStatus (s : Spi) : Option Spi :=
  (waitTillTransactionOver s).bind fun s =>
    (writeAo zmSflashOpRdsr 0 s).bind fun s =>
      (writeCs 1 1 s).bind waitTillTransactionOver

/-- The loop of `_cmnos_sflash_WaitTillNotWriteInProcess`, for so many rounds at most. -/
def notWriteInProcessLoop : ℕ → Spi → Option Spi
  | 0, _ => none
  | n + 1, s =>
    (readStatus s).bind fun s =>
      if s.d 0 &&& 1 ≠ 0 then notWriteInProcessLoop n s else some s

def waitTillNotWriteInProcess (s : Spi) : Option Spi :=
  notWriteInProcessLoop (s.flash.wip + 1) s

/-- `_cmnos_sflash_WriteEnable` -/
def sflashWriteEnable (s : Spi) : Option Spi :=
  (waitTillNotWriteInProcess s).bind fun s =>
    (writeAo zmSflashOpWren 0 s).bind fun s =>
      (writeCs 1 0 s).bind waitTillTransactionOver

/-! ## What they do -/

variable {s s' : Spi} {f : Flash} {mem : ℕ → BitVec 8} {bs : List (BitVec 8)} {a n x : ℕ}

/-- The transactions that do more than read the status. -/
def effective (log : List Xcn) : List Xcn := log.filter fun x => x.opc ≠ zmSflashOpRdsr

theorem effective_append (log log' : List Xcn) :
    effective (log ++ log') = effective log ++ effective log' := List.filter_append ..

theorem write_of_idle (h : s.busy = 0) (g : Spi → Spi) : s.write g = some (g s) := by
  rw [Spi.write, if_pos h]

theorem transactionOverLoop_eq (h : s.busy < n) :
    transactionOverLoop n s = some { s with busy := 0 } := by
  induction n generalizing s with
  | zero => exact absurd h (Nat.not_lt_zero _)
  | succ n ih =>
    rw [transactionOverLoop]
    split
    · exact ih (show s.busy - 1 < n by omega)
    · rename_i hidle
      have hidle : s.busy = 0 := not_not.mp hidle
      rw [← hidle]

/-- The controller gets ready, and nothing else happens. -/
@[simp] theorem waitTillTransactionOver_eq (s : Spi) :
    waitTillTransactionOver s = some { s with busy := 0 } :=
  transactionOverLoop_eq (Nat.lt_succ_self _)

/-- A transaction, and the wait for its end. -/
theorem transact_over (h : s.busy = 0) (txbcnt rxbcnt : ℕ) :
    (writeCs txbcnt rxbcnt s).bind waitTillTransactionOver =
      some { s.transact txbcnt rxbcnt with busy := 0 } := by
  rw [writeCs, write_of_idle h, Option.bind_some, waitTillTransactionOver_eq]

theorem readStatus_eq (s : Spi) : readStatus s =
    some { s with
      busy := 0
      opc := zmSflashOpRdsr
      addr := 0
      d := receive s.d [s.flash.status]
      flash := { s.flash with wip := s.flash.wip - 1 }
      log := s.log ++ [⟨zmSflashOpRdsr, none, [], 1⟩] } := by
  rw [readStatus, waitTillTransactionOver_eq, Option.bind_some, writeAo, write_of_idle rfl,
    Option.bind_some, transact_over rfl]
  rfl

theorem status_wip (f : Flash) : f.status &&& 1 ≠ 0 ↔ f.wip ≠ 0 := by
  rw [Flash.status]
  by_cases hwip : f.wip = 0 <;> cases f.wel <;> simp [hwip]

/-- The controller is idle and no write is in progress; the rest is as before. -/
structure Ready (s s' : Spi) : Prop where
  busy : s'.busy = 0
  flash : s'.flash = { s.flash with wip := 0 }
  kept : ∀ i : Fin 4, i ≠ 0 → s'.d i = s.d i
  log : effective s'.log = effective s.log

theorem receive_status (d : Word) (b : BitVec 8) (i : Fin 4) (hi : i ≠ 0) :
    receive d [b] i = d i := by
  rw [receive, List.getD_eq_default]
  exact Nat.one_le_iff_ne_zero.mpr fun h => hi (Fin.ext h)

theorem notWriteInProcessLoop_ready (h : s.flash.wip < n) :
    ∃ s', notWriteInProcessLoop n s = some s' ∧ Ready s s' := by
  induction n generalizing s with
  | zero => exact absurd h (Nat.not_lt_zero _)
  | succ n ih =>
    rw [notWriteInProcessLoop, readStatus_eq, Option.bind_some]
    set s₁ : Spi := { s with
      busy := 0
      opc := zmSflashOpRdsr
      addr := 0
      d := receive s.d [s.flash.status]
      flash := { s.flash with wip := s.flash.wip - 1 }
      log := s.log ++ [⟨zmSflashOpRdsr, none, [], 1⟩] } with hs₁
    have hlog : effective s₁.log = effective s.log := by
      rw [hs₁, effective_append, effective, effective, List.filter_singleton]
      simp
    have hflag : s₁.d 0 &&& 1 ≠ 0 ↔ s.flash.wip ≠ 0 := status_wip s.flash
    by_cases hwip : s.flash.wip = 0
    · rw [if_neg fun hset => hflag.mp hset hwip]
      refine ⟨s₁, rfl, rfl, ?_, receive_status _ _, hlog⟩
      rw [hs₁]
      simp only [hwip]
    · rw [if_pos (hflag.mpr hwip)]
      obtain ⟨s', hloop, hready⟩ := ih (show s₁.flash.wip < n by
        show s.flash.wip - 1 < n
        omega)
      refine ⟨s', hloop, hready.busy, hready.flash, fun i hi => ?_, hready.log.trans hlog⟩
      rw [hready.kept i hi]
      exact receive_status _ _ i hi

theorem waitTillNotWriteInProcess_ready (s : Spi) :
    ∃ s', waitTillNotWriteInProcess s = some s' ∧ Ready s s' :=
  notWriteInProcessLoop_ready (Nat.lt_succ_self _)

/-- `WREN` -/
def wrenXcn : Xcn := ⟨zmSflashOpWren, none, [], 0⟩

/-- The write enable latch is set, by the one transaction that does so. -/
theorem sflashWriteEnable_eq (s : Spi) : ∃ s', sflashWriteEnable s = some s' ∧ s'.busy = 0 ∧
    s'.flash = { s.flash with wip := 0, wel := true } ∧
    effective s'.log = effective s.log ++ [wrenXcn] := by
  obtain ⟨s₁, hwait, hready⟩ := waitTillNotWriteInProcess_ready s
  have hidle : ({ s₁ with opc := zmSflashOpWren, addr := 0 } : Spi).busy = 0 := hready.busy
  rw [sflashWriteEnable, hwait, Option.bind_some, writeAo, write_of_idle hready.busy,
    Option.bind_some, Nat.zero_mod, transact_over hidle]
  refine ⟨_, rfl, rfl, ?_, ?_⟩
  · show (s₁.flash.exec wrenXcn _).1 = _
    rw [hready.flash]
    rfl
  · show effective (s₁.log ++ [wrenXcn]) = _
    rw [effective_append, hready.log]
    rfl

/-! ## Pages -/

theorem nextInPage_eq (h : a % zmSflashPageSize + 1 < zmSflashPageSize) :
    nextInPage a = a + 1 := by
  rw [nextInPage, zmSflashPageSize] at *
  omega

/-- Within a page the bytes go to addresses that follow each other. -/
theorem pageProgram_eq (h : a % zmSflashPageSize + bs.length ≤ zmSflashPageSize) :
    pageProgram a bs mem x =
      if a ≤ x then mem x &&& bs.getD (x - a) 0xff else mem x := by
  have hkept (b : BitVec 8) : b &&& 0xff = b := BitVec.and_allOnes
  induction bs generalizing a mem with
  | nil =>
    rw [pageProgram, List.getD_nil, hkept, ite_self]
  | cons b bs ih =>
    rw [pageProgram]
    rcases List.eq_nil_or_concat bs with rfl | hmore
    · rw [pageProgram]
      rcases lt_trichotomy x a with hlt | rfl | hgt
      · rw [Function.update_of_ne (Nat.ne_of_lt hlt), if_neg (Nat.not_le.mpr hlt)]
      · rw [Function.update_self, if_pos (le_refl x), Nat.sub_self, List.getD_cons_zero]
      · rw [Function.update_of_ne (Nat.ne_of_gt hgt), if_pos (Nat.le_of_lt hgt), List.getD_eq_default, hkept]
        rw [List.length_singleton]
        omega
    · have hlen : 0 < bs.length := by
        obtain ⟨l, last, rfl⟩ := hmore
        simp
      rw [List.length_cons] at h
      have hnext : nextInPage a = a + 1 := nextInPage_eq (by omega)
      have hroom : (a + 1) % zmSflashPageSize + bs.length ≤ zmSflashPageSize := by
        rw [zmSflashPageSize] at *
        omega
      rw [hnext, ih hroom]
      rcases lt_trichotomy x a with hlt | rfl | hgt
      · rw [if_neg (by omega), if_neg (by omega), Function.update_of_ne (Nat.ne_of_lt hlt)]
      · rw [if_neg (by omega), if_pos (le_refl x), Function.update_self, Nat.sub_self,
          List.getD_cons_zero]
      · rw [if_pos (by omega), if_pos (Nat.le_of_lt hgt), Function.update_of_ne (Nat.ne_of_gt hgt),
          show x - a = (x - (a + 1)) + 1 by omega, List.getD_cons_succ]

end Ath9kHtc.Cmnos
