import Mathlib.Data.BitVec
import Ath9kHtc.Lib.Memory

/-!
# ROM patches

`cmnos_rompatch.c`: a patch is read from the EEPROM into a buffer, checked, copied to the address
it names and called.  The processor is big-endian; the copy reverses the bytes of every word.
-/

namespace Ath9kHtc.Cmnos

open Memory

/-! ## The EEPROM -/

def eepromStartOffset : ℕ := 0

/-- `EEPROM_END_OFFSET`, in half words -/
def eepromEndOffset : ℕ := 0xfff

/-- The half words of the EEPROM, and `eep_state`. -/
structure Eeprom where
  eepState : Bool
  hword : ℕ → BitVec 16

/-- `T_EEP_RET`, as far as a read answers it -/
inductive EepRet
  | success
  | notInit
  | overflow
  deriving DecidableEq

/-- `cmnos_eep_read`: the answer, and the half words it puts into the buffer. -/
def cmnosEepRead (eep : Eeprom) (offset len : BitVec 16) : EepRet × List (BitVec 16) :=
  if eep.eepState then
    if offset.toNat < eepromStartOffset ∨ eepromEndOffset < offset.toNat ∨
        eepromEndOffset < offset.toNat + len.toNat then (.overflow, [])
    else (.success, fetch eep.hword offset.toNat len.toNat)
  else (.notInit, [])

/-- The bytes of a half word in memory. -/
def hwordBytes (w : BitVec 16) : List (BitVec 8) := [w.extractLsb' 8 8, w.extractLsb' 0 8]

/-! ## The patch -/

def sysDRamRegion0Base : ℕ := 0x500000

/-- `SYS_RAM_SZIE`: four blocks of 64 kilobytes -/
def sysRamSzie : ℕ := 4 * 0x10000

/-- The last quarter of the last block. -/
def romPatchBufAddr : ℕ := 0x53c000

structure EepRedirAddr where
  offset : BitVec 16
  size : BitVec 16
  deriving DecidableEq

def word32 (mem : ℕ → BitVec 8) (a : ℕ) : BitVec 32 :=
  mem a ++ mem (a + 1) ++ mem (a + 2) ++ mem (a + 3)

/-- `patch->len` -/
def patchLen (mem : ℕ → BitVec 8) (patch : ℕ) : BitVec 16 := mem (patch + 2) ++ mem (patch + 3)

/-- `patch->ld_addr` -/
def ldAddr (mem : ℕ → BitVec 8) (patch : ℕ) : ℕ := (word32 mem (patch + 4)).toNat

/-- `patch->fun_addr` -/
def funAddr (mem : ℕ → BitVec 8) (patch : ℕ) : BitVec 32 := word32 mem (patch + 8)

/-- The patch code, `sizeof(struct rom_patch_st) - 4` bytes behind the start. -/
def codeAddr (patch : ℕ) : ℕ := patch + 12

/-- The memory, `patch_addr`, `patch_start`, the addresses that were read while a patch was
decoded, the bytes that were written then, and the calls of `patch_start`. -/
structure Romp where
  mem : ℕ → BitVec 8
  patchAddr : EepRedirAddr
  patchStart : BitVec 32
  reads : List ℕ
  writes : List (ℕ × BitVec 8)
  calls : List (BitVec 32)

/-- `n` bytes are read from `a` on. -/
def Romp.read (s : Romp) (a n : ℕ) : Romp := { s with reads := s.reads ++ List.range' a n }

/-- `_patch_dump` prints the length and both addresses. -/
def patchDump (patch : ℕ) (s : Romp) : Romp := s.read (patch + 2) 10

/-- One assignment of the loop. -/
def copyByte (dst src : ℕ) (s : Romp) : Romp :=
  { s with
    mem := Function.update s.mem dst (s.mem src)
    reads := s.reads ++ [src]
    writes := s.writes ++ [(dst, s.mem src)] }

/-- The body of the loop. -/
def copyWord (addr buf i : ℕ) (s : Romp) : Romp :=
  let s := copyByte (addr + (i + 3)) (buf + i) s
  let s := copyByte (addr + (i + 2)) (buf + (i + 1)) s
  let s := copyByte (addr + (i + 1)) (buf + (i + 2)) s
  copyByte (addr + i) (buf + (i + 3)) s

/-- The loop of `_read_rom_patch`, for fewer than so many rounds; `i` has 16 bits and the length
is read anew in every round. -/
def copyLoop (patch addr : ℕ) : ℕ → ℕ → Romp → Option Romp
  | 0, _, _ => none
  | fuel + 1, i, s =>
    let s := s.read (patch + 2) 2
    if i < (patchLen s.mem patch).toNat then
      copyLoop patch addr fuel ((i + 4) % 2 ^ 16) (copyWord addr (codeAddr patch) i s)
    else some s

/-- The start of the target is in the data RAM. -/
def InRam (addr : ℕ) : Prop := sysDRamRegion0Base ≤ addr ∧ addr < sysDRamRegion0Base + sysRamSzie

instance (addr : ℕ) : Decidable (InRam addr) := inferInstanceAs (Decidable (_ ∧ _))

/-- `_read_rom_patch` -/
def readRomPatch (fuel patch : ℕ) (s : Romp) : Option (Bool × Romp) :=
  let addr := ldAddr s.mem patch
  let s := s.read (patch + 4) 4
  if ¬ InRam addr then some (false, s)
  else
    let s := patchDump patch s
    let s := s.read (patch + 2) 2
    (copyLoop patch addr fuel 0 s).map fun s => (true, s)

/-- The check sum over `n` words. -/
def checkSum (mem : ℕ → BitVec 8) (addr n : ℕ) : BitVec 32 :=
  (List.range n).foldl (fun sum i => sum ^^^ word32 mem (addr + 4 * i)) 0

/-- `cmnos_romp_decode` -/
def cmnosRompDecode (fuel addr : ℕ) (s : Romp) : Option (Bool × Romp) :=
  let n := s.patchAddr.size.toNat / 2
  let s := s.read addr (4 * n)
  if checkSum s.mem addr n ≠ 0 then some (false, s)
  else
    let funcAddr := funAddr s.mem addr
    (readRomPatch fuel addr (s.read (addr + 8) 4)).map fun r =>
      if r.1 then (true, { r.2 with patchStart := funcAddr }) else (false, r.2)

/-- `cmnos_romp_install` -/
def cmnosRompInstall (s : Romp) : Romp := { s with calls := s.calls ++ [s.patchStart] }

/-- The header that `cmnos_romp_download` rejects. -/
def EepRedirAddr.Bad (hdr : EepRedirAddr) : Prop :=
  hdr.size = 0 ∨ hdr.offset.toNat < eepromStartOffset ∨ eepromEndOffset < hdr.offset.toNat ∨
    eepromEndOffset < hdr.offset.toNat + hdr.size.toNat

instance (hdr : EepRedirAddr) : Decidable hdr.Bad := inferInstanceAs (Decidable (_ ∨ _))

/-- The second read of `cmnos_romp_download`, whose answer it does not look at. -/
def downloaded (eep : Eeprom) (hdr : EepRedirAddr) (mem : ℕ → BitVec 8) : ℕ → BitVec 8 :=
  store mem romPatchBufAddr ((cmnosEepRead eep hdr.offset hdr.size).2.flatMap hwordBytes)

/-- `cmnos_romp_download` -/
def cmnosRompDownload (eep : Eeprom) (offset : BitVec 16) (fuel : ℕ) (s : Romp) :
    Option (Bool × Romp) :=
  let answer := cmnosEepRead eep offset 2
  if answer.1 ≠ .success then some (false, s)
  else
    let hdr : EepRedirAddr := ⟨answer.2.getD 0 0, answer.2.getD 1 0⟩
    let s := { s with patchAddr := hdr }
    if hdr.Bad then some (false, s)
    else
      let s := { s with mem := downloaded eep hdr s.mem }
      (cmnosRompDecode fuel romPatchBufAddr s).map fun r =>
        if r.1 then (true, cmnosRompInstall r.2) else (false, r.2)

/-! ## What a download should do -/

variable {eep : Eeprom} {offset : BitVec 16} {mem : ℕ → BitVec 8} {patch fuel i k n : ℕ}
  {s s' : Romp}

def patchWords (mem : ℕ → BitVec 8) (patch : ℕ) : ℕ := ((patchLen mem patch).toNat + 3) / 4

/-- Where a byte of the code belongs. -/
def mirror (n : ℕ) : ℕ := n / 4 * 4 + (3 - n % 4)

/-- The bytes to be written, in order: every word of the code once, reversed. -/
def reversed (mem : ℕ → BitVec 8) (patch : ℕ) : List (ℕ × BitVec 8) :=
  (List.range (4 * patchWords mem patch)).map fun n =>
    (ldAddr mem patch + mirror n, mem (codeAddr patch + n))

/-- The redirect header in the EEPROM. -/
def redirect (eep : Eeprom) (offset : BitVec 16) : EepRedirAddr :=
  ⟨eep.hword offset.toNat, eep.hword (offset.toNat + 1)⟩

/-- The address is in the downloaded patch. -/
def InPatch (hdr : EepRedirAddr) (a : ℕ) : Prop :=
  romPatchBufAddr ≤ a ∧ a < romPatchBufAddr + 2 * hdr.size.toNat

/-- Nothing but the patch buffer has changed. -/
structure Refused (hdr : EepRedirAddr) (mem : ℕ → BitVec 8) (s : Romp) : Prop where
  outside : ∀ a, ¬ InPatch hdr a → s.mem a = mem a
  calls : s.calls = []

/-- The patch in the buffer, with the memory `mem`, has been copied. -/
structure Copied (hdr : EepRedirAddr) (mem : ℕ → BitVec 8) (s : Romp) : Prop where
  buffer : ∀ a, InPatch hdr a → InRam a
  reads : ∀ a ∈ s.reads, InPatch hdr a
  ram : ∀ w ∈ s.writes, InRam w.1
  once : (s.writes.map Prod.fst).Nodup
  writes : s.writes = reversed mem romPatchBufAddr

/-- A download ends, and either refuses the patch or copies it. -/
def LoadsSafely (eep : Eeprom) (offset : BitVec 16) (mem : ℕ → BitVec 8)
    (patchAddr : EepRedirAddr) (patchStart : BitVec 32) : Prop :=
  ∃ fuel r, cmnosRompDownload eep offset fuel ⟨mem, patchAddr, patchStart, [], [], []⟩ = some r ∧
    (r.1 = false → Refused (redirect eep offset) mem r.2) ∧
    (r.1 = true → Copied (redirect eep offset) (downloaded eep (redirect eep offset) mem) r.2)

/-- The checks that `cmnos_romp_download` makes are passed. -/
structure Accepted (eep : Eeprom) (offset : BitVec 16) (mem : ℕ → BitVec 8) : Prop where
  header : (cmnosEepRead eep offset 2).1 = .success
  good : ¬ (redirect eep offset).Bad
  sum : checkSum (downloaded eep (redirect eep offset) mem) romPatchBufAddr
    ((redirect eep offset).size.toNat / 2) = 0
  target : InRam (ldAddr (downloaded eep (redirect eep offset) mem) romPatchBufAddr)

/-- The memory after the first `n` bytes have been written. -/
def written (mem : ℕ → BitVec 8) (patch n : ℕ) : ℕ → BitVec 8 :=
  writeAll mem ((reversed mem patch).take n)

/-- What is copied does not change what is still to be read of the patch. -/
structure Undisturbed (mem : ℕ → BitVec 8) (patch : ℕ) : Prop where
  code : ∀ n < 4 * patchWords mem patch,
    written mem patch n (codeAddr patch + n) = mem (codeAddr patch + n)
  len : ∀ k ≤ patchWords mem patch,
    4 * k < (patchLen (written mem patch (4 * k)) patch).toNat ↔ k < patchWords mem patch

/-- The whole patch has been downloaded, its target is in the data RAM, and it survives the
copy. -/
structure Fits (hdr : EepRedirAddr) (mem : ℕ → BitVec 8) : Prop where
  inside : 12 + 4 * patchWords mem romPatchBufAddr ≤ 2 * hdr.size.toNat
  target : ldAddr mem romPatchBufAddr + 4 * patchWords mem romPatchBufAddr ≤
    sysDRamRegion0Base + sysRamSzie
  undisturbed : Undisturbed mem romPatchBufAddr

/-! ## The bytes of a copy -/

theorem length_reversed (mem : ℕ → BitVec 8) (patch : ℕ) :
    (reversed mem patch).length = 4 * patchWords mem patch := by
  rw [reversed, List.length_map, List.length_range]

theorem getElem?_reversed (h : n < 4 * patchWords mem patch) :
    (reversed mem patch)[n]? = some (ldAddr mem patch + mirror n, mem (codeAddr patch + n)) := by
  rw [reversed, List.getElem?_map, List.getElem?_range h]
  rfl

theorem mirror_injective : Function.Injective mirror := by
  intro n m h
  rw [mirror, mirror] at h
  omega

theorem nodup_reversed : ((reversed mem patch).map Prod.fst).Nodup := by
  rw [reversed, List.map_map]
  refine List.Nodup.map (fun n m h => mirror_injective ?_) List.nodup_range
  exact Nat.add_left_cancel (h : ldAddr mem patch + mirror n = ldAddr mem patch + mirror m)

theorem mem_reversed {w : ℕ × BitVec 8} (h : w ∈ reversed mem patch) :
    ldAddr mem patch ≤ w.1 ∧ w.1 < ldAddr mem patch + 4 * patchWords mem patch := by
  obtain ⟨n, hn, rfl⟩ := List.mem_map.mp h
  have hn := List.mem_range.mp hn
  rw [mirror]
  omega

/-- `n` bytes have been copied as they should be. -/
structure Copying (mem : ℕ → BitVec 8) (patch n : ℕ) (s : Romp) : Prop where
  memory : s.mem = written mem patch n
  writes : s.writes = (reversed mem patch).take n

/-- The next byte is there, and is still what was downloaded. -/
def Intact (mem : ℕ → BitVec 8) (patch n : ℕ) : Prop :=
  n < 4 * patchWords mem patch ∧
    written mem patch n (codeAddr patch + n) = mem (codeAddr patch + n)

/-- The copy of byte `n`. -/
def copyNth (mem : ℕ → BitVec 8) (patch n : ℕ) (s : Romp) : Romp :=
  copyByte (ldAddr mem patch + mirror n) (codeAddr patch + n) s

theorem copyWord_eq (k : ℕ) (s : Romp) :
    copyWord (ldAddr mem patch) (codeAddr patch) (4 * k) s =
      copyNth mem patch (4 * k + 3) (copyNth mem patch (4 * k + 2)
        (copyNth mem patch (4 * k + 1) (copyNth mem patch (4 * k) s))) := by
  have h₀ : mirror (4 * k) = 4 * k + 3 := by rw [mirror]; omega
  have h₁ : mirror (4 * k + 1) = 4 * k + 2 := by rw [mirror]; omega
  have h₂ : mirror (4 * k + 2) = 4 * k + 1 := by rw [mirror]; omega
  have h₃ : mirror (4 * k + 3) = 4 * k := by rw [mirror]; omega
  rw [copyNth, copyNth, copyNth, copyNth, h₀, h₁, h₂, h₃]
  rfl

theorem Copying.next (h : Copying mem patch n s) (hn : Intact mem patch n) :
    Copying mem patch (n + 1) (copyNth mem patch n s) := by
  obtain ⟨hlt, hsource⟩ := hn
  have hread : s.mem (codeAddr patch + n) = mem (codeAddr patch + n) := by
    rw [h.memory]
    exact hsource
  have htake : (reversed mem patch).take (n + 1) = (reversed mem patch).take n ++
      [(ldAddr mem patch + mirror n, s.mem (codeAddr patch + n))] := by
    rw [List.take_add_one, getElem?_reversed hlt, hread]
    rfl
  constructor
  · rw [written, htake, writeAll_append, ← written, ← h.memory]
    rfl
  · rw [htake, ← h.writes]
    rfl

/-- A byte that is copied as it should be was intact. -/
theorem Copying.intact (h : Copying mem patch n s)
    (hpre : (copyNth mem patch n s).writes <+: reversed mem patch) : Intact mem patch n := by
  obtain ⟨rest, hrest⟩ := hpre
  have hsplit : (reversed mem patch).take n ++
      ((ldAddr mem patch + mirror n, s.mem (codeAddr patch + n)) :: rest) =
        reversed mem patch := by
    rw [← h.writes, ← hrest]
    exact (List.append_assoc s.writes [_] rest).symm
  have hlt : n < 4 * patchWords mem patch := by
    have hlen := congrArg List.length hsplit
    rw [List.length_append, List.length_take, List.length_cons, length_reversed] at hlen
    omega
  have hlen : ((reversed mem patch).take n).length = n := by
    rw [List.length_take, length_reversed]
    omega
  have hget := getElem?_reversed hlt
  rw [← hsplit, List.getElem?_append_right (Nat.le_of_eq hlen), hlen, Nat.sub_self] at hget
  refine ⟨hlt, ?_⟩
  rw [← h.memory]
  exact congrArg Prod.snd (Option.some_inj.mp hget)

/-- One round of the loop. -/
theorem Copying.word (h : Copying mem patch (4 * k) s)
    (hin : ∀ n, 4 * k ≤ n → n < 4 * (k + 1) → Intact mem patch n) :
    Copying mem patch (4 * (k + 1)) (copyWord (ldAddr mem patch) (codeAddr patch) (4 * k) s) := by
  rw [copyWord_eq]
  have h₁ := h.next (hin _ (by omega) (by omega))
  have h₂ := h₁.next (hin _ (by omega) (by omega))
  have h₃ := h₂.next (hin _ (by omega) (by omega))
  exact h₃.next (hin _ (by omega) (by omega))

theorem copyNth_writes : s.writes <+: (copyNth mem patch n s).writes := List.prefix_append ..

theorem Copying.word_intact (h : Copying mem patch (4 * k) s)
    (hpre : (copyWord (ldAddr mem patch) (codeAddr patch) (4 * k) s).writes <+:
      reversed mem patch) : ∀ n, 4 * k ≤ n → n < 4 * (k + 1) → Intact mem patch n := by
  rw [copyWord_eq] at hpre
  have hpre₃ := copyNth_writes.trans hpre
  have hpre₂ := copyNth_writes.trans hpre₃
  have hin₀ := h.intact (copyNth_writes.trans hpre₂)
  have h₁ := h.next hin₀
  have hin₁ := h₁.intact hpre₂
  have h₂ := h₁.next hin₁
  have hin₂ := h₂.intact hpre₃
  have hin₃ := (h₂.next hin₂).intact hpre
  intro n hle hlt
  obtain rfl | rfl | rfl | rfl : n = 4 * k ∨ n = 4 * k + 1 ∨ n = 4 * k + 2 ∨ n = 4 * k + 3 := by
    omega
  · exact hin₀
  · exact hin₁
  · exact hin₂
  · exact hin₃

/-! ## The loop -/

theorem Copying.read (h : Copying mem patch n s) (a m : ℕ) : Copying mem patch n (s.read a m) :=
  ⟨h.memory, h.writes⟩

/-- What the loop has read and written stays on record, and it calls nothing. -/
structure Goes (s s' : Romp) : Prop where
  reads : s.reads <+: s'.reads
  writes : s.writes <+: s'.writes
  calls : s'.calls = s.calls

theorem Goes.refl (s : Romp) : Goes s s := ⟨List.prefix_refl _, List.prefix_refl _, rfl⟩

theorem Goes.trans {s'' : Romp} (h : Goes s s') (h' : Goes s' s'') : Goes s s'' :=
  ⟨h.reads.trans h'.reads, h.writes.trans h'.writes, h'.calls.trans h.calls⟩

theorem Goes.read (s : Romp) (a m : ℕ) : Goes s (s.read a m) :=
  ⟨List.prefix_append .., List.prefix_refl _, rfl⟩

theorem Goes.copyByte (dst src : ℕ) (s : Romp) : Goes s (copyByte dst src s) :=
  ⟨List.prefix_append .., List.prefix_append .., rfl⟩

theorem Goes.copyWord (addr buf i : ℕ) (s : Romp) : Goes s (copyWord addr buf i s) :=
  (((Goes.copyByte _ _ s).trans (Goes.copyByte ..)).trans (Goes.copyByte ..)).trans
    (Goes.copyByte ..)

theorem Goes.copyLoop {addr : ℕ} (h : copyLoop patch addr fuel i s = some s') : Goes s s' := by
  induction fuel generalizing i s with
  | zero => cases h
  | succ fuel ih =>
      rw [Cmnos.copyLoop] at h
      split at h
      · exact ((Goes.read s _ _).trans (Goes.copyWord ..)).trans (ih h)
      · obtain rfl := Option.some_inj.mp h
        exact Goes.read s _ _

/-- The last byte of a round is read. -/
theorem mem_reads_copyWord (addr buf i : ℕ) (s : Romp) :
    buf + (i + 3) ∈ (copyWord addr buf i s).reads :=
  List.mem_append_right _ List.mem_cons_self

theorem length_writes_copyWord (addr buf i : ℕ) (s : Romp) :
    (copyWord addr buf i s).writes.length = s.writes.length + 4 := by
  simp [copyWord, copyByte]

theorem patchWords_le (mem : ℕ → BitVec 8) (patch : ℕ) : 4 * patchWords mem patch ≤ 2 ^ 16 := by
  have hlt := (patchLen mem patch).isLt
  rw [patchWords]
  omega

/-- A loop that leaves what it should has found every byte as it was downloaded, and has ended
where it should. -/
theorem Copying.of_copyLoop (h : Copying mem patch (4 * k) s) (hk : k ≤ patchWords mem patch)
    (hloop : copyLoop patch (ldAddr mem patch) fuel (4 * k % 2 ^ 16) s = some s')
    (hwrites : s'.writes = reversed mem patch) :
    (∀ n, 4 * k ≤ n → n < 4 * patchWords mem patch → Intact mem patch n) ∧
    (∀ j, k ≤ j → j ≤ patchWords mem patch →
      (4 * j % 2 ^ 16 < (patchLen (written mem patch (4 * j)) patch).toNat ↔
        j < patchWords mem patch)) ∧
    (k < patchWords mem patch → codeAddr patch + (4 * patchWords mem patch - 1) ∈ s'.reads) := by
  induction fuel generalizing k s with
  | zero => cases hloop
  | succ fuel ih =>
      have hlength : s.writes.length = 4 * k := by
        rw [h.writes, List.length_take, length_reversed]
        omega
      rw [copyLoop] at hloop
      split at hloop
      · rename_i htest
        have hgoes := Goes.copyLoop hloop
        have hlast := mem_reads_copyWord (ldAddr mem patch) (codeAddr patch) (4 * k % 2 ^ 16)
          (s.read (patch + 2) 2)
        have hpre := hgoes.writes
        have hless : k < patchWords mem patch := by
          have hle := hpre.length_le
          rw [hwrites, length_writes_copyWord, length_reversed] at hle
          have hle : s.writes.length + 4 ≤ 4 * patchWords mem patch := hle
          omega
        have hmod : 4 * k % 2 ^ 16 = 4 * k := Nat.mod_eq_of_lt (by
          have := patchWords_le mem patch
          omega)
        have hnext : (4 * k + 4) % 2 ^ 16 = 4 * (k + 1) % 2 ^ 16 := by
          rw [Nat.mul_add]
        rw [hmod] at htest hloop hlast hpre
        rw [hnext] at hloop
        rw [hwrites] at hpre
        have hread := h.read (patch + 2) 2
        have hword := hread.word_intact hpre
        obtain ⟨hin, hlen, hreads⟩ := ih (hread.word hword) hless hloop
        refine ⟨fun n hn hlt => ?_, fun j hj hle => ?_, fun _ => ?_⟩
        · rcases Nat.lt_or_ge n (4 * (k + 1)) with hfirst | hrest
          · exact hword n hn hfirst
          · exact hin n hrest hlt
        · rcases Nat.eq_or_lt_of_le hj with rfl | hj
          · rw [hmod, ← h.memory]
            exact ⟨fun _ => hless, fun _ => htest⟩
          · exact hlen j hj hle
        · rcases Nat.eq_or_lt_of_le (show k + 1 ≤ patchWords mem patch from hless) with heq | hlt
          · rw [show 4 * patchWords mem patch - 1 = 4 * k + 3 by omega]
            exact (Goes.copyLoop hloop).reads.subset hlast
          · exact hreads hlt
      · rename_i htest
        obtain rfl := Option.some_inj.mp hloop
        have hend : k = patchWords mem patch := by
          have hwrites : s.writes = reversed mem patch := hwrites
          rw [hwrites, length_reversed] at hlength
          omega
        refine ⟨fun n hn hlt => absurd hlt (by omega), fun j hj hle => ?_,
          fun hlt => absurd hlt (by omega)⟩
        obtain rfl : j = k := by omega
        rw [← h.memory]
        exact ⟨fun hlt => absurd hlt htest, fun hlt => absurd hlt (by omega)⟩

theorem mem_reads_read {Q : ℕ → Prop} (a m : ℕ) (h : ∀ x ∈ s.reads, Q x)
    (hQ : ∀ x, a ≤ x → x < a + m → Q x) : ∀ x ∈ (s.read a m).reads, Q x := by
  intro x hx
  rcases List.mem_append.mp hx with hx | hx
  · exact h x hx
  · obtain ⟨hle, hlt⟩ := List.mem_range'_1.mp hx
    exact hQ x hle hlt

theorem of_mem_reads_copyWord {addr buf x : ℕ} (h : x ∈ (copyWord addr buf i s).reads) :
    x ∈ s.reads ∨ buf + i ≤ x ∧ x < buf + (i + 4) := by
  simp only [copyWord, copyByte, List.mem_append, List.mem_singleton] at h
  rcases h with (((h | rfl) | rfl) | rfl) | rfl
  · exact .inl h
  all_goals exact .inr (by omega)

/-- A patch that stays undisturbed is copied word by word. -/
theorem Undisturbed.copyLoop {Q : ℕ → Prop} (hund : Undisturbed mem patch)
    (hbound : 4 * patchWords mem patch < 2 ^ 16)
    (hQ : ∀ a, patch ≤ a → a < codeAddr patch + 4 * patchWords mem patch → Q a) (m : ℕ)
    (hk : k + m = patchWords mem patch) (h : Copying mem patch (4 * k) s)
    (hreads : ∀ a ∈ s.reads, Q a) :
    ∃ s', copyLoop patch (ldAddr mem patch) (m + 1) (4 * k) s = some s' ∧
      s'.writes = reversed mem patch ∧ ∀ a ∈ s'.reads, Q a := by
  have hcode : codeAddr patch = patch + 12 := rfl
  induction m generalizing k s with
  | zero =>
      have hlen := hund.len k (by omega)
      rw [← h.memory] at hlen
      refine ⟨s.read (patch + 2) 2, if_neg (fun hlt => ?_), ?_, ?_⟩
      · have hless := hlen.mp hlt
        omega
      · have hlength := length_reversed mem patch
        show s.writes = _
        rw [h.writes, List.take_of_length_le (by omega)]
      · exact mem_reads_read _ _ hreads fun x hle hlt => hQ x (by omega) (by omega)
  | succ m ih =>
      have hlen := hund.len k (by omega)
      rw [← h.memory] at hlen
      have hread := h.read (patch + 2) 2
      have hreads := mem_reads_read (patch + 2) 2 hreads fun x hle hlt =>
        hQ x (by omega) (by omega)
      have hword := hread.word fun n hle hlt => ⟨by omega, hund.code n (by omega)⟩
      obtain ⟨s', hloop, hwrites, hreads'⟩ := ih (k := k + 1) (by omega) hword fun x hx => by
        rcases of_mem_reads_copyWord hx with hx | ⟨hle, hlt⟩
        · exact hreads x hx
        · exact hQ x (by omega) (by omega)
      refine ⟨s', (if_pos (hlen.mpr (by omega))).trans ?_, hwrites, hreads'⟩
      rw [show (4 * k + 4) % 2 ^ 16 = 4 * (k + 1) by omega]
      exact hloop

/-! ## The download -/

variable {hdr patchAddr : EepRedirAddr} {patchStart : BitVec 32}

theorem cmnosEepRead_eq {len : BitVec 16} (h : (cmnosEepRead eep offset len).1 = .success) :
    (cmnosEepRead eep offset len).2 = fetch eep.hword offset.toNat len.toNat := by
  rw [cmnosEepRead] at h ⊢
  split
  · rename_i hstate
    rw [if_pos hstate] at h
    split
    · rename_i hover
      rw [if_pos hover] at h
      cases h
    · rfl
  · rename_i hstate
    rw [if_neg hstate] at h
    cases h

theorem length_flatMap_hwordBytes (ws : List (BitVec 16)) :
    (ws.flatMap hwordBytes).length = 2 * ws.length := by
  induction ws with
  | nil => rfl
  | cons w ws ih =>
      rw [List.flatMap_cons, List.length_append, ih, hwordBytes, List.length_cons, List.length_cons,
        List.length_nil, List.length_cons]
      omega

theorem length_cmnosEepRead_le (eep : Eeprom) (offset len : BitVec 16) :
    (cmnosEepRead eep offset len).2.length ≤ len.toNat := by
  rw [cmnosEepRead]
  split
  · split
    · exact Nat.zero_le _
    · exact Nat.le_of_eq length_fetch
  · exact Nat.zero_le _

/-- A download changes only the patch buffer. -/
theorem downloaded_outside {a : ℕ} (h : ¬ InPatch hdr a) : downloaded eep hdr mem a = mem a := by
  apply store_outside
  have hle := length_cmnosEepRead_le eep hdr.offset hdr.size
  rw [length_flatMap_hwordBytes]
  rw [InPatch] at h
  omega

/-- What has been read when the loop starts. -/
def atLoop (addr : ℕ) (s : Romp) : Romp :=
  (patchDump addr (((s.read addr (4 * (s.patchAddr.size.toNat / 2))).read (addr + 8) 4).read
    (addr + 4) 4)).read (addr + 2) 2

theorem decode_copies (fuel : ℕ) (hsum : checkSum s.mem patch (s.patchAddr.size.toNat / 2) = 0)
    (htarget : InRam (ldAddr s.mem patch)) :
    cmnosRompDecode fuel patch s =
      (copyLoop patch (ldAddr s.mem patch) fuel 0 (atLoop patch s)).map fun s' =>
        (true, { s' with patchStart := funAddr s.mem patch }) := by
  have hread : readRomPatch fuel patch ((s.read patch (4 * (s.patchAddr.size.toNat / 2))).read
      (patch + 8) 4) = (copyLoop patch (ldAddr s.mem patch) fuel 0 (atLoop patch s)).map
        fun s' => (true, s') := if_neg (not_not_intro htarget)
  rw [cmnosRompDecode]
  refine (if_neg (not_not_intro hsum)).trans ?_
  rw [hread, Option.map_map]
  rfl

theorem decode_refuses (fuel : ℕ) (h : ¬ (checkSum s.mem patch (s.patchAddr.size.toNat / 2) = 0 ∧
    InRam (ldAddr s.mem patch))) :
    ∃ s', cmnosRompDecode fuel patch s = some (false, s') ∧ s'.mem = s.mem ∧
      s'.calls = s.calls := by
  rw [cmnosRompDecode]
  by_cases hsum : checkSum s.mem patch (s.patchAddr.size.toNat / 2) = 0
  · have htarget : ¬ InRam (ldAddr s.mem patch) := fun htarget => h ⟨hsum, htarget⟩
    have hread : readRomPatch fuel patch ((s.read patch (4 * (s.patchAddr.size.toNat / 2))).read
        (patch + 8) 4) = some (false, ((s.read patch (4 * (s.patchAddr.size.toNat / 2))).read
          (patch + 8) 4).read (patch + 4) 4) := if_pos htarget
    refine ⟨((s.read patch (4 * (s.patchAddr.size.toNat / 2))).read (patch + 8) 4).read
      (patch + 4) 4, (if_neg (not_not_intro hsum)).trans ?_, rfl, rfl⟩
    rw [hread]
    rfl
  · exact ⟨_, if_pos hsum, rfl, rfl⟩

/-- The state that `cmnos_romp_decode` is called in. -/
def atDecode (eep : Eeprom) (hdr : EepRedirAddr) (mem : ℕ → BitVec 8) (patchStart : BitVec 32) :
    Romp := ⟨downloaded eep hdr mem, hdr, patchStart, [], [], []⟩

theorem header_eq (h : (cmnosEepRead eep offset 2).1 = .success) :
    (⟨(cmnosEepRead eep offset 2).2.getD 0 0, (cmnosEepRead eep offset 2).2.getD 1 0⟩ :
      EepRedirAddr) = redirect eep offset := by
  rw [cmnosEepRead_eq h]
  rfl

theorem download_decodes (hheader : (cmnosEepRead eep offset 2).1 = .success)
    (hgood : ¬ (redirect eep offset).Bad) :
    cmnosRompDownload eep offset fuel ⟨mem, patchAddr, patchStart, [], [], []⟩ =
      (cmnosRompDecode fuel romPatchBufAddr
        (atDecode eep (redirect eep offset) mem patchStart)).map fun r =>
          if r.1 then (true, cmnosRompInstall r.2) else (false, r.2) := by
  rw [cmnosRompDownload]
  dsimp only
  rw [header_eq hheader, if_neg (not_not_intro hheader), if_neg hgood]
  rfl

/-- A patch that passes the checks is copied. -/
theorem Accepted.download (h : Accepted eep offset mem) :
    cmnosRompDownload eep offset fuel ⟨mem, patchAddr, patchStart, [], [], []⟩ =
      (copyLoop romPatchBufAddr
        (ldAddr (downloaded eep (redirect eep offset) mem) romPatchBufAddr) fuel 0
        (atLoop romPatchBufAddr (atDecode eep (redirect eep offset) mem patchStart))).map
      fun s => (true, cmnosRompInstall { s with
        patchStart := funAddr (downloaded eep (redirect eep offset) mem) romPatchBufAddr }) := by
  have hdecode := decode_copies (s := atDecode eep (redirect eep offset) mem patchStart) fuel
    h.sum h.target
  rw [download_decodes h.header h.good, hdecode, Option.map_map]
  rfl

/-- A patch that does not pass them is refused. -/
theorem refused_of_not_accepted (fuel : ℕ) (h : ¬ Accepted eep offset mem) :
    ∃ s', cmnosRompDownload eep offset fuel ⟨mem, patchAddr, patchStart, [], [], []⟩ =
      some (false, s') ∧ Refused (redirect eep offset) mem s' := by
  by_cases hheader : (cmnosEepRead eep offset 2).1 = .success
  · by_cases hbad : (redirect eep offset).Bad
    · rw [cmnosRompDownload]
      dsimp only
      rw [header_eq hheader, if_neg (not_not_intro hheader), if_pos hbad]
      exact ⟨_, rfl, fun _ _ => rfl, rfl⟩
    · have hfails : ¬ (checkSum (downloaded eep (redirect eep offset) mem) romPatchBufAddr
          ((redirect eep offset).size.toNat / 2) = 0 ∧
            InRam (ldAddr (downloaded eep (redirect eep offset) mem) romPatchBufAddr)) :=
        fun hpass => h ⟨hheader, hbad, hpass.1, hpass.2⟩
      obtain ⟨s', hdecode, hmem, hcalls⟩ := decode_refuses fuel
        (s := atDecode eep (redirect eep offset) mem patchStart) hfails
      rw [download_decodes hheader hbad, hdecode]
      refine ⟨s', rfl, fun a ha => ?_, hcalls⟩
      rw [hmem]
      exact downloaded_outside ha
  · exact ⟨_, if_pos hheader, fun _ _ => rfl, rfl⟩

/-- What the checks say about the header. -/
theorem size_of_good (h : ¬ hdr.Bad) : hdr.size.toNat ≤ 0xfff := by
  rw [EepRedirAddr.Bad, eepromEndOffset] at h
  omega

/-- A loop over a patch in the buffer that does what it should is over a patch that fits. -/
theorem fits_of_copyLoop (hsize : hdr.size.toNat ≤ 0xfff)
    (htarget : InRam (ldAddr mem romPatchBufAddr))
    (hloop : copyLoop romPatchBufAddr (ldAddr mem romPatchBufAddr) fuel 0
      (atLoop romPatchBufAddr ⟨mem, hdr, patchStart, [], [], []⟩) = some s')
    (hcopied : Copied hdr mem s') : Fits hdr mem := by
  have hstart : Copying mem romPatchBufAddr (4 * 0)
      (atLoop romPatchBufAddr ⟨mem, hdr, patchStart, [], [], []⟩) := ⟨rfl, rfl⟩
  obtain ⟨hin, hlen, hlast⟩ := hstart.of_copyLoop (Nat.zero_le _) hloop hcopied.writes
  have hinside : 12 + 4 * patchWords mem romPatchBufAddr ≤ 2 * hdr.size.toNat := by
    rcases Nat.eq_zero_or_pos (patchWords mem romPatchBufAddr) with hzero | hpos
    · have hread : romPatchBufAddr + 11 ∈ s'.reads := by
        apply (Goes.copyLoop hloop).reads.subset
        refine List.mem_append_left _ (List.mem_append_right _ ?_)
        exact List.mem_range'_1.mpr ⟨by omega, by omega⟩
      have hlt := (hcopied.reads _ hread).2
      omega
    · have hlt := (hcopied.reads _ (hlast hpos)).2
      rw [codeAddr] at hlt
      omega
  refine ⟨hinside, ?_, fun n hn => (hin n (Nat.zero_le _) hn).2, fun k hk => ?_⟩
  · rcases Nat.eq_zero_or_pos (patchWords mem romPatchBufAddr) with hzero | hpos
    · have hlt := htarget.2
      omega
    · have hwrite : (ldAddr mem romPatchBufAddr +
          mirror (4 * patchWords mem romPatchBufAddr - 4),
            mem (codeAddr romPatchBufAddr + (4 * patchWords mem romPatchBufAddr - 4))) ∈
          s'.writes := by
        rw [hcopied.writes]
        exact List.mem_map.mpr ⟨_, List.mem_range.mpr (by omega), rfl⟩
      have hlt := (hcopied.ram _ hwrite).2
      rw [mirror] at hlt
      omega
  · have hlen := hlen k (Nat.zero_le _) hk
    rw [Nat.mod_eq_of_lt (by omega)] at hlen
    exact hlen

/-- A patch that fits is copied as it should be. -/
theorem Fits.copyLoop (patchStart : BitVec 32) (h : Fits hdr mem) (hsize : hdr.size.toNat ≤ 0xfff)
    (htarget : InRam (ldAddr mem romPatchBufAddr)) :
    ∃ s', copyLoop romPatchBufAddr (ldAddr mem romPatchBufAddr) (patchWords mem romPatchBufAddr + 1)
        0 (atLoop romPatchBufAddr ⟨mem, hdr, patchStart, [], [], []⟩) = some s' ∧
      Copied hdr mem s' := by
  have hinside := h.inside
  have hstart : Copying mem romPatchBufAddr (4 * 0)
      (atLoop romPatchBufAddr ⟨mem, hdr, patchStart, [], [], []⟩) := ⟨rfl, rfl⟩
  have hreads : ∀ a ∈ (atLoop romPatchBufAddr ⟨mem, hdr, patchStart, [], [], []⟩).reads,
      InPatch hdr a := by
    have hinit : ∀ a ∈ (⟨mem, hdr, patchStart, [], [], []⟩ : Romp).reads, InPatch hdr a :=
      fun a ha => by cases ha
    refine mem_reads_read _ _ (mem_reads_read _ _ (mem_reads_read _ _ (mem_reads_read _ _
      (mem_reads_read _ _ hinit ?_) ?_) ?_) ?_) ?_
    all_goals intro a hle hlt
    · dsimp only at hlt
      exact ⟨hle, by omega⟩
    all_goals exact ⟨by omega, by omega⟩
  obtain ⟨s', hloop, hwrites, hreads⟩ := h.undisturbed.copyLoop (Q := InPatch hdr) (by omega)
    (fun a hle hlt => ⟨hle, by rw [codeAddr] at hlt; omega⟩) _ (Nat.zero_add _) hstart hreads
  refine ⟨s', hloop, fun a ha => ?_, hreads, fun w hw => ?_, ?_, hwrites⟩
  · obtain ⟨hle, hlt⟩ := ha
    rw [romPatchBufAddr] at hle hlt
    rw [InRam, sysDRamRegion0Base, sysRamSzie]
    omega
  · rw [hwrites] at hw
    obtain ⟨hle, hlt⟩ := mem_reversed hw
    have hbase := htarget.1
    have htop := h.target
    exact ⟨by omega, by omega⟩
  · rw [hwrites]
    exact nodup_reversed

/-- A download that does what it should is of a patch that is refused or fits. -/
theorem fits_of_loadsSafely (h : Accepted eep offset mem)
    (hloads : LoadsSafely eep offset mem patchAddr patchStart) :
    Fits (redirect eep offset) (downloaded eep (redirect eep offset) mem) := by
  obtain ⟨fuel, r, hdown, -, hcopied⟩ := hloads
  rw [h.download] at hdown
  obtain ⟨s', hloop, rfl⟩ := Option.map_eq_some_iff.mp hdown
  obtain ⟨hbuffer, hreads, hram, honce, hwrites⟩ := hcopied rfl
  exact fits_of_copyLoop (size_of_good h.good) h.target hloop
    ⟨hbuffer, hreads, hram, honce, hwrites⟩

/-- A target that is clear of the patch in the buffer does not disturb it. -/
theorem undisturbed_of_disjoint
    (h : ldAddr mem patch + 4 * patchWords mem patch ≤ patch ∨
      codeAddr patch + 4 * patchWords mem patch ≤ ldAddr mem patch) : Undisturbed mem patch := by
  have hcode : codeAddr patch = patch + 12 := rfl
  have hkept : ∀ n a, patch ≤ a → a < codeAddr patch + 4 * patchWords mem patch →
      written mem patch n a = mem a := by
    intro n a hle hlt
    refine writeAll_outside fun w hw => ?_
    obtain ⟨hfrom, hto⟩ := mem_reversed (List.mem_of_mem_take hw)
    omega
  refine ⟨fun n hn => hkept n _ (by omega) (by omega), fun k hk => ?_⟩
  have hlen : patchLen (written mem patch (4 * k)) patch = patchLen mem patch := by
    rw [patchLen, hkept _ _ (by omega) (by omega), hkept _ _ (by omega) (by omega), patchLen]
  rw [hlen, patchWords]
  omega

/-- The download ends, refuses a bad patch without a trace, and copies a good one inside the data
RAM from inside the patch, exactly where every patch that passes the checks fits. -/
theorem download_safe_iff (eep : Eeprom) (offset : BitVec 16) (mem : ℕ → BitVec 8)
    (patchAddr : EepRedirAddr) (patchStart : BitVec 32) :
    LoadsSafely eep offset mem patchAddr patchStart ↔
      (Accepted eep offset mem →
        Fits (redirect eep offset) (downloaded eep (redirect eep offset) mem)) := by
  constructor
  · intro hloads haccepted
    exact fits_of_loadsSafely haccepted hloads
  · intro hfits
    by_cases haccepted : Accepted eep offset mem
    · obtain ⟨s', hloop, hcopied⟩ := (hfits haccepted).copyLoop patchStart
        (size_of_good haccepted.good) haccepted.target
      refine ⟨_, _, (haccepted.download).trans (Option.map_eq_some_iff.mpr ⟨s', hloop, rfl⟩),
        fun hfails => (by cases hfails), fun _ => ?_⟩
      exact ⟨hcopied.buffer, hcopied.reads, hcopied.ram, hcopied.once, hcopied.writes⟩
    · obtain ⟨s', hdown, hrefused⟩ := refused_of_not_accepted 0 haccepted
      exact ⟨0, _, hdown, fun _ => hrefused, fun hok => (by cases hok)⟩

/-- A patch of 16 bytes, four of them code, that says it has eight bytes of code. -/
def shortPatch : Eeprom where
  eepState := true
  hword i := [0x0002, 0x0008, 0x0000, 0x0008, 0x0050, 0x0000, 0x0050, 0x0000, 0x0000,
    0x0008].getD i 0

theorem short_patch_overrun : ¬ ∀ (eep : Eeprom) (offset : BitVec 16) (mem : ℕ → BitVec 8)
    (patchAddr : EepRedirAddr) (patchStart : BitVec 32),
    LoadsSafely eep offset mem patchAddr patchStart := by
  intro h
  have haccepted : Accepted shortPatch 0 fun _ => 0 :=
    ⟨by decide, by decide, by decide +kernel, by decide +kernel⟩
  have hfits := fits_of_loadsSafely haccepted (h shortPatch 0 (fun _ => 0) ⟨0, 0⟩ 0)
  have hinside := hfits.inside
  revert hinside
  decide +kernel

end Ath9kHtc.Cmnos
