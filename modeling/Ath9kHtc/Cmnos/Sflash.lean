import Ath9kHtc.Cmnos.Spi
import Ath9kHtc.Lib.Tiles

/-!
# Programming and reading the serial flash

`cmnos_sflash_program` and `cmnos_sflash_read`.  The processor is big-endian: the first byte of a
word in memory, and of a register, is its high byte, while the controller sends and receives the
low byte first.
-/

namespace Ath9kHtc.Cmnos

/-! ## The functions -/

/-- `A_MEMCPY(&word, src, n)` -/
def memcpyWord (word : Word) (src : ℕ → BitVec 8) (n : ℕ) : Word :=
  fun i => if 3 - i.val < n then src (3 - i.val) else word i

/-- `A_MEMCPY(buf + offset, SPI_D_ADDRESS, n)` -/
def memcpyReg (buf : ℕ → BitVec 8) (offset : ℕ) (d : Word) (n : ℕ) : ℕ → BitVec 8 :=
  fun x => if offset ≤ x ∧ x < offset + n then d ⟨3 - (x - offset), by omega⟩ else buf x

/-- `write_byte` -/
def writeByte (sAddr eAddr : ℕ) : ℕ :=
  let nextPageBase := sAddr - sAddr % zmSflashPageSize + zmSflashPageSize
  let reminder := eAddr - sAddr
  let n := nextPageBase - sAddr
  let n := if 4 ≤ n then 4 else n
  if reminder < n then reminder else n

/-- The transactions of one round of `cmnos_sflash_program`. -/
def programWord (sAddr n : ℕ) (word : Word) (s : Spi) : Option Spi :=
  (sflashWriteEnable s).bind fun s =>
    (waitTillNotWriteInProcess s).bind fun s =>
      (writeAo zmSflashOpPp sAddr s).bind fun s =>
        (writeD word s).bind fun s => (writeCs (4 + n) 0 s).bind waitTillTransactionOver

/-- The loop of `cmnos_sflash_program`, for so many rounds at most; `word` is `t_word_data`. -/
def programLoop (addr eAddr : ℕ) (buf : ℕ → BitVec 8) : ℕ → ℕ → Word → Spi → Option Spi
  | 0, sAddr, _, s => if sAddr < eAddr then none else some s
  | fuel + 1, sAddr, word, s =>
    if sAddr < eAddr then
      let n := writeByte sAddr eAddr
      let word := memcpyWord word (fun i => buf (sAddr - addr + i)) n
      (programWord sAddr n word s).bind (programLoop addr eAddr buf fuel (sAddr + n) word)
    else some s

/-- `cmnos_sflash_program`; `word` is what `t_word_data` holds on the stack. -/
def cmnosSflashProgram (addr len : ℕ) (buf : ℕ → BitVec 8) (word : Word) (s : Spi) : Option Spi :=
  programLoop addr (addr + len) buf len addr word s

def readOpcode (fast : Bool) : BitVec 8 := if fast then zmSflashOpFastRead else zmSflashOpRead

/-- The transactions of one round of `cmnos_sflash_read`. -/
def readWord (fast : Bool) (addr n : ℕ) (s : Spi) : Option Spi :=
  (waitTillNotWriteInProcess s).bind fun s =>
    (writeAo (readOpcode fast) addr s).bind fun s =>
      (writeCs (if fast then 5 else 4) n s).bind waitTillTransactionOver

def readCnt (len : ℕ) : ℕ := if len % 4 ≠ 0 then len / 4 + 1 else len / 4

/-- `read_byte` -/
def readByte (len i : ℕ) : ℕ := if i = readCnt len - 1 ∧ len % 4 ≠ 0 then len % 4 else 4

/-- The loop of `cmnos_sflash_read` for so many more rounds. -/
def readLoop (fast : Bool) (addr len : ℕ) :
    ℕ → ℕ → (ℕ → BitVec 8) → Spi → Option ((ℕ → BitVec 8) × Spi)
  | 0, _, buf, s => some (buf, s)
  | n + 1, i, buf, s =>
    (readWord fast (addr + i * 4) (readByte len i) s).bind fun s =>
      readLoop fast addr len n (i + 1) (memcpyReg buf (i * 4) s.d (readByte len i)) s

/-- `cmnos_sflash_read`: the caller's memory from `buf` on, and the flash. -/
def cmnosSflashRead (fast : Bool) (addr len : ℕ) (buf : ℕ → BitVec 8) (s : Spi) :
    Option ((ℕ → BitVec 8) × Spi) :=
  readLoop fast addr len (readCnt len) 0 buf s

/-! ## How a range is cut -/

variable {s s' : Spi} {addr eAddr sAddr len fuel n i r x a : ℕ} {word : Word} {fast : Bool}
  {buf dst : ℕ → BitVec 8} {c : ℕ × ℕ}

/-- The start and the size of every page program. -/
def cuts (eAddr : ℕ) : ℕ → ℕ → List (ℕ × ℕ)
  | 0, _ => []
  | fuel + 1, sAddr =>
    if sAddr < eAddr then
      (sAddr, writeByte sAddr eAddr) :: cuts eAddr fuel (sAddr + writeByte sAddr eAddr)
    else []

theorem writeByte_eq (sAddr eAddr : ℕ) :
    writeByte sAddr eAddr = min (eAddr - sAddr) (min 4 (256 - sAddr % 256)) := by
  rw [writeByte, zmSflashPageSize]
  split_ifs <;> omega

theorem writeByte_bounds (h : sAddr < eAddr) : 0 < writeByte sAddr eAddr ∧
    writeByte sAddr eAddr ≤ 4 ∧ sAddr + writeByte sAddr eAddr ≤ eAddr ∧
    sAddr % 256 + writeByte sAddr eAddr ≤ 256 := by
  rw [writeByte_eq]
  omega

theorem cuts_tiles (hle : sAddr ≤ eAddr) (hfuel : eAddr - sAddr ≤ fuel) :
    Tiles sAddr eAddr (cuts eAddr fuel sAddr) := by
  induction fuel generalizing sAddr with
  | zero => exact Nat.le_antisymm hle (by omega)
  | succ fuel ih =>
    rw [cuts]
    split
    · rename_i hlt
      obtain ⟨hpos, -, hend, -⟩ := writeByte_bounds hlt
      exact ⟨rfl, hpos, ih hend (by omega)⟩
    · exact Nat.le_antisymm hle (by omega)

/-- One to four bytes of one page. -/
theorem cuts_small (hc : c ∈ cuts eAddr fuel sAddr) : 0 < c.2 ∧ c.2 ≤ 4 ∧ c.1 % 256 + c.2 ≤ 256 := by
  induction fuel generalizing sAddr with
  | zero => cases hc
  | succ fuel ih =>
    rw [cuts] at hc
    split at hc
    · rename_i hlt
      rcases List.mem_cons.mp hc with rfl | hrest
      · obtain ⟨hpos, hfour, -, hpage⟩ := writeByte_bounds hlt
        exact ⟨hpos, hfour, hpage⟩
      · exact ih hrest
    · cases hc

/-- Four bytes that are programmed together: they are in the range and in one page, and in phase
with the start of the range in its first page, with the page in the others. -/
def WholeWord (addr eAddr r : ℕ) : Prop :=
  addr ≤ r ∧ r + 4 ≤ eAddr ∧ r % 256 + 4 ≤ 256 ∧
    r % 4 = if r / 256 = addr / 256 then addr % 4 else 0

instance (addr eAddr r : ℕ) : Decidable (WholeWord addr eAddr r) :=
  inferInstanceAs (Decidable (_ ∧ _))

theorem mem_cuts_iff (hfuel : eAddr - sAddr ≤ fuel) :
    (r, 4) ∈ cuts eAddr fuel sAddr ↔ WholeWord sAddr eAddr r := by
  induction fuel generalizing sAddr with
  | zero =>
    rw [cuts, WholeWord]
    refine ⟨fun h => absurd h List.not_mem_nil, fun h => ?_⟩
    omega
  | succ fuel ih =>
    rw [cuts]
    split
    · rename_i hlt
      have hbounds := writeByte_bounds hlt
      rw [List.mem_cons, ih (by omega), Prod.mk.injEq, WholeWord, WholeWord]
      rw [writeByte_eq] at *
      split_ifs <;> omega
    · rename_i hge
      rw [WholeWord]
      refine ⟨fun h => absurd h List.not_mem_nil, fun h => ?_⟩
      omega

/-! ## What programming does -/

/-- A page program as the device sees it. -/
structure IsPageProgram (c : ℕ × ℕ) (x : Xcn) : Prop where
  opc : x.opc = zmSflashOpPp
  addr : x.addr = some c.1
  len : x.data.length = c.2
  rxbcnt : x.rxbcnt = 0

/-- The bytes sent of a word, the low byte first. -/
def sentBytes (word : Word) (n : ℕ) : List (BitVec 8) := (List.ofFn word).take n

theorem length_sentBytes (h : n ≤ 4) : (sentBytes word n).length = n := by
  rw [sentBytes, List.length_take, List.length_ofFn, Nat.min_eq_left h]

theorem getD_sentBytes (hi : i < n) (hn : n ≤ 4) :
    (sentBytes word n).getD i 0xff = word ⟨i, by omega⟩ := by
  have hlen : i < (sentBytes word n).length := by
    rw [length_sentBytes hn]
    exact hi
  rw [List.getD_eq_getElem _ _ hlen]
  simp only [sentBytes, List.getElem_take, List.getElem_ofFn]

/-- One round of the program loop: a write enable, then a page program the device accepts. -/
theorem programWord_eq (haddr : sAddr < sflashSize) (s : Spi) :
    ∃ s', programWord sAddr n word s = some s' ∧
      s'.flash.mem = pageProgram sAddr (sentBytes word n) s.flash.mem ∧
      effective s'.log = effective s.log ++
        [wrenXcn, ⟨zmSflashOpPp, some sAddr, sentBytes word n, 0⟩] := by
  obtain ⟨s₁, henable, -, hflash, hlog⟩ := sflashWriteEnable_eq s
  obtain ⟨s₂, hwait, hready⟩ := waitTillNotWriteInProcess_ready s₁
  set s₃ : Spi := { s₂ with opc := zmSflashOpPp, addr := sAddr, d := word } with hs₃
  have hidle : s₃.busy = 0 := hready.busy
  have hxcn : s₃.xcn (4 + n) 0 = ⟨zmSflashOpPp, some sAddr, sentBytes word n, 0⟩ := by
    rw [Spi.xcn, if_pos (Nat.le_add_right 4 n), Nat.add_sub_cancel_left]
    rfl
  have hprogram : programWord sAddr n word s = some { s₃.transact (4 + n) 0 with busy := 0 } := by
    have haddressed : ({ s₂ with opc := zmSflashOpPp, addr := sAddr } : Spi).busy = 0 :=
      hready.busy
    rw [programWord, henable, Option.bind_some, hwait, Option.bind_some, writeAo,
      write_of_idle hready.busy, Option.bind_some, Nat.mod_eq_of_lt haddr, writeD,
      write_of_idle haddressed, Option.bind_some]
    exact transact_over hidle _ _
  refine ⟨_, hprogram, ?_, ?_⟩
  · show (s₃.flash.exec (s₃.xcn (4 + n) 0) _).1.mem = _
    have hflash₃ : s₃.flash = { s.flash with wip := 0, wel := true } := by
      show s₂.flash = _
      rw [hready.flash, hflash]
    rw [hxcn, hflash₃]
    rfl
  · show effective (s₃.log ++ [s₃.xcn (4 + n) 0]) = _
    rw [hxcn, effective_append]
    have hlog₃ : effective s₃.log = effective s.log ++ [wrenXcn] := hready.log.trans hlog
    rw [hlog₃, List.append_assoc]
    rfl

/-- The bytes of one page program go to addresses that follow each other. -/
theorem programWord_mem (hn : n ≤ 4) (hpage : sAddr % 256 + n ≤ 256) {mem : ℕ → BitVec 8} :
    pageProgram sAddr (sentBytes word n) mem x =
      if h : sAddr ≤ x ∧ x < sAddr + n then mem x &&& word ⟨x - sAddr, by omega⟩ else mem x := by
  rw [pageProgram_eq (by rw [length_sentBytes hn]; exact hpage)]
  by_cases hle : sAddr ≤ x
  · rw [if_pos hle]
    by_cases hlt : x < sAddr + n
    · rw [dif_pos ⟨hle, hlt⟩, getD_sentBytes (by omega) hn]
    · rw [dif_neg fun h => hlt h.2, List.getD_eq_default]
      · exact BitVec.and_allOnes
      · rw [length_sentBytes hn]
        omega
  · rw [if_neg hle, dif_neg fun h => hle h.1]

/-- What a run of the program loop leaves behind. -/
structure Programmed (addr eAddr sAddr : ℕ) (buf : ℕ → BitVec 8) (word : Word)
    (cs : List (ℕ × ℕ)) (s s' : Spi) : Prop where
  log : ∃ xs, List.Forall₂ IsPageProgram cs xs ∧
    effective s'.log = effective s.log ++ xs.flatMap fun x => [wrenXcn, x]
  kept : ∀ x, x < sAddr ∨ eAddr ≤ x → s'.flash.mem x = s.flash.mem x
  whole : ∀ r, (r, 4) ∈ cs → (∀ i < 4, s.flash.mem (r + i) = 0xff) →
    ∀ i < 4, s'.flash.mem (r + i) = buf (r - addr + (3 - i))
  zero : ∀ m, (∀ i, word i = 0) → (∀ i < m, buf i = 0) →
    ∀ c ∈ cs, c.1 + c.2 ≤ addr + m → ∀ i < c.2, s'.flash.mem (c.1 + i) = 0

theorem Programmed.nil : Programmed addr eAddr sAddr buf word [] s s where
  log := ⟨[], .nil, (List.append_nil _).symm⟩
  kept := fun _ _ => rfl
  whole := fun _ hr => absurd hr List.not_mem_nil
  zero := fun _ _ _ _ hc => absurd hc List.not_mem_nil

theorem memcpyWord_of_lt {src : ℕ → BitVec 8} {i : Fin 4} (h : 3 - i.val < n) :
    memcpyWord word src n i = src (3 - i.val) := by
  rw [memcpyWord, if_pos h]

/-- One round in front of the others. -/
theorem Programmed.cons {s₁ : Spi} {word₁ : Word} {cs : List (ℕ × ℕ)} (haddr : addr ≤ sAddr)
    (hfour : n ≤ 4) (hpage : sAddr % 256 + n ≤ 256) (hend : sAddr + n ≤ eAddr)
    (hword : word₁ = memcpyWord word (fun i => buf (sAddr - addr + i)) n)
    (hmem : s₁.flash.mem = pageProgram sAddr (sentBytes word₁ n) s.flash.mem)
    (hlog : effective s₁.log = effective s.log ++
      [wrenXcn, ⟨zmSflashOpPp, some sAddr, sentBytes word₁ n, 0⟩])
    (htiles : Tiles (sAddr + n) eAddr cs)
    (hrest : Programmed addr eAddr (sAddr + n) buf word₁ cs s₁ s') :
    Programmed addr eAddr sAddr buf word ((sAddr, n) :: cs) s s' := by
  have hround (x : ℕ) : s₁.flash.mem x =
      if h : sAddr ≤ x ∧ x < sAddr + n then s.flash.mem x &&& word₁ ⟨x - sAddr, by omega⟩
      else s.flash.mem x := by
    rw [hmem]
    exact programWord_mem hfour hpage
  have hhead (i : ℕ) (hi : i < n) : s'.flash.mem (sAddr + i) =
      s.flash.mem (sAddr + i) &&& word₁ ⟨i, by omega⟩ := by
    rw [hrest.kept _ (.inl (by omega)), hround, dif_pos ⟨by omega, by omega⟩]
    congr 2
    exact Fin.ext (Nat.add_sub_cancel_left sAddr i)
  have hzero (m : ℕ) (hm : sAddr + n ≤ addr + m) (hw : ∀ i, word i = 0)
      (hbuf : ∀ i < m, buf i = 0) (i : Fin 4) : word₁ i = 0 := by
    rw [hword, memcpyWord]
    split
    · exact hbuf _ (by omega)
    · exact hw i
  constructor
  · obtain ⟨xs, hxs, heffective⟩ := hrest.log
    refine ⟨⟨zmSflashOpPp, some sAddr, sentBytes word₁ n, 0⟩ :: xs,
      .cons ⟨rfl, rfl, length_sentBytes hfour, rfl⟩ hxs, ?_⟩
    rw [heffective, hlog, List.append_assoc, List.flatMap_cons]
  · intro x hx
    rw [hrest.kept x (by omega), hround, dif_neg (by omega)]
  · intro r hr herased i hi
    rcases List.mem_cons.mp hr with heq | hr
    · obtain ⟨rfl, rfl⟩ := Prod.mk.inj heq
      rw [hhead i hi, herased i hi, hword, memcpyWord_of_lt (by show 3 - i < 4; omega)]
      exact BitVec.allOnes_and
    · have hlater := (htiles.bounds hr).1
      refine hrest.whole r hr (fun j hj => ?_) i hi
      rw [hround, dif_neg (by omega)]
      exact herased j hj
  · intro m hw hbuf c hc hcm i hi
    rcases List.mem_cons.mp hc with rfl | hc
    · rw [hhead i hi, hzero m hcm hw hbuf]
      exact BitVec.and_zero
    · have hlater := (htiles.bounds hc).1
      exact hrest.zero m (hzero m (by omega) hw hbuf) hbuf c hc hcm i hi

theorem programLoop_programmed (hend : eAddr ≤ sflashSize) (haddr : addr ≤ sAddr)
    (hle : sAddr ≤ eAddr) (hfuel : eAddr - sAddr ≤ fuel) (word : Word) (s : Spi) :
    ∃ s', programLoop addr eAddr buf fuel sAddr word s = some s' ∧
      Programmed addr eAddr sAddr buf word (cuts eAddr fuel sAddr) s s' := by
  induction fuel generalizing sAddr word s with
  | zero =>
    rw [programLoop, cuts, if_neg (by omega)]
    exact ⟨s, rfl, .nil⟩
  | succ fuel ih =>
    rw [programLoop, cuts]
    split
    · rename_i hlt
      obtain ⟨hpos, hfour, hstop, hpage⟩ := writeByte_bounds hlt
      set n := writeByte sAddr eAddr
      set word₁ := memcpyWord word (fun i => buf (sAddr - addr + i)) n with hword₁
      have hround : ∃ s₁, programWord sAddr n word₁ s = some s₁ ∧
          s₁.flash.mem = pageProgram sAddr (sentBytes word₁ n) s.flash.mem ∧
          effective s₁.log = effective s.log ++
            [wrenXcn, ⟨zmSflashOpPp, some sAddr, sentBytes word₁ n, 0⟩] :=
        programWord_eq (Nat.lt_of_lt_of_le hlt hend) s
      obtain ⟨s₁, hround, hmem, hlog⟩ := hround
      obtain ⟨s', hloop, hrest⟩ := ih (Nat.le_trans haddr (Nat.le_add_right _ _)) hstop (by omega)
        word₁ s₁
      refine ⟨s', ?_, .cons haddr hfour hpage hstop hword₁ hmem hlog
        (cuts_tiles hstop (by omega)) hrest⟩
      show (programWord sAddr n word₁ s).bind _ = _
      rw [hround]
      exact hloop
    · exact ⟨s, rfl, .nil⟩

/-! ## What reading does -/

/-- What the device answers to a read. -/
theorem exec_read {f : Flash} {time : ℕ} (hwip : f.wip = 0) (fast : Bool) (d : Word) :
    f.exec ⟨readOpcode fast, some a, (List.ofFn d).take ((if fast then 5 else 4) - 4), n⟩ time =
      (f, (List.range n).map fun i => f.mem ((a + i) % sflashSize)) := by
  have hother : readOpcode fast ≠ zmSflashOpRdsr ∧ readOpcode fast ≠ zmSflashOpWren ∧
      readOpcode fast ≠ zmSflashOpPp := by
    cases fast <;> decide
  have hdata : readOpcode fast = zmSflashOpRead ∧
        ((List.ofFn d).take ((if fast then 5 else 4) - 4)).length = 0 ∨
      readOpcode fast = zmSflashOpFastRead ∧
        ((List.ofFn d).take ((if fast then 5 else 4) - 4)).length = 1 := by
    cases fast with
    | false => exact .inl ⟨rfl, rfl⟩
    | true => exact .inr ⟨rfl, rfl⟩
  rw [Flash.exec, if_neg hother.1, if_neg (not_not.mpr hwip), if_neg hother.2.1]
  exact (if_neg fun h => hother.2.2 h.1).trans (if_pos hdata)

/-- One round of the read loop fills the low bytes of the data register and leaves the others. -/
structure WordRead (a n : ℕ) (s s' : Spi) : Prop where
  mem : s'.flash.mem = s.flash.mem
  got : ∀ i : Fin 4, i.val < n → s'.d i = s.flash.mem (a + i.val)
  kept : ∀ i : Fin 4, n ≤ i.val → i ≠ 0 → s'.d i = s.d i

theorem readWord_read (hlt : a < sflashSize) (hend : a + n ≤ sflashSize) (fast : Bool) (s : Spi) :
    ∃ s', readWord fast a n s = some s' ∧ WordRead a n s s' := by
  obtain ⟨s₁, hwait, hready⟩ := waitTillNotWriteInProcess_ready s
  set s₂ : Spi := { s₁ with opc := readOpcode fast, addr := a }
  have hidle : s₂.busy = 0 := hready.busy
  set tx : ℕ := if fast then 5 else 4 with htx
  have hread : readWord fast a n s = some { s₂.transact tx n with busy := 0 } := by
    rw [readWord, hwait, Option.bind_some, writeAo, write_of_idle hready.busy, Option.bind_some,
      Nat.mod_eq_of_lt hlt]
    exact transact_over hidle _ _
  have hxcn : s₂.xcn tx n = ⟨readOpcode fast, some a, (List.ofFn s₁.d).take (tx - 4), n⟩ := by
    have hfour : 4 ≤ tx := by
      rw [htx]
      cases fast <;> decide
    rw [Spi.xcn, if_pos hfour]
  have hflash : s₂.flash = { s.flash with wip := 0 } := hready.flash
  have hexec (time : ℕ) : s₂.flash.exec (s₂.xcn tx n) time =
      (s₂.flash, (List.range n).map fun i => s.flash.mem ((a + i) % sflashSize)) := by
    rw [hxcn, htx, exec_read (by rw [hflash]), hflash]
  have hd : (s₂.transact tx n).d = receive s₁.d
      ((List.range n).map fun i => s.flash.mem ((a + i) % sflashSize)) := by
    show receive s₁.d (s₂.flash.exec (s₂.xcn tx n) _).2 = _
    rw [hexec]
  refine ⟨_, hread, ?_, fun i hi => ?_, fun i hi hne => ?_⟩
  · show (s₂.flash.exec (s₂.xcn tx n) _).1.mem = _
    rw [hexec, hflash]
  · show (s₂.transact tx n).d i = _
    have hlen : i.val < ((List.range n).map fun i => s.flash.mem ((a + i) % sflashSize)).length := by
      rw [List.length_map, List.length_range]
      exact hi
    rw [hd, receive, List.getD_eq_getElem _ _ hlen, List.getElem_map, List.getElem_range,
      Nat.mod_eq_of_lt (by omega)]
  · show (s₂.transact tx n).d i = _
    rw [hd, receive, List.getD_eq_default, hready.kept i hne]
    rw [List.length_map, List.length_range]
    exact hi

theorem readCnt_eq (len : ℕ) : readCnt len = (len + 3) / 4 := by
  rw [readCnt]
  split_ifs <;> omega

/-- So many bytes of a round are inside the range. -/
theorem readByte_eq (hi : i < readCnt len) : readByte len i = min 4 (len - i * 4) := by
  rw [readCnt_eq] at hi
  rw [readByte, readCnt_eq]
  split_ifs <;> omega

/-- What a run of the read loop leaves behind. -/
structure ReadOut (a len i : ℕ) (dst : ℕ → BitVec 8) (s : Spi) (out : (ℕ → BitVec 8) × Spi) :
    Prop where
  outside : ∀ x, x < i * 4 ∨ len ≤ x → out.1 x = dst x
  whole : ∀ w, i ≤ w → w < len / 4 → ∀ j < 4,
    out.1 (w * 4 + j) = s.flash.mem (a + w * 4 + (3 - j))
  stale : i * 4 ≤ len → len % 4 ≠ 0 → out.1 (len / 4 * 4) =
    if i = len / 4 then s.d 3 else s.flash.mem (a + len / 4 * 4 - 1)

theorem readLoop_readOut (hend : a + len ≤ sflashSize) (hn : n + i = readCnt len) (fast : Bool)
    (dst : ℕ → BitVec 8) (s : Spi) :
    ∃ out, readLoop fast a len n i dst s = some out ∧ ReadOut a len i dst s out := by
  induction n generalizing i dst s with
  | zero =>
    rw [readCnt_eq] at hn
    refine ⟨(dst, s), rfl, fun _ _ => rfl, fun w hw hlt => ?_, fun hle hrem => ?_⟩
    · omega
    · omega
  | succ n ih =>
    have hi : i < readCnt len := by omega
    have hsize := readByte_eq hi
    rw [readCnt_eq] at hi
    set m := readByte len i with hm
    have hround : ∃ s₁, readWord fast (a + i * 4) m s = some s₁ ∧ WordRead (a + i * 4) m s s₁ :=
      readWord_read (by omega) (by omega) fast s
    obtain ⟨s₁, hround, hword⟩ := hround
    set dst₁ := memcpyReg dst (i * 4) s₁.d m with hdst₁
    have hnext : n + (i + 1) = readCnt len := by omega
    obtain ⟨out, hloop, hrest⟩ := ih hnext dst₁ s₁
    have hread : readLoop fast a len (n + 1) i dst s = some out := by
      rw [readLoop, hround]
      exact hloop
    refine ⟨out, hread, fun x hx => ?_, fun w hw hlt j hj => ?_, fun hle hrem => ?_⟩
    · rw [hrest.outside x (by omega), hdst₁, memcpyReg, if_neg (by omega)]
    · rcases Nat.eq_or_lt_of_le hw with rfl | hw
      · rw [hrest.outside (i * 4 + j) (.inl (by omega)), hdst₁, memcpyReg, if_pos (by omega),
          hword.got _ (by show 3 - (i * 4 + j - i * 4) < m; omega)]
        congr 1
        show a + i * 4 + (3 - (i * 4 + j - i * 4)) = _
        omega
      · rw [hrest.whole w hw hlt j hj, hword.mem]
    · by_cases hlast : i = len / 4
      · rw [if_pos hlast, ← hlast, hrest.outside (i * 4) (.inl (by omega)), hdst₁, memcpyReg,
          if_pos (by omega)]
        have hthree : (⟨3 - (i * 4 - i * 4), by omega⟩ : Fin 4) = 3 :=
          Fin.ext (by show 3 - (i * 4 - i * 4) = 3; omega)
        rw [hthree]
        exact hword.kept 3 (by show m ≤ 3; omega) (by decide)
      · rw [if_neg hlast, hrest.stale (by omega) hrem, hword.mem]
        split
        · rename_i hnext
          rw [hword.got 3 (by show 3 < m; omega)]
          congr 1
          show a + i * 4 + 3 = _
          omega
        · rfl

/-! ## Programming a range and reading it back -/

/-- Programming ends, and its transactions are page programs of one to four bytes, each behind a
write enable, that cover the range once and in order and never leave a page. -/
def Covers (addr len : ℕ) : Prop :=
  ∀ (buf : ℕ → BitVec 8) (word : Word) (s : Spi), ∃ s' cs xs,
    cmnosSflashProgram addr len buf word s = some s' ∧ Tiles addr (addr + len) cs ∧
    (∀ c ∈ cs, c.2 ≤ 4 ∧ c.1 / zmSflashPageSize = (c.1 + c.2 - 1) / zmSflashPageSize) ∧
    List.Forall₂ IsPageProgram cs xs ∧
    effective s'.log = effective s.log ++ xs.flatMap fun x => [wrenXcn, x]

/-- Reading ends, and stays inside the caller's buffer. -/
def StaysInside (fast : Bool) (a n : ℕ) : Prop :=
  ∀ (dst : ℕ → BitVec 8) (s : Spi), ∃ out,
    cmnosSflashRead fast a n dst s = some out ∧ ∀ i, n ≤ i → out.1 i = dst i

/-- Whatever was programmed into a range that was erased is read back, whenever that is and
whatever the registers of the controller hold then. -/
def ReadsBack (addr len : ℕ) (fast : Bool) (a n : ℕ) : Prop :=
  ∀ (buf : ℕ → BitVec 8) (word : Word) (s s' : Spi),
    (∀ x, addr ≤ x → x < addr + len → s.flash.mem x = 0xff) →
    cmnosSflashProgram addr len buf word s = some s' →
    ∀ (t : Spi) (dst : ℕ → BitVec 8) (out : (ℕ → BitVec 8) × Spi), t.flash.mem = s'.flash.mem →
      cmnosSflashRead fast a n dst t = some out → ∀ i < n, out.1 i = buf (a - addr + i)

theorem program_programmed (hend : addr + len ≤ sflashSize) (buf : ℕ → BitVec 8) (word : Word)
    (s : Spi) : ∃ s', cmnosSflashProgram addr len buf word s = some s' ∧
      Programmed addr (addr + len) addr buf word (cuts (addr + len) len addr) s s' :=
  programLoop_programmed hend (Nat.le_refl _) (Nat.le_add_right _ _) (by omega) word s

theorem read_readOut (hend : a + n ≤ sflashSize) (fast : Bool) (dst : ℕ → BitVec 8) (s : Spi) :
    ∃ out, cmnosSflashRead fast a n dst s = some out ∧ ReadOut a n 0 dst s out :=
  readLoop_readOut hend rfl fast dst s

theorem program_covers (hend : addr + len ≤ sflashSize) : Covers addr len := by
  intro buf word s
  obtain ⟨s', hprogram, hdone⟩ := program_programmed hend buf word s
  obtain ⟨xs, hxs, hlog⟩ := hdone.log
  refine ⟨s', _, xs, hprogram, cuts_tiles (Nat.le_add_right _ _) (by omega), fun c hc => ?_, hxs,
    hlog⟩
  obtain ⟨hpos, hfour, hpage⟩ := cuts_small hc
  rw [zmSflashPageSize]
  omega

theorem read_staysInside (hend : a + n ≤ sflashSize) : StaysInside fast a n := by
  intro dst s
  obtain ⟨out, hread, hout⟩ := read_readOut hend fast dst s
  exact ⟨out, hread, fun i hi => hout.outside i (.inr hi)⟩

/-- An erased flash and its controller, both idle. -/
def erasedSpi : Spi where
  busy := 0
  opc := 0
  addr := 0
  d := fun _ => 0
  flash := ⟨fun _ => 0xff, false, 0⟩
  delays := fun _ => (0, 0)
  log := []

/-- A buffer that is zero but for one byte. -/
def oneByte (k : ℕ) : ℕ → BitVec 8 := fun i => if i = k then 1 else 0

theorem oneByte_of_lt {k : ℕ} (h : i < k) : oneByte k i = 0 := if_neg (Nat.ne_of_lt h)

/-- Before the page program that holds the byte is reached, only zeros are programmed. -/
theorem oneByte_programmed {k : ℕ} (hend : addr + len ≤ sflashSize) :
    ∃ s', cmnosSflashProgram addr len (oneByte k) (fun _ => 0) erasedSpi = some s' ∧
      ∀ c ∈ cuts (addr + len) len addr, c.1 + c.2 ≤ addr + k → ∀ i < c.2,
        s'.flash.mem (c.1 + i) = 0 := by
  obtain ⟨s', hprogram, hdone⟩ := program_programmed hend (oneByte k) (fun _ => 0) erasedSpi
  exact ⟨s', hprogram, hdone.zero k (fun _ => rfl) fun i hi => oneByte_of_lt hi⟩

theorem cut_of (hlo : addr ≤ x) (hhi : x < addr + len) :
    ∃ c ∈ cuts (addr + len) len addr, c.1 ≤ x ∧ x < c.1 + c.2 :=
  (cuts_tiles (Nat.le_add_right _ _) (by omega)).exists_mem hlo hhi

/-- A whole word of a read that always returns what was programmed was programmed as one. -/
theorem ReadsBack.whole (hend : addr + len ≤ sflashSize) (hlo : addr ≤ a)
    (hhi : a + n ≤ addr + len) (h : ReadsBack addr len fast a n) {w : ℕ} (hw : w < n / 4) :
    (a + w * 4, 4) ∈ cuts (addr + len) len addr := by
  obtain ⟨s', hprogram, hzero⟩ := oneByte_programmed (k := a - addr + w * 4 + 3) hend
  obtain ⟨out, hread, hout⟩ := read_readOut (a := a) (n := n) (by omega) fast (fun _ => 0) s'
  have hbyte := h _ _ _ _ (fun _ _ _ => rfl) hprogram s' _ out rfl hread (w * 4 + 3) (by omega)
  rw [hout.whole w (Nat.zero_le w) hw 3 (by omega)] at hbyte
  have hcut : ∃ c ∈ cuts (addr + len) len addr, c.1 ≤ a + w * 4 ∧ a + w * 4 < c.1 + c.2 :=
    cut_of (by omega) (by omega)
  obtain ⟨c, hc, hle, hlt⟩ := hcut
  have hsmall := cuts_small hc
  have hlong : ¬c.1 + c.2 ≤ a + w * 4 + 3 := by
    intro hshort
    have hnone := hzero c hc (by omega) (a + w * 4 - c.1) (by omega)
    rw [Nat.add_sub_cancel' hle] at hnone
    have hone : oneByte (a - addr + w * 4 + 3) (a - addr + (w * 4 + 3)) = 1 := if_pos rfl
    rw [hone, Nat.sub_self, Nat.add_zero, hnone] at hbyte
    exact absurd hbyte (by decide)
  obtain ⟨start, size⟩ := c
  have hstart : start = a + w * 4 := by omega
  have hsize : size = 4 := by omega
  rw [hstart, hsize] at hc
  exact hc

/-- A read that ends with a part of a word does not always return what was programmed. -/
theorem ReadsBack.aligned (hend : addr + len ≤ sflashSize) (hlo : addr ≤ a)
    (hhi : a + n ≤ addr + len) (h : ReadsBack addr len fast a n) : n % 4 = 0 := by
  by_contra hrem
  obtain ⟨s', hprogram, hzero⟩ := oneByte_programmed (k := a - addr + n / 4 * 4) hend
  set t : Spi := { s' with d := fun _ => 0 } with ht
  obtain ⟨out, hread, hout⟩ := read_readOut (a := a) (n := n) (by omega) fast (fun _ => 0) t
  have hbyte := h _ _ _ _ (fun _ _ _ => rfl) hprogram t _ out rfl hread (n / 4 * 4) (by omega)
  have hone : oneByte (a - addr + n / 4 * 4) (a - addr + n / 4 * 4) = 1 := if_pos rfl
  rw [hone, hout.stale (Nat.zero_le _) hrem] at hbyte
  split at hbyte
  · have hstale : t.d 3 = 0 := rfl
    rw [hstale] at hbyte
    exact absurd hbyte (by decide)
  · have hlast : (a + (n / 4 - 1) * 4, 4) ∈ cuts (addr + len) len addr :=
      h.whole hend hlo hhi (by omega)
    have hend : a + (n / 4 - 1) * 4 + 4 ≤ addr + (a - addr + n / 4 * 4) := by omega
    have hnone := hzero _ hlast hend 3 (Nat.lt_succ_self 3)
    have hplace : a + (n / 4 - 1) * 4 + 3 = a + n / 4 * 4 - 1 := by omega
    rw [hplace] at hnone
    rw [show t.flash.mem = s'.flash.mem from rfl, hnone] at hbyte
    exact absurd hbyte (by decide)

/-- Reading whole words that were programmed as such. -/
theorem readsBack_of_whole (hend : addr + len ≤ sflashSize) (hlo : addr ≤ a)
    (hhi : a + n ≤ addr + len) (hrem : n % 4 = 0)
    (h : ∀ w < n / 4, WholeWord addr (addr + len) (a + w * 4)) :
    ReadsBack addr len fast a n := by
  intro buf word s s' herased hprogram t dst out hmem hread i hi
  obtain ⟨s₁, hprogram₁, hdone⟩ := program_programmed hend buf word s
  obtain rfl : s₁ = s' := Option.some_inj.mp (hprogram₁.symm.trans hprogram)
  obtain ⟨out₁, hread₁, hout⟩ := read_readOut (a := a) (n := n) (by omega) fast dst t
  obtain rfl : out₁ = out := Option.some_inj.mp (hread₁.symm.trans hread)
  have hw : i / 4 < n / 4 := by omega
  have hwhole := h (i / 4) hw
  have hcut : (a + i / 4 * 4, 4) ∈ cuts (addr + len) len addr :=
    (mem_cuts_iff (by omega)).mpr hwhole
  have hsplit : i = i / 4 * 4 + i % 4 := by omega
  have hbyte : s₁.flash.mem (a + i / 4 * 4 + (3 - i % 4)) =
      buf (a + i / 4 * 4 - addr + (3 - (3 - i % 4))) := by
    refine hdone.whole _ hcut (fun j hj => herased _ ?_ ?_) _ (by omega)
    · exact Nat.le_trans hwhole.1 (Nat.le_add_right _ _)
    · have hin := hwhole.2.1
      omega
  rw [hsplit, hout.whole (i / 4) (Nat.zero_le _) hw (i % 4) (Nat.mod_lt _ (by decide)), hmem, hbyte]
  congr 1
  omega

/-- Programming always cuts its range as it should, and reading never leaves its buffer; what is
read is what was programmed exactly when it consists of words that were programmed as such. -/
theorem sflash_read_back (hend : addr + len ≤ sflashSize) (hlo : addr ≤ a)
    (hhi : a + n ≤ addr + len) :
    Covers addr len ∧ StaysInside fast a n ∧
      (ReadsBack addr len fast a n ↔
        n % 4 = 0 ∧ ∀ w < n / 4, WholeWord addr (addr + len) (a + w * 4)) := by
  refine ⟨program_covers hend, read_staysInside (by omega), fun h => ?_, fun h => ?_⟩
  · refine ⟨h.aligned hend hlo hhi, fun w hw => ?_⟩
    exact (mem_cuts_iff (by omega)).mp (h.whole hend hlo hhi hw)
  · exact readsBack_of_whole hend hlo hhi h.1 h.2

theorem second_page_read_back : Covers 250 12 ∧ StaysInside true 256 4 ∧
    ReadsBack 250 12 true 256 4 ∧ ¬ReadsBack 250 12 true 252 4 := by
  obtain ⟨hcovers, hinside, hback⟩ : Covers 250 12 ∧ StaysInside true 256 4 ∧
      (ReadsBack 250 12 true 256 4 ↔
        4 % 4 = 0 ∧ ∀ w < 4 / 4, WholeWord 250 (250 + 12) (256 + w * 4)) :=
    sflash_read_back (by decide) (by decide) (by decide)
  obtain ⟨-, -, hacross⟩ : Covers 250 12 ∧ StaysInside true 252 4 ∧
      (ReadsBack 250 12 true 252 4 ↔
        4 % 4 = 0 ∧ ∀ w < 4 / 4, WholeWord 250 (250 + 12) (252 + w * 4)) :=
    sflash_read_back (by decide) (by decide) (by decide)
  exact ⟨hcovers, hinside, hback.mpr (by decide), fun h => absurd (hacross.mp h) (by decide)⟩

/-- Five bytes programmed at the start of an erased flash: the fifth comes back as the first. -/
theorem last_byte_not_read_back : ¬∀ addr len fast a n, addr + len ≤ sflashSize → addr ≤ a →
    a + n ≤ addr + len → ReadsBack addr len fast a n := by
  intro h
  have hbytes : ((cmnosSflashProgram 0 5 (fun i => BitVec.ofNat 8 (i + 1)) (fun _ => 0)
      erasedSpi).bind fun s => (cmnosSflashRead false 0 5 (fun _ => 0) s).map fun out =>
        (List.range 5).map out.1) = some [1, 2, 3, 4, 1] := by decide +kernel
  obtain ⟨s', hprogram, hbytes⟩ := Option.bind_eq_some_iff.mp hbytes
  obtain ⟨out, hread, hbytes⟩ := Option.map_eq_some_iff.mp hbytes
  have hback := h 0 5 false 0 5 (by decide) (by decide) (by decide) _ _ erasedSpi s'
    (fun _ _ _ => rfl) hprogram s' _ out rfl hread 4 (by decide)
  have hfifth : out.1 4 = 1 := by
    have heq := congrArg (fun l => l.getD 4 0) hbytes
    exact heq
  rw [hfifth] at hback
  exact absurd hback (by decide)

end Ath9kHtc.Cmnos
