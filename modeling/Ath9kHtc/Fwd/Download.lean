import Ath9kHtc.Lib.Memory
import Mathlib.Data.BitVec

/-!
# Firmware download

The boot loader gets the firmware in segments (`fwd.c`).  The first says where it goes, each is
answered, and behind the last come a check sum and the place to jump to.
-/

namespace Ath9kHtc.Fwd

open Memory

abbrev Word := BitVec 32

/-- `fwd_cmd_t`, and the words behind it in the buffer. -/
structure FwdCmd where
  moreData : BitVec 16
  len : BitVec 16
  offset : Word
  image : List Word
  deriving DecidableEq

/-- `FWD_RSP_ACK`, `FWD_RSP_SUCCESS` and `FWD_RSP_FAILED` -/
inductive FwdRspCode
  | ack | success | failed
  deriving DecidableEq, Repr

/-- `fwd_rsp_t` -/
structure FwdRsp where
  rsp : FwdRspCode
  offset : Word
  deriving DecidableEq

/-- `fwd_sc.addr`, the memory by words, the responses, and the function that was called. -/
structure Softc where
  addr : Word
  mem : ℕ → Word
  sent : List FwdRsp
  jump : Option Word

/-- The words that a loop in steps of 4 bytes goes through. -/
def wordsOf (len : Word) : ℕ := (len.toNat + 3) / 4

/-- The number of the word at an address.  Words are aligned and do not go past the end. -/
def wordAt (a : Word) (n : ℕ) : Option ℕ :=
  if a.toNat % 4 = 0 ∧ a.toNat / 4 + n ≤ 2 ^ 30 then some (a.toNat / 4) else none

def xorAll (ws : List Word) : Word := ws.foldl (· ^^^ ·) 0#32

/-- `fwd_tgt_process_last` -/
def fwdTgtProcessLast (mem : ℕ → Word) (addr size cksum : Word) : Option Bool :=
  (wordAt addr (wordsOf size)).map fun a => xorAll (fetch mem a (wordsOf size)) == cksum

/-- The address that a segment goes by and its words; the first of the file has the address. -/
def FwdCmd.target (c : FwdCmd) (addr : Word) : Option (Word × List Word) :=
  if c.offset = 0 then
    match c.image with
    | [] => none
    | addr :: image => some (addr, image)
  else some (addr, c.image)

/-- The bytes of the image in a segment; the length of the last counts the check sum. -/
def FwdCmd.size (c : FwdCmd) : Word :=
  if c.moreData = 0 then c.len.setWidth 32 - 4 else c.len.setWidth 32

/-- The answer to the last segment, and the jump. -/
def finish (c : FwdCmd) (rest : List Word) (sc : Softc) : Option Softc :=
  match rest with
  | cksum :: eloc :: _ =>
    (fwdTgtProcessLast sc.mem sc.addr (c.offset + c.size) cksum).map fun ok =>
      { sc with
        sent := sc.sent ++ [⟨if ok then .success else .failed, c.offset⟩]
        jump := if ok then some eloc else sc.jump }
  | _ => none

/-- `fwd_tgt_recv`, without a result where it reads behind the buffer or an address is bad. -/
def fwdTgtRecv (c : FwdCmd) (sc : Softc) : Option Softc := do
  let (addr, image) ← c.target sc.addr
  let dst ← wordAt (addr + c.offset) (wordsOf c.size)
  if image.length < wordsOf c.size then none
  else
    let sc := { sc with addr, mem := store sc.mem dst (image.take (wordsOf c.size)) }
    if c.moreData ≠ 0 then some { sc with sent := sc.sent ++ [⟨.ack, c.offset⟩] }
    else finish c (image.drop (wordsOf c.size)) sc

/-- The segments one after the other; after the jump the loader gets none. -/
def recvAll : List FwdCmd → Softc → Option Softc
  | [], sc => some sc
  | c :: cs, sc => if sc.jump = none then (fwdTgtRecv c sc).bind (recvAll cs) else none

/-! ## Pieces of an image -/

/-- The segment brings the `n` words of the image from word `k` on. -/
structure Piece (base : Word) (img : List Word) (k n : ℕ) (rest : List Word) (c : FwdCmd) : Prop where
  offset : c.offset = BitVec.ofNat 32 (4 * k)
  size : wordsOf c.size = n
  within : k + n ≤ img.length
  image : c.image = (if k = 0 then [base] else []) ++ ((img.drop k).take n ++ rest)

/-- The image has its place in the memory. -/
structure Fits (base : Word) (img : List Word) : Prop where
  aligned : base.toNat % 4 = 0
  room : base.toNat / 4 + img.length < 2 ^ 30

section

variable {base : Word} {img : List Word} {k n i : ℕ} {rest : List Word} {c : FwdCmd} {sc sc' : Softc}

theorem xorAll_cons (w : Word) (ws : List Word) : xorAll (w :: ws) = w ^^^ xorAll ws := by
  have hfold : ∀ (l : List Word) (a : Word), l.foldl (· ^^^ ·) a = a ^^^ xorAll l := by
    intro l
    induction l with
    | nil => exact fun a => BitVec.xor_zero.symm
    | cons b l ih =>
        intro a
        rw [xorAll, List.foldl_cons, List.foldl_cons, ih, ih, BitVec.zero_xor, BitVec.xor_assoc]
  rw [xorAll, List.foldl_cons, BitVec.zero_xor, hfold]

/-- One wrong word shows. -/
theorem xorAll_set {ws : List Word} (hi : i < ws.length) (w : Word) :
    xorAll (ws.set i w) = xorAll ws ↔ w = ws[i] := by
  induction ws generalizing i with
  | nil => exact absurd hi (Nat.not_lt_zero i)
  | cons v ws ih =>
      cases i with
      | zero =>
          rw [List.set_cons_zero, xorAll_cons, xorAll_cons, List.getElem_cons_zero]
          exact BitVec.xor_left_inj _
      | succ i =>
          rw [List.set_cons_succ, xorAll_cons, xorAll_cons, List.getElem_cons_succ]
          exact (BitVec.xor_right_inj _).trans (ih (Nat.lt_of_succ_lt_succ hi))

/-! ## One segment -/

namespace Piece

variable (h : Piece base img k n rest c) (hfits : Fits base img)

include h hfits

theorem offset_toNat : c.offset.toNat = 4 * k := by
  have hk := h.within
  have hroom := hfits.room
  rw [h.offset, BitVec.toNat_ofNat]
  omega

theorem target_eq {addr : Word} (haddr : c.offset = 0 ∨ addr = base) :
    c.target addr = some (base, (img.drop k).take n ++ rest) := by
  have hk := h.offset_toNat hfits
  rw [FwdCmd.target, h.image]
  rcases Nat.eq_zero_or_pos k with rfl | hpos
  · have hzero : c.offset = 0 := BitVec.eq_of_toNat_eq hk
    rw [if_pos hzero, if_pos rfl]
    rfl
  · have hne : c.offset ≠ 0 := by
      intro hzero
      rw [hzero] at hk
      exact absurd hk.symm (by simpa using hpos.ne')
    rw [if_neg hne, if_neg hpos.ne', haddr.resolve_left hne]
    rfl

theorem wordAt_eq : wordAt (base + c.offset) n = some (base.toNat / 4 + k) := by
  have hk := h.offset_toNat hfits
  have hsum : (base + c.offset).toNat = base.toNat + 4 * k := by
    have hroom := hfits.room
    have hwithin := h.within
    rw [BitVec.toNat_add, hk]
    omega
  have haligned := hfits.aligned
  have hroom := hfits.room
  have hwithin := h.within
  rw [wordAt, hsum, if_pos ⟨by omega, by omega⟩]
  congr 1
  omega

omit hfits in
theorem length_take : ((img.drop k).take n).length = n := by
  have hwithin := h.within
  rw [List.length_take, List.length_drop]
  omega

/-- The words go to their place; what comes then depends on whether there is more. -/
theorem recv_eq (haddr : c.offset = 0 ∨ sc.addr = base) :
    fwdTgtRecv c sc =
      if c.moreData ≠ 0 then
        some { sc with
          addr := base
          mem := store sc.mem (base.toNat / 4 + k) ((img.drop k).take n)
          sent := sc.sent ++ [⟨.ack, c.offset⟩] }
      else
        finish c rest { sc with
          addr := base
          mem := store sc.mem (base.toNat / 4 + k) ((img.drop k).take n) } := by
  have hlen := h.length_take
  have htake : ((img.drop k).take n ++ rest).take n = (img.drop k).take n := by
    rw [List.take_append_of_le_length hlen.ge, List.take_of_length_le hlen.le]
  have hdrop : ((img.drop k).take n ++ rest).drop n = rest := List.drop_left' hlen
  have hroom : ¬ ((img.drop k).take n ++ rest).length < n := by
    rw [List.length_append, hlen]
    omega
  rw [fwdTgtRecv, h.target_eq hfits haddr]
  simp only [Option.bind_eq_bind, Option.bind_some, h.size, h.wordAt_eq hfits]
  rw [if_neg hroom, htake, hdrop]

end Piece

/-! ## The whole download -/

/-- A segment before the last that brings word `i` of the image, among others. -/
def Brings (base : Word) (img : List Word) (c : FwdCmd) (i : ℕ) : Prop :=
  ∃ k n rest, Piece base img k n rest c ∧ k ≤ i ∧ i < k + n

/-- The words of the image that have come are in their place, and nothing else has changed. -/
structure Loaded (base : Word) (img : List Word) (mem : ℕ → Word) (come : ℕ → Prop) (mem' : ℕ → Word) :
    Prop where
  right : ∀ (i : ℕ) (hi : i < img.length), come i → mem' (base.toNat / 4 + i) = img[i]
  outside : ∀ a, a < base.toNat / 4 ∨ base.toNat / 4 + img.length ≤ a → mem' a = mem a

variable {come : ℕ → Prop} {mem mem' : ℕ → Word} {cmds : List FwdCmd} {last : FwdCmd}

/-- What a segment brings comes to what was there. -/
theorem Loaded.store (h : Loaded base img mem come mem') (hp : Piece base img k n rest c) :
    Loaded base img mem (fun i => come i ∨ k ≤ i ∧ i < k + n)
      (store mem' (base.toNat / 4 + k) ((img.drop k).take n)) := by
  have hlen := hp.length_take
  have hwithin := hp.within
  constructor
  · intro i hi hcome
    by_cases hin : k ≤ i ∧ i < k + n
    · obtain ⟨j, rfl⟩ := Nat.exists_eq_add_of_le hin.1
      have hj : j < ((img.drop k).take n).length := by omega
      rw [← Nat.add_assoc, store_inside hj, List.getElem_take, List.getElem_drop]
    · rw [store_outside (by omega)]
      exact h.right i hi (hcome.resolve_right hin)
  · intro a ha
    rw [store_outside (by omega)]
    exact h.outside a ha

theorem recvAll_append (cs cs' : List FwdCmd) (sc : Softc) :
    recvAll (cs ++ cs') sc = (recvAll cs sc).bind (recvAll cs') := by
  induction cs generalizing sc with
  | nil => rfl
  | cons c cs ih =>
      rw [List.cons_append, recvAll, recvAll]
      split
      · rw [Option.bind_assoc]
        congr
        funext sc'
        exact ih sc'
      · rfl

/-- A segment says which words it brings. -/
theorem Piece.of_brings (h : Piece base img k n rest c) (hfits : Fits base img)
    (hbrings : Brings base img c i) : k ≤ i ∧ i < k + n := by
  obtain ⟨k', n', rest', h', hlo, hhi⟩ := hbrings
  have hk := h.offset_toNat hfits
  have hk' := h'.offset_toNat hfits
  have hn := h.size
  have hn' := h'.size
  omega

/-- The segments before the last are acknowledged one by one. -/
theorem recvAll_middle (hfits : Fits base img) (mem : ℕ → Word) (hjump : sc.jump = none)
    (hmore : ∀ c ∈ cmds, c.moreData ≠ 0 ∧ ∃ k n rest, Piece base img k n rest c)
    (hfirst : (∀ c ∈ cmds.head?, c.offset = 0) ∨ sc.addr = base)
    (hloaded : Loaded base img mem come sc.mem) :
    ∃ sc', recvAll cmds sc = some sc' ∧ sc'.jump = none ∧ (cmds = [] ∨ sc'.addr = base) ∧
      sc'.sent = sc.sent ++ cmds.map (fun c => ⟨.ack, c.offset⟩) ∧
      Loaded base img mem (fun i => come i ∨ ∃ c ∈ cmds, Brings base img c i) sc'.mem := by
  induction cmds generalizing sc come with
  | nil =>
      refine ⟨sc, rfl, hjump, .inl rfl, (List.append_nil _).symm, ?_, hloaded.outside⟩
      intro i hi hcome
      refine hloaded.right i hi (hcome.resolve_right ?_)
      rintro ⟨c, hc, -⟩
      exact absurd hc List.not_mem_nil
  | cons c cmds ih =>
      obtain ⟨hdata, k, n, rest, hpiece⟩ := hmore c List.mem_cons_self
      have haddr : c.offset = 0 ∨ sc.addr = base := hfirst.imp_left fun h => h c rfl
      have hrecv := hpiece.recv_eq hfits haddr
      rw [if_pos hdata] at hrecv
      set next : Softc := { sc with
        addr := base
        mem := store sc.mem (base.toNat / 4 + k) ((img.drop k).take n)
        sent := sc.sent ++ [⟨.ack, c.offset⟩] } with hnext
      have hopen : next.jump = none := hjump
      have hcome : Loaded base img mem (fun i => come i ∨ k ≤ i ∧ i < k + n) next.mem :=
        hloaded.store hpiece
      obtain ⟨sc', hrun, hjump', hbase, hsent, hright, houtside⟩ :=
        ih hopen (fun c' hc' => hmore c' (List.mem_cons_of_mem _ hc')) (.inr rfl) hcome
      refine ⟨sc', ?_, hjump', .inr ?_, ?_, ?_, houtside⟩
      · rw [recvAll, if_pos hjump, hrecv]
        exact hrun
      · rcases hbase with rfl | hbase
        · rw [← Option.some.inj hrun]
        · exact hbase
      · rw [hsent, List.map_cons, List.append_assoc]
        rfl
      · intro i hi hcome
        apply hright i hi
        rcases hcome with hcome | ⟨c', hc', hbrings⟩
        · exact .inl (.inl hcome)
        · rcases List.mem_cons.mp hc' with rfl | hc'
          · exact .inl (.inr (hpiece.of_brings hfits hbrings))
          · exact .inr ⟨c', hc', hbrings⟩

/-- The memory holds the image. -/
theorem Loaded.fetch_eq (h : Loaded base img mem come mem') (hall : ∀ i < img.length, come i) :
    fetch mem' (base.toNat / 4) img.length = img := by
  apply List.ext_getElem length_fetch
  intro i hi hi'
  simp only [fetch, List.getElem_map, List.getElem_range]
  exact h.right i hi' (hall i hi')

/-- The words that the check sum is made of are those up to the end of the last segment. -/
theorem Piece.wordsOf_end (h : Piece base img k n rest c) (hfits : Fits base img) :
    wordsOf (c.offset + c.size) = k + n := by
  have hk := h.offset_toNat hfits
  have hn := h.size
  have hwithin := h.within
  have hroom := hfits.room
  rw [wordsOf] at hn
  rw [wordsOf, BitVec.toNat_add, hk]
  omega

/-- The answer to the last segment goes by the words in the memory. -/
theorem finish_eq {cksum eloc : Word} {a m : ℕ} (hsize : wordsOf (c.offset + c.size) = m)
    (ha : wordAt sc.addr m = some a) :
    finish c (cksum :: eloc :: rest) sc = some { sc with
      sent := sc.sent ++
        [⟨if xorAll (fetch sc.mem a m) = cksum then .success else .failed, c.offset⟩]
      jump := if xorAll (fetch sc.mem a m) = cksum then some eloc else sc.jump } := by
  rw [finish, fwdTgtProcessLast, hsize, ha]
  simp only [Option.map_some, beq_iff_eq]

/-- The segments of an image in any order, some of them more than once: if the first says where it
goes, each word comes with one of them and the last goes to the end, then the image is in the memory
and nothing else has changed, each segment is acknowledged and the last one answered by the check
sum, and the loader jumps to the image if that is right. -/
theorem image_downloaded {cksum eloc : Word} (hfits : Fits base img) (hjump : sc.jump = none)
    (hmore : ∀ c ∈ cmds, c.moreData ≠ 0 ∧ ∃ k n rest, Piece base img k n rest c)
    (hlast : last.moreData = 0) (hpiece : Piece base img k n (cksum :: eloc :: rest) last)
    (hend : k + n = img.length) (hfirst : ∀ c ∈ (cmds ++ [last]).head?, c.offset = 0)
    (hall : ∀ i < k, ∃ c ∈ cmds, Brings base img c i) :
    ∃ sc', recvAll (cmds ++ [last]) sc = some sc' ∧
      fetch sc'.mem (base.toNat / 4) img.length = img ∧
      (∀ a, a < base.toNat / 4 ∨ base.toNat / 4 + img.length ≤ a → sc'.mem a = sc.mem a) ∧
      sc'.sent = sc.sent ++ cmds.map (fun c => ⟨.ack, c.offset⟩) ++
        [⟨if xorAll img = cksum then .success else .failed, last.offset⟩] ∧
      sc'.jump = if xorAll img = cksum then some eloc else none := by
  have hstart : Loaded base img sc.mem (fun _ => False) sc.mem :=
    ⟨fun i hi hcome => hcome.elim, fun a ha => rfl⟩
  have hheads : (∀ c ∈ cmds.head?, c.offset = 0) ∨ sc.addr = base := by
    left
    intro c hc
    apply hfirst c
    rw [List.head?_append, Option.mem_def.mp hc]
    rfl
  obtain ⟨sc₁, hrun, hjump₁, hbase, hsent, hloaded⟩ :=
    recvAll_middle hfits sc.mem hjump hmore hheads hstart
  have haddr : last.offset = 0 ∨ sc₁.addr = base := by
    rcases hbase with rfl | hbase
    · exact .inl (hfirst last rfl)
    · exact .inr hbase
  have hlast' := hpiece.recv_eq hfits haddr
  rw [if_neg (not_not_intro hlast)] at hlast'
  have hstored := hloaded.store hpiece
  have himage : fetch (store sc₁.mem (base.toNat / 4 + k) ((img.drop k).take n)) (base.toNat / 4)
      img.length = img := by
    apply hstored.fetch_eq
    intro i hi
    rcases Nat.lt_or_ge i k with hlt | hge
    · obtain ⟨c, hc, hbrings⟩ := hall i hlt
      exact .inl (.inr ⟨c, hc, hbrings⟩)
    · exact .inr ⟨hge, by omega⟩
  have hwords : wordAt base (k + n) = some (base.toNat / 4) := by
    have hroom := hfits.room
    rw [wordAt, if_pos ⟨hfits.aligned, by omega⟩]
  rw [finish_eq ((hpiece.wordsOf_end hfits).trans hend) (hend ▸ hwords)] at hlast'
  dsimp only at hlast'
  rw [himage, hjump₁, hsent] at hlast'
  have hboth := recvAll_append cmds [last] sc
  rw [hrun, Option.bind_some, recvAll, if_pos hjump₁, hlast', Option.bind_some, recvAll] at hboth
  exact ⟨_, hboth, himage, hstored.outside, rfl, rfl⟩

end

/-- The loader before the first segment. -/
def idle : Softc := ⟨0, fun _ => 0, [], none⟩

/-- An image of three words, and one segment for each. -/
def smallImage : List Word := [0x36410000, 0x0c021df0, 0xdeadbeef]

def firstSegment : FwdCmd := ⟨1, 4, 0, [0x00500000, 0x36410000]⟩

def secondSegment : FwdCmd := ⟨1, 4, 4, [0x0c021df0]⟩

def lastSegment : FwdCmd := ⟨0, 8, 8, [0xdeadbeef, 0xe4eea31f, 0x00500000]⟩

/-- The first segment comes twice. -/
theorem small_image_downloaded :
    ∃ sc', recvAll ([firstSegment, firstSegment, secondSegment] ++ [lastSegment]) idle = some sc' ∧
      fetch sc'.mem 0x140000 3 = smallImage ∧ sc'.jump = some 0x00500000 := by
  have hfirst : Piece 0x00500000 smallImage 0 1 [] firstSegment := ⟨rfl, rfl, by decide, rfl⟩
  have hsecond : Piece 0x00500000 smallImage 1 1 [] secondSegment :=
    ⟨rfl, rfl, by decide, rfl⟩
  have hmore : ∀ c ∈ [firstSegment, firstSegment, secondSegment],
      c.moreData ≠ 0 ∧ ∃ k n rest, Piece 0x00500000 smallImage k n rest c := by
    intro c hc
    simp only [List.mem_cons, List.not_mem_nil, or_false] at hc
    rcases hc with rfl | rfl | rfl
    · exact ⟨by decide, 0, 1, [], hfirst⟩
    · exact ⟨by decide, 0, 1, [], hfirst⟩
    · exact ⟨by decide, 1, 1, [], hsecond⟩
  have hall : ∀ i < 2, ∃ c ∈ [firstSegment, firstSegment, secondSegment],
      Brings 0x00500000 smallImage c i := by
    intro i hi
    rcases (by omega : i = 0 ∨ i = 1) with rfl | rfl
    · exact ⟨firstSegment, by simp, 0, 1, [], hfirst, by decide, by decide⟩
    · exact ⟨secondSegment, by simp, 1, 1, [], hsecond, by decide, by decide⟩
  have hlast : Piece 0x00500000 smallImage 2 1 [0xe4eea31f, 0x00500000] lastSegment :=
    ⟨rfl, rfl, by decide, rfl⟩
  obtain ⟨sc', hrun, himage, -, -, hjump⟩ := image_downloaded ⟨by decide, by decide⟩
    (rfl : idle.jump = none) hmore rfl hlast rfl (by simp [firstSegment]) hall
  exact ⟨sc', hrun, himage, hjump.trans (if_pos (by decide))⟩

/-! ## Damaged images -/

/-- The check sum that comes with the last segment. -/
def FwdCmd.cksum (c : FwdCmd) : Option Word :=
  ((if c.offset = 0 then c.image.tail else c.image).drop (wordsOf c.size)).head?

section

variable {img : List Word} {i : ℕ} {w : Word} {c last : FwdCmd} {cmds : List FwdCmd} {sc sc' : Softc}

theorem target_words {addr : Word} {t : Word × List Word} (h : c.target addr = some t) :
    t.2 = if c.offset = 0 then c.image.tail else c.image := by
  rw [FwdCmd.target] at h
  split at h
  case isTrue hzero =>
    rw [if_pos hzero]
    cases himage : c.image with
    | nil =>
        rw [himage] at h
        cases h
    | cons a image =>
        rw [himage] at h
        rw [← Option.some.inj h, List.tail_cons]
  case isFalse hne => rw [if_neg hne, ← Option.some.inj h]

/-- Whatever the last segment is, it is answered by the words that are then in the memory. -/
theorem recv_last (h : fwdTgtRecv c sc = some sc') (hlast : c.moreData = 0) :
    ∃ a cksum, wordAt sc'.addr (wordsOf (c.offset + c.size)) = some a ∧ c.cksum = some cksum ∧
      sc'.sent = sc.sent ++ [⟨if xorAll (fetch sc'.mem a (wordsOf (c.offset + c.size))) = cksum then
        .success else .failed, c.offset⟩] ∧
      (xorAll (fetch sc'.mem a (wordsOf (c.offset + c.size))) ≠ cksum → sc'.jump = sc.jump) := by
  rw [fwdTgtRecv] at h
  simp only [Option.bind_eq_bind, Option.bind_eq_some_iff] at h
  obtain ⟨t, htarget, dst, hdst, h⟩ := h
  have hwords := target_words htarget
  split at h
  · cases h
  · rw [if_neg (not_not_intro hlast)] at h
    cases hrest : t.2.drop (wordsOf c.size) with
    | nil =>
        rw [hrest] at h
        cases h
    | cons cksum rest =>
        cases rest with
        | nil =>
            rw [hrest] at h
            cases h
        | cons eloc rest =>
            have hcksum : c.cksum = some cksum := by
              rw [FwdCmd.cksum, ← hwords, hrest]
              rfl
            rw [hrest, finish, fwdTgtProcessLast, Option.map_map, Option.map_eq_some_iff] at h
            obtain ⟨a, ha, rfl⟩ := h
            refine ⟨a, cksum, ha, hcksum, ?_, ?_⟩
            · simp only [Function.comp_apply, beq_iff_eq]
            · intro hne
              simp only [Function.comp_apply, beq_iff_eq]
              exact if_neg hne

/-- Whatever segments came: an image with one wrong word in the memory is not jumped to. -/
theorem damaged_image_refused (hrun : recvAll (cmds ++ [last]) sc = some sc')
    (hlast : last.moreData = 0) (hlen : wordsOf (last.offset + last.size) = img.length)
    (hcksum : last.cksum = some (xorAll img)) (hi : i < img.length) (hw : w ≠ img[i])
    (hmem : fetch sc'.mem (sc'.addr.toNat / 4) img.length = img.set i w) :
    sc'.jump = none ∧ sc'.sent.getLast? = some ⟨.failed, last.offset⟩ := by
  rw [recvAll_append] at hrun
  obtain ⟨sc₁, -, hrun⟩ := Option.bind_eq_some_iff.mp hrun
  rw [recvAll] at hrun
  split at hrun
  case isTrue hjump =>
    obtain ⟨sc₂, hrecv, heq⟩ := Option.bind_eq_some_iff.mp hrun
    obtain rfl := Option.some.inj heq
    obtain ⟨a, cksum, ha, hsum, hsent, hkept⟩ := recv_last hrecv hlast
    obtain rfl := Option.some.inj (hsum.symm.trans hcksum)
    have haddr : a = sc₂.addr.toNat / 4 := by
      rw [wordAt] at ha
      split at ha
      · exact (Option.some.inj ha).symm
      · cases ha
    rw [hlen, haddr, hmem] at hsent hkept
    have hne : xorAll (img.set i w) ≠ xorAll img := fun heq => hw ((xorAll_set hi w).mp heq)
    rw [if_neg hne] at hsent
    refine ⟨(hkept hne).trans hjump, ?_⟩
    rw [hsent, List.getLast?_concat]
  case isFalse => cases hrun

end

/-- The second segment is lost. -/
theorem incomplete_image_refused :
    ∃ sc', recvAll ([firstSegment] ++ [lastSegment]) idle = some sc' ∧ sc'.jump = none ∧
      sc'.sent.getLast? = some ⟨.failed, 8⟩ := by
  have hmem : (recvAll ([firstSegment] ++ [lastSegment]) idle).map
      (fun sc' => fetch sc'.mem (sc'.addr.toNat / 4) 3) = some (smallImage.set 1 0) := by
    decide +kernel
  obtain ⟨sc', hrun, hfetch⟩ := Option.map_eq_some_iff.mp hmem
  have hlen : wordsOf (lastSegment.offset + lastSegment.size) = smallImage.length := by decide
  have hcksum : lastSegment.cksum = some (xorAll smallImage) := by decide
  have hone : 1 < smallImage.length := by decide
  have hlost : (0 : Word) ≠ 0x0c021df0 := by decide
  exact ⟨sc', hrun, damaged_image_refused hrun rfl hlen hcksum hone hlost hfetch⟩

end Ath9kHtc.Fwd
