import Mathlib.Data.BitVec
import Ath9kHtc.Lib.Memory

/-!
# Formatted output

`k2_fw_cmnos_printf.c`.  `int`, `long` and pointers have 32 bits, so that the `l` modifiers and
the masks change nothing.
-/

namespace Ath9kHtc.Cmnos

def nul : Char := Char.ofNat 0

/-- What a call passes for a conversion: a word, or a string that may be `NULL`. -/
inductive Arg
  | word (v : BitVec 32)
  | str (s : Option (List Char))

/-- `cp` -/
inductive Cursor
  | buf (i : ℕ)
  | str (s : List Char)

/-- The variables that `cmnos_vprintf` keeps from one conversion to the next, the memory from
`buf` on, and what has been put out.  `overrun` is set by a write outside the digit buffers. -/
structure Vprintf where
  buf : ℕ → Char
  cp : Cursor
  val : BitVec 32
  res : BitVec 32
  length : BitVec 32
  ap : List Arg
  out : List Char
  overrun : Bool

/-- `(*putc)(c)` by itself. -/
def putc (c : Char) (s : Vprintf) : Vprintf := { s with out := s.out ++ [c] }

/-- `(*putc)(c)` and `res++` for every character. -/
def emit (cs : List Char) (s : Vprintf) : Vprintf :=
  { s with out := s.out ++ cs, res := s.res + BitVec.ofNat 32 cs.length }

def vaWord (s : Vprintf) : BitVec 32 × Vprintf :=
  match s.ap with
  | .word v :: ap => (v, { s with ap := ap })
  | _ => (0, s)

def vaStr (s : Vprintf) : Option (List Char) × Vprintf :=
  match s.ap with
  | .str p :: ap => (p, { s with ap := ap })
  | _ => (none, s)

/-! ## Digits -/

/-- `sizeof(buf)` -/
def bufSize : ℕ := 32

/-- `sizeof(temp)` -/
def tempSize : ℕ := 80

def decimalDigits : List Char := ['0', '1', '2', '3', '4', '5', '6', '7', '8', '9']

def hexDigits : List Char :=
  ['0', '1', '2', '3', '4', '5', '6', '7', '8', '9', 'a', 'b', 'c', 'd', 'e', 'f']

def hexDigitsUpper : List Char :=
  ['0', '1', '2', '3', '4', '5', '6', '7', '8', '9', 'A', 'B', 'C', 'D', 'E', 'F']

/-- `digits[i]` -/
def digitOf (digits : List Char) (i : ℕ) : Char := digits.getD i nul

/-- The loop over `val`; a number of 32 bits has no more than 32 digits. -/
def cvtLoop (radix : ℕ) (digits : List Char) : ℕ → ℕ → List Char → List Char
  | 0, _, temp => temp
  | n + 1, val, temp =>
    if val = 0 then temp
    else cvtLoop radix digits n (val / radix) (temp ++ [digitOf digits (val % radix)])

/-- `length = _cvt(val, buf, radix, digits)` and `cp = buf` -/
def cvt (radix : ℕ) (digits : List Char) (s : Vprintf) : Vprintf :=
  let temp := if s.val = 0 then ['0'] else cvtLoop radix digits 32 s.val.toNat []
  { s with
    buf := Memory.store s.buf 0 (temp.reverse ++ [nul])
    overrun := s.overrun || decide (tempSize < temp.length) || decide (bufSize < temp.length + 1)
    length := BitVec.ofNat 32 temp.length
    cp := .buf 0 }

/-! ## A conversion -/

/-- What the characters behind a `%` say. -/
structure Conv where
  padOnRight : Bool
  zeroFill : Bool
  leftPrec : BitVec 32
  c : Char

def isDigit (c : Char) : Bool := '0' ≤ c && c ≤ '9'

/-- Take one character if it is the next. -/
def skip (ch : Char) : List Char → Bool × List Char
  | c :: fmt => if c = ch then (true, fmt) else (false, c :: fmt)
  | [] => (false, [])

/-- `left_prec` and `right_prec` -/
def readPrec : BitVec 32 → List Char → BitVec 32 × List Char
  | prec, c :: fmt =>
    if isDigit c then readPrec (prec * 10 + BitVec.ofNat 32 (c.toNat - '0'.toNat)) fmt
    else (prec, c :: fmt)
  | prec, [] => (prec, [])

/-- From the character behind the `%` to the conversion character; `right_prec` is not used. -/
def parseConv (fmt : List Char) : Conv × List Char :=
  let minus := skip '-' fmt
  let zero := skip '0' minus.2
  let prec := readPrec 0 zero.2
  let dot := skip '.' prec.2
  let fmt := if dot.1 then (readPrec 0 dot.2).2 else dot.2
  let l := skip 'l' fmt
  let ll := if l.1 then skip 'l' l.2 else l
  (⟨minus.1, zero.1 || dot.1, prec.1, ll.2.headD nul⟩, ll.2.tail)

def isNumeric (c : Char) : Bool :=
  ['p', 'd', 'D', 'x', 'X', 'u', 'U', 'b', 'B'].contains c

/-- Fetch the value of a numeric conversion; the answer says if there is a sign. -/
def fetchVal (c : Char) (s : Vprintf) : Bool × Vprintf :=
  if isNumeric c then
    let r := vaWord s
    if (c = 'd' ∨ c = 'D') ∧ r.1.toInt < 0 then (true, { r.2 with val := -r.1 })
    else (false, { r.2 with val := r.1 })
  else (false, s)

/-- The next `n` characters at `cp`. -/
def fetchChars (s : Vprintf) (n : ℕ) : List Char :=
  match s.cp with
  | .buf i => Memory.fetch s.buf i n
  | .str p => p.take n

def Cursor.advance (n : ℕ) : Cursor → Cursor
  | .buf i => .buf (i + n)
  | .str p => .str (p.drop n)

/-- `while (length-- > 0)`: afterwards the length is negative. -/
def putDigits (s : Vprintf) : Vprintf :=
  let n := s.length.toInt.toNat
  { emit (fetchChars s n) s with
    cp := s.cp.advance n
    length := s.length - BitVec.ofNat 32 (n + 1) }

/-- What follows the `switch`. -/
def finish (padOnRight zeroFill sign : Bool) (leftPrec : BitVec 32) (s : Vprintf) : Vprintf :=
  let pad := leftPrec - s.length
  let pad := if sign then pad - 1 else pad
  let s := if sign && zeroFill then emit ['-'] s else s
  let s := if padOnRight then s
    else emit (List.replicate pad.toInt.toNat (if zeroFill then '0' else ' ')) s
  let s := if sign && !zeroFill then emit ['-'] s else s
  let s := putDigits s
  if padOnRight then emit (List.replicate pad.toInt.toNat ' ') s else s

/-- The characters of a string up to its end. -/
def strChars (p : Option (List Char)) : List Char :=
  (p.getD ['<', 'n', 'u', 'l', 'l', '>']).takeWhile (· != nul)

/-- `cp` and `length` for a string -/
def setStr (p : Option (List Char)) (s : Vprintf) : Vprintf :=
  { s with cp := .str (strChars p), length := BitVec.ofNat 32 (strChars p).length }

def bitChar (val : BitVec 32) (i : ℕ) : Char := if val.getLsbD i then '1' else '.'

/-- `cp` and `length` for bits, and the loop that stores all of them but the last -/
def setBits (leftPrec : BitVec 32) (s : Vprintf) : Vprintf :=
  let length := if leftPrec = 0 then 32 else leftPrec
  let n := (length - 1).toInt.toNat
  { s with
    buf := Memory.store s.buf 0 ((List.range n).map (bitChar s.val))
    overrun := s.overrun || decide (bufSize < n)
    length := length
    cp := .buf 0 }

/-- One conversion. -/
def convert (conv : Conv) (s : Vprintf) : Vprintf :=
  let r := fetchVal conv.c s
  let tail := finish conv.padOnRight conv.zeroFill r.1 conv.leftPrec
  match conv.c with
  | 'p' => finish conv.padOnRight true false 8 (cvt 16 hexDigits (putc 'x' (putc '0' r.2)))
  | 'd' | 'D' | 'u' | 'U' => tail (cvt 10 decimalDigits r.2)
  | 'x' => tail (cvt 16 hexDigits r.2)
  | 'X' => tail (cvt 16 hexDigitsUpper r.2)
  | 's' | 'S' =>
    let p := vaStr r.2
    tail (setStr p.1 p.2)
  | 'c' | 'C' =>
    let v := vaWord r.2
    emit [Char.ofNat (v.1.toNat % 256)] v.2
  | 'b' | 'B' => tail (setBits conv.leftPrec r.2)
  | '%' => tail (putc '%' r.2)
  | c => tail (emit ['%', c] r.2)

/-- The loop over the format, which every round makes shorter. -/
def vprintfLoop : ℕ → List Char → Vprintf → Vprintf
  | n + 1, c :: fmt, s =>
    if c = '%' then vprintfLoop n (parseConv fmt).2 (convert (parseConv fmt).1 s)
    else vprintfLoop n fmt (emit [c] s)
  | _, _, s => s

/-- `cmnos_vprintf`, where the stack holds `buf`; the format is what stands before its end. -/
def cmnosVprintf (buf : ℕ → Char) (fmt : List Char) (ap : List Arg) : Vprintf :=
  vprintfLoop fmt.length fmt ⟨buf, .buf 0, 0, 0, 0, ap, [], false⟩

end Ath9kHtc.Cmnos
