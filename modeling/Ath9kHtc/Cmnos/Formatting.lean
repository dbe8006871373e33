import Mathlib.Data.List.GetD
import Ath9kHtc.Cmnos.Printf
import Ath9kHtc.Lib.Numeral

/-!
# What a format means

Formats built from text and conversions, what they should print, and what `cmnos_vprintf` makes
of them.
-/

namespace Ath9kHtc.Cmnos

open Numeral

/-- A conversion character with its argument. -/
inductive Kind
  | d (v : BitVec 32)
  | u (v : BitVec 32)
  | x (v : BitVec 32)
  | upperX (v : BitVec 32)
  | p (v : BitVec 32)
  | s (str : Option (List Char))
  | c (v : BitVec 32)
  | b (v : BitVec 32)
  | percent

def Kind.letter : Kind → Char
  | d _ => 'd'
  | u _ => 'u'
  | x _ => 'x'
  | upperX _ => 'X'
  | p _ => 'p'
  | s _ => 's'
  | c _ => 'c'
  | b _ => 'b'
  | percent => '%'

def Kind.args : Kind → List Arg
  | d v | u v | x v | upperX v | p v | c v | b v => [.word v]
  | s str => [.str str]
  | percent => []

/-- A conversion with its flags, the digits of its width and its modifier.  A zero in front of the
width is the flag. -/
structure Directive where
  minus : Bool
  zero : Bool
  digits : List (Fin 10)
  long : Bool
  kind : Kind
  canonical : zero = true ∨ digits.head? ≠ some 0

inductive Piece
  | text (c : Char) (plain : c ≠ '%' ∧ c ≠ nul)
  | directive (f : Directive)

def widthOf (n : ℕ) (digits : List (Fin 10)) : ℕ := digits.foldl (fun n d => n * 10 + d.val) n

def widthFormat (digits : List (Fin 10)) : List Char :=
  digits.map fun d => digitOf decimalDigits d.val

def Directive.width (f : Directive) : ℕ := widthOf 0 f.digits

/-- How a conversion is written. -/
def Directive.format (f : Directive) : List Char :=
  (if f.minus then ['-'] else []) ++ (if f.zero then ['0'] else []) ++
    widthFormat f.digits ++ ((if f.long then ['l'] else []) ++ [f.kind.letter])

def Piece.format : Piece → List Char
  | text c _ => [c]
  | directive f => '%' :: f.format

def Piece.args : Piece → List Arg
  | text .. => []
  | directive f => f.kind.args

/-! ## What should be printed -/

/-- A field: the sign stands before the zeros and behind the blanks. -/
def field (minus zero : Bool) (width : ℕ) (sign body : List Char) : List Char :=
  let fill := width - (sign.length + body.length)
  if minus then sign ++ body ++ List.replicate fill ' '
  else if zero then sign ++ List.replicate fill '0' ++ body
  else List.replicate fill ' ' ++ sign ++ body

def signOf (v : BitVec 32) : List Char := if v.toInt < 0 then ['-'] else []

/-- What a conversion puts into its field. -/
def Kind.body : Kind → List Char
  | d v => numeral 10 (digitOf decimalDigits) v.toInt.natAbs
  | u v => numeral 10 (digitOf decimalDigits) v.toNat
  | x v => numeral 16 (digitOf hexDigits) v.toNat
  | upperX v => numeral 16 (digitOf hexDigitsUpper) v.toNat
  | p v => ['0', 'x'] ++ field false true 8 [] (numeral 16 (digitOf hexDigits) v.toNat)
  | s str => strChars str
  | c v => [Char.ofNat (v.toNat % 256)]
  | b v => (List.range 32).map (bitChar v)
  | percent => ['%']

def Kind.sign : Kind → List Char
  | d v => signOf v
  | _ => []

def Directive.meaning (f : Directive) : List Char :=
  match f.kind with
  | .percent => ['%']
  | kind => field f.minus f.zero f.width kind.sign kind.body

def Piece.meaning : Piece → List Char
  | text c _ => [c]
  | directive f => f.meaning

def formatOf (ps : List Piece) : List Char := ps.flatMap Piece.format

def argsOf (ps : List Piece) : List Arg := ps.flatMap Piece.args

def meaningOf (ps : List Piece) : List Char := ps.flatMap Piece.meaning

/-- A call prints what its format means, whatever the stack holds, and counts it. -/
def PrintsMeaning (ps : List Piece) : Prop :=
  ∀ buf : ℕ → Char, (cmnosVprintf buf (formatOf ps) (argsOf ps)).out = meaningOf ps ∧
    (cmnosVprintf buf (formatOf ps) (argsOf ps)).overrun = false ∧
    (cmnosVprintf buf (formatOf ps) (argsOf ps)).res.toInt =
      (cmnosVprintf buf (formatOf ps) (argsOf ps)).out.length

/-- No pointer, no bits and no percent sign, and a character has a field of one at most. -/
def Directive.Plain (f : Directive) : Prop :=
  match f.kind with
  | .p _ | .b _ | .percent => False
  | .c _ => f.width ≤ 1
  | .d _ | .u _ | .x _ | .upperX _ | .s _ => True

def Piece.Plain : Piece → Prop
  | text .. => True
  | directive f => f.Plain

/-! ## The digits of a numeral -/

/-- The place of a symbol in a table. -/
def indexIn (digits : List Char) (c : Char) : ℕ := digits.idxOf c

theorem indexIn_digitOf {digits : List Char} (hnodup : digits.Nodup) (k : ℕ)
    (hk : k < digits.length) : indexIn digits (digitOf digits k) = k := by
  rw [indexIn, digitOf, List.getD_eq_getElem _ _ hk]
  exact hnodup.idxOf_getElem k hk

/-- The digits of a numeric conversion read back to its argument. -/
theorem numeral_reads_back {digits : List Char} (hnodup : digits.Nodup) (htwo : 1 < digits.length)
    (n : ℕ) : value digits.length (indexIn digits)
      (numeral digits.length (digitOf digits) n) = n :=
  value_numeral htwo (indexIn_digitOf hnodup) n

theorem cvtLoop_eq {radix : ℕ} (hradix : 1 < radix) (digits : List Char) (n val : ℕ)
    (temp : List Char) (hval : val < radix ^ n) :
    cvtLoop radix digits n val temp = temp ++ (Nat.digits radix val).map (digitOf digits) := by
  induction n generalizing val temp with
  | zero =>
      obtain rfl : val = 0 := by
        rw [pow_zero] at hval
        omega
      rw [Nat.digits_zero]
      exact (List.append_nil temp).symm
  | succ n ih =>
      rw [cvtLoop]
      split
      · rename_i hzero
        rw [hzero, Nat.digits_zero]
        exact (List.append_nil temp).symm
      · rename_i hne
        have hless : val / radix < radix ^ n := by
          apply Nat.div_lt_of_lt_mul
          rw [Nat.mul_comm, ← pow_succ]
          exact hval
        rw [ih _ _ hless, Nat.digits_def' hradix (Nat.pos_of_ne_zero hne), List.map_cons,
          List.append_assoc]
        rfl

/-! ## Reading a conversion -/

def Directive.conv (f : Directive) : Conv :=
  ⟨f.minus, f.zero, BitVec.ofNat 32 f.width, f.kind.letter⟩

variable {f : Directive} {fmt rest : List Char} {s s' : Vprintf}

/-- The next character is another one. -/
theorem skip_other {ch : Char} (h : fmt.head? ≠ some ch) : skip ch fmt = (false, fmt) := by
  cases fmt with
  | nil => rfl
  | cons c fmt => exact if_neg fun heq => h (congrArg some heq)

theorem skip_self (ch : Char) (fmt : List Char) : skip ch (ch :: fmt) = (true, fmt) := if_pos rfl

theorem isDigit_digitOf (d : Fin 10) : isDigit (digitOf decimalDigits d.val) = true := by
  revert d
  decide

theorem toNat_digitOf (d : Fin 10) :
    (digitOf decimalDigits d.val).toNat - '0'.toNat = d.val := by
  revert d
  decide

/-- The digits of the width come to it modulo the size of an `int`. -/
theorem readPrec_digits (n : ℕ) (digits : List (Fin 10))
    (hrest : ∀ c ∈ rest.head?, isDigit c = false) :
    readPrec (BitVec.ofNat 32 n) (widthFormat digits ++ rest) =
      (BitVec.ofNat 32 (widthOf n digits), rest) := by
  induction digits generalizing n with
  | nil =>
      cases rest with
      | nil => rfl
      | cons c rest =>
          have hc : isDigit c = false := hrest c rfl
          rw [widthFormat, List.map_nil, List.nil_append, readPrec, hc]
          rfl
  | cons d digits ih =>
      have hnext : BitVec.ofNat 32 n * 10 + BitVec.ofNat 32 d.val =
          BitVec.ofNat 32 (n * 10 + d.val) := by
        rw [BitVec.ofNat_add, BitVec.ofNat_mul]
        rfl
      rw [widthFormat, List.map_cons, List.cons_append, readPrec, isDigit_digitOf, toNat_digitOf,
        hnext]
      exact ih _

/-- The modifier and the conversion character. -/
def Directive.tail (f : Directive) : List Char := (if f.long then ['l'] else []) ++ [f.kind.letter]

/-- A conversion character is no digit, no flag and no modifier. -/
theorem letter_other (k : Kind) : isDigit k.letter = false ∧ k.letter ≠ '-' ∧ k.letter ≠ '0' ∧
    k.letter ≠ '.' ∧ k.letter ≠ 'l' := by
  cases k <;> simp [Kind.letter, isDigit]

theorem head_tail (f : Directive) (rest : List Char) :
    ∃ c, (f.tail ++ rest).head? = some c ∧ isDigit c = false ∧ c ≠ '-' ∧ c ≠ '0' ∧ c ≠ '.' := by
  obtain ⟨hdigit, hminus, hzero, hdot, -⟩ := letter_other f.kind
  rw [Directive.tail]
  cases f.long with
  | false => exact ⟨_, rfl, hdigit, hminus, hzero, hdot⟩
  | true => exact ⟨'l', rfl, by decide, by decide, by decide, by decide⟩

/-- The width and what follows it, without the flags. -/
def Directive.unflagged (f : Directive) (rest : List Char) : List Char :=
  widthFormat f.digits ++ (f.tail ++ rest)

/-- The first character behind the flags. -/
theorem head_unflagged (f : Directive) (rest : List Char) :
    (f.unflagged rest).head? ≠ some '-' ∧
      (f.zero = false → (f.unflagged rest).head? ≠ some '0') := by
  have hcanonical := f.canonical
  rw [Directive.unflagged]
  cases hdigits : f.digits with
  | nil =>
      obtain ⟨c, hhead, -, hminus, hzero, -⟩ := head_tail f rest
      rw [widthFormat, List.map_nil, List.nil_append, hhead]
      exact ⟨fun h => hminus (Option.some_inj.mp h), fun _ h => hzero (Option.some_inj.mp h)⟩
  | cons d digits =>
      rw [hdigits] at hcanonical
      refine ⟨?_, fun hzero => ?_⟩
      · show some (digitOf decimalDigits d.val) ≠ some '-'
        clear hdigits hcanonical
        revert d
        decide
      · have hne : d ≠ 0 := by
          rcases hcanonical with h | h
          · rw [hzero] at h
            cases h
          · exact fun heq => h (congrArg some heq)
        show some (digitOf decimalDigits d.val) ≠ some '0'
        clear hdigits hcanonical
        revert d
        decide

theorem skip_flag (ch : Char) (b : Bool) (h : b = false → fmt.head? ≠ some ch) :
    skip ch ((if b then [ch] else []) ++ fmt) = (b, fmt) := by
  cases b with
  | false => exact skip_other (h rfl)
  | true => exact skip_self ch fmt

/-- What is written for a conversion is read back. -/
theorem parseConv_format (f : Directive) (rest : List Char) :
    parseConv (f.format ++ rest) = (f.conv, rest) := by
  obtain ⟨c, hhead, hdigit, -, -, hdot⟩ := head_tail f rest
  obtain ⟨hminus, hzero⟩ := head_unflagged f rest
  have hsplit : f.format ++ rest = (if f.minus then ['-'] else []) ++
      ((if f.zero then ['0'] else []) ++ f.unflagged rest) := by
    rw [Directive.format, Directive.unflagged, Directive.tail, List.append_assoc,
      List.append_assoc, List.append_assoc]
  have hskip₁ : skip '-' (f.format ++ rest) =
      (f.minus, (if f.zero then ['0'] else []) ++ f.unflagged rest) := by
    rw [hsplit]
    refine skip_flag '-' f.minus fun _ => ?_
    cases f.zero with
    | false => exact hminus
    | true => exact fun h => absurd (Option.some_inj.mp h) (by decide)
  have hskip₂ := skip_flag '0' f.zero hzero
  have hprec : readPrec 0 (f.unflagged rest) = (BitVec.ofNat 32 f.width, f.tail ++ rest) :=
    readPrec_digits 0 f.digits fun c' hc' => by
      rw [hhead] at hc'
      rwa [← Option.some_inj.mp hc']
  have hskip₃ : skip '.' (f.tail ++ rest) = (false, f.tail ++ rest) :=
    skip_other fun h => hdot (Option.some_inj.mp (hhead.symm.trans h))
  have hskip₄ : skip 'l' (f.tail ++ rest) = (f.long, f.kind.letter :: rest) := by
    rw [Directive.tail, List.append_assoc]
    refine skip_flag 'l' f.long fun _ h => ?_
    exact (letter_other f.kind).2.2.2.2 (Option.some_inj.mp h)
  have hskip₅ : skip 'l' (f.kind.letter :: rest) = (false, f.kind.letter :: rest) :=
    skip_other fun h => (letter_other f.kind).2.2.2.2 (Option.some_inj.mp h)
  rw [parseConv, hskip₁, hskip₂, hprec, hskip₃, if_neg Bool.false_ne_true, hskip₄, hskip₅,
    Bool.or_false]
  cases f.long <;> rfl

/-! ## What is put out -/

/-- The characters `l` are put out, all but `k` of which are counted. -/
structure Puts (k : ℕ) (l : List Char) (s s' : Vprintf) : Prop where
  out : s'.out = s.out ++ l
  res : s'.res + BitVec.ofNat 32 k = s.res + BitVec.ofNat 32 l.length
  le : k ≤ l.length

namespace Puts

variable {k k' : ℕ} {l l' : List Char} {s'' : Vprintf}

theorem of_same (hout : s'.out = s.out) (hres : s'.res = s.res) : Puts 0 [] s s' :=
  ⟨by rw [hout, List.append_nil], by rw [hres]; rfl, Nat.le_refl 0⟩

theorem trans (h : Puts k l s s') (h' : Puts k' l' s' s'') : Puts (k + k') (l ++ l') s s'' := by
  refine ⟨?_, ?_, ?_⟩
  · rw [h'.out, h.out, List.append_assoc]
  · rw [Nat.add_comm k, BitVec.ofNat_add, ← BitVec.add_assoc, h'.res, BitVec.add_assoc,
      BitVec.add_comm (BitVec.ofNat 32 l'.length), ← BitVec.add_assoc, h.res, List.length_append,
      BitVec.ofNat_add, BitVec.add_assoc]
  · have hle := h.le
    have hle' := h'.le
    rw [List.length_append]
    omega

theorem same_trans (hout : s'.out = s.out) (hres : s'.res = s.res) (h : Puts k l s' s'') :
    Puts k l s s'' := ⟨hout ▸ h.out, hres ▸ h.res, h.le⟩

theorem trans_same (h : Puts k l s s') (hout : s''.out = s'.out) (hres : s''.res = s'.res) :
    Puts k l s s'' := ⟨hout.trans h.out, hres ▸ h.res, h.le⟩

theorem emit (cs : List Char) (s : Vprintf) : Puts 0 cs s (emit cs s) :=
  ⟨rfl, BitVec.add_zero _, Nat.zero_le _⟩

theorem putc (c : Char) (s : Vprintf) : Puts 1 [c] s (putc c s) := ⟨rfl, rfl, Nat.le_refl 1⟩

end Puts

/-- What `finish` leaves alone. -/
structure Keeps (s s' : Vprintf) : Prop where
  buf : s'.buf = s.buf
  ap : s'.ap = s.ap
  overrun : s'.overrun = s.overrun

theorem finish_keeps (padOnRight zeroFill sign : Bool) (prec : BitVec 32) (s : Vprintf) :
    Keeps s (finish padOnRight zeroFill sign prec s) := by
  cases padOnRight <;> cases zeroFill <;> cases sign <;> exact ⟨rfl, rfl, rfl⟩

theorem putDigits_puts (s : Vprintf) :
    Puts 0 (fetchChars s s.length.toInt.toNat) s (putDigits s) :=
  (Puts.emit _ s).trans_same rfl rfl

def signChars (sign : Bool) : List Char := if sign then ['-'] else []

def padOf (sign : Bool) (prec : BitVec 32) (s : Vprintf) : ℕ :=
  (if sign then prec - s.length - 1 else prec - s.length).toInt.toNat

/-- What `finish` puts out. -/
def finished (padOnRight zeroFill sign : Bool) (prec : BitVec 32) (s : Vprintf) : List Char :=
  if padOnRight then
    signChars sign ++ fetchChars s s.length.toInt.toNat ++ List.replicate (padOf sign prec s) ' '
  else if zeroFill then
    signChars sign ++ List.replicate (padOf sign prec s) '0' ++
      fetchChars s s.length.toInt.toNat
  else
    List.replicate (padOf sign prec s) ' ' ++ signChars sign ++
      fetchChars s s.length.toInt.toNat

theorem finish_puts (padOnRight zeroFill sign : Bool) (prec : BitVec 32) (s : Vprintf) :
    Puts 0 (finished padOnRight zeroFill sign prec s) s
      (finish padOnRight zeroFill sign prec s) := by
  cases padOnRight with
  | true =>
      cases sign with
      | true =>
          have h := ((Puts.emit ['-'] s).trans (putDigits_puts _)).trans
            (Puts.emit (List.replicate (padOf true prec s) ' ') _)
          cases zeroFill <;> exact h
      | false =>
          have h := (putDigits_puts s).trans
            (Puts.emit (List.replicate (padOf false prec s) ' ') _)
          cases zeroFill <;> exact h
  | false =>
      cases zeroFill with
      | true =>
          cases sign with
          | true =>
              exact ((Puts.emit ['-'] s).trans
                (Puts.emit (List.replicate (padOf true prec s) '0') _)).trans (putDigits_puts _)
          | false =>
              exact (Puts.emit (List.replicate (padOf false prec s) '0') s).trans
                (putDigits_puts _)
      | false =>
          cases sign with
          | true =>
              exact ((Puts.emit (List.replicate (padOf true prec s) ' ') s).trans
                (Puts.emit ['-'] _)).trans (putDigits_puts _)
          | false =>
              have h := (Puts.emit (List.replicate (padOf false prec s) ' ') s).trans
                (putDigits_puts _)
              rw [finished, signChars, if_neg Bool.false_ne_true, if_neg Bool.false_ne_true,
                if_neg Bool.false_ne_true, List.append_nil]
              exact h

/-! ## Fields -/

theorem toInt_ofNat_small {n : ℕ} (h : n < 2 ^ 31) : (BitVec.ofNat 32 n).toInt = n := by
  rw [BitVec.toInt_ofNat', Int.bmod_eq_of_le (by omega) (by omega)]

theorem toInt_sub_small {w n : ℕ} (hw : w < 2 ^ 31) (hn : n < 2 ^ 31) :
    (BitVec.ofNat 32 w - BitVec.ofNat 32 n).toInt = w - n := by
  rw [BitVec.toInt_sub, toInt_ofNat_small hw, toInt_ofNat_small hn,
    Int.bmod_eq_of_le (by omega) (by omega)]

/-- The width of a field and the length of what stands in it are small enough for an `int`. -/
theorem padOf_eq {w n : ℕ} (sign : Bool) (hw : w < 2 ^ 31) (hn : n < 2 ^ 31)
    (hlength : s.length = BitVec.ofNat 32 n) :
    padOf sign (BitVec.ofNat 32 w) s = w - ((signChars sign).length + n) := by
  have hsub := toInt_sub_small hw hn
  rw [padOf, hlength, signChars]
  cases sign with
  | false =>
      show (BitVec.ofNat 32 w - BitVec.ofNat 32 n).toInt.toNat = w - (0 + n)
      omega
  | true =>
      show (BitVec.ofNat 32 w - BitVec.ofNat 32 n - 1).toInt.toNat = w - (1 + n)
      have hone : (1 : BitVec 32).toInt = 1 := by decide
      rw [BitVec.toInt_sub, hsub, hone, Int.bmod_eq_of_le (by omega) (by omega)]
      omega

theorem finished_eq_field {w : ℕ} {body : List Char} (minus zero sign : Bool) (hw : w < 2 ^ 31)
    (hn : body.length < 2 ^ 31) (hlength : s.length = BitVec.ofNat 32 body.length)
    (hchars : fetchChars s body.length = body) :
    finished minus zero sign (BitVec.ofNat 32 w) s = field minus zero w (signChars sign) body := by
  have htoNat : s.length.toInt.toNat = body.length := by
    rw [hlength, toInt_ofNat_small hn]
    rfl
  rw [finished, field, padOf_eq sign hw hn hlength, htoNat, hchars]

theorem length_field (minus zero : Bool) (w : ℕ) (sign body : List Char) :
    (field minus zero w sign body).length = max w (sign.length + body.length) := by
  rw [field]
  cases minus <;> cases zero <;> simp <;> omega

/-! ## Conversions that print their meaning -/

/-- The memory behind the digits of a number is as the stack held it. -/
def Garbage (s : Vprintf) : Prop := ∀ n, 11 ≤ n → s.buf n = '@'

/-- The characters `l` are put out and counted, and nothing is written outside the buffers. -/
structure Prints (l : List Char) (ap : List Arg) (s s' : Vprintf) : Prop where
  puts : Puts 0 l s s'
  ap : s'.ap = ap
  overrun : s'.overrun = s.overrun
  garbage : Garbage s → Garbage s'

/-- The characters `symbols` stand at `cp`. -/
structure AtCursor (symbols : List Char) (s s' : Vprintf) : Prop where
  out : s'.out = s.out
  res : s'.res = s.res
  ap : s'.ap = s.ap
  overrun : s'.overrun = s.overrun
  length : s'.length = BitVec.ofNat 32 symbols.length
  chars : fetchChars s' symbols.length = symbols
  garbage : Garbage s → Garbage s'

theorem length_numeral_le_ten {radix : ℕ} (hradix : 10 ≤ radix) (digits : List Char)
    (v : BitVec 32) : (numeral radix (digitOf digits) v.toNat).length ≤ 10 := by
  refine length_numeral_le (by omega) (by omega) ?_
  calc v.toNat < 2 ^ 32 := v.isLt
    _ ≤ 10 ^ 10 := by norm_num
    _ ≤ radix ^ 10 := Nat.pow_le_pow_left hradix 10

theorem cvt_atCursor {radix : ℕ} {digits : List Char} (hradix : 10 ≤ radix)
    (hzero : digitOf digits 0 = '0') (s : Vprintf) :
    AtCursor (numeral radix (digitOf digits) s.val.toNat) s (cvt radix digits s) := by
  have htemp : (if s.val = 0 then ['0'] else cvtLoop radix digits 32 s.val.toNat []) =
      (numeral radix (digitOf digits) s.val.toNat).reverse := by
    split
    · rename_i hval
      have hnat : s.val.toNat = 0 := by rw [hval]; rfl
      rw [numeral, if_pos hnat, hzero]
      rfl
    · rename_i hval
      have hnat : s.val.toNat ≠ 0 := fun h => hval (BitVec.eq_of_toNat_eq h)
      have hlt : s.val.toNat < radix ^ 32 :=
        Nat.lt_of_lt_of_le s.val.isLt (Nat.pow_le_pow_left (by omega) 32)
      rw [cvtLoop_eq (by omega) digits 32 _ _ hlt, numeral, if_neg hnat, List.reverse_reverse]
      rfl
  have hshort := length_numeral_le_ten hradix digits s.val
  rw [cvt, htemp]
  refine ⟨rfl, rfl, rfl, ?_, ?_, ?_, fun hgarbage n hn => ?_⟩
  · rw [List.length_reverse, decide_eq_false (by rw [tempSize]; omega),
      decide_eq_false (by rw [bufSize]; omega), Bool.or_false, Bool.or_false]
  · rw [List.length_reverse]
  · rw [fetchChars]
    dsimp only
    rw [List.reverse_reverse, Memory.fetch_store_take (by simp)]
    exact List.take_left
  · dsimp only
    rw [Memory.store_outside]
    · exact hgarbage n hn
    · rw [List.length_append, List.length_reverse, List.length_reverse, List.length_singleton]
      omega

theorem setStr_atCursor (str : Option (List Char)) (s : Vprintf) :
    AtCursor (strChars str) s (setStr str s) :=
  ⟨rfl, rfl, rfl, rfl, rfl, List.take_length, id⟩

/-- The field of what stands at `cp`. -/
theorem AtCursor.finish {symbols : List Char} {w : ℕ} (h : AtCursor symbols s s')
    (minus zero sign : Bool) (hw : w < 2 ^ 31) (hsize : symbols.length < 2 ^ 31) :
    Prints (field minus zero w (signChars sign) symbols) s.ap s
      (finish minus zero sign (BitVec.ofNat 32 w) s') := by
  have hkeeps := finish_keeps minus zero sign (BitVec.ofNat 32 w) s'
  have hputs := finish_puts minus zero sign (BitVec.ofNat 32 w) s'
  rw [finished_eq_field minus zero sign hw hsize h.length h.chars] at hputs
  refine ⟨hputs.same_trans h.out h.res, hkeeps.ap.trans h.ap, hkeeps.overrun.trans h.overrun,
    fun hgarbage n hn => ?_⟩
  rw [hkeeps.buf]
  exact h.garbage hgarbage n hn

theorem Prints.of_state {l : List Char} {ap : List Arg} {s₁ : Vprintf} (h : Prints l ap s₁ s')
    (hout : s₁.out = s.out) (hres : s₁.res = s.res) (hoverrun : s₁.overrun = s.overrun)
    (hbuf : s₁.buf = s.buf) : Prints l ap s s' := by
  refine ⟨h.puts.same_trans hout hres, h.ap, h.overrun.trans hoverrun, fun hgarbage => ?_⟩
  exact h.garbage fun n hn => hbuf ▸ hgarbage n hn

variable {minus zero : Bool} {w : ℕ} {v : BitVec 32} {ap : List Arg}

theorem vaWord_eq (hap : s.ap = .word v :: ap) : vaWord s = (v, { s with ap }) := by
  rw [vaWord, hap]

theorem vaStr_eq {str : Option (List Char)} (hap : s.ap = .str str :: ap) :
    vaStr s = (str, { s with ap }) := by
  rw [vaStr, hap]

/-- A numeric conversion without a sign takes the value as it is. -/
theorem fetchVal_eq {c : Char} (hap : s.ap = .word v :: ap) (hc : isNumeric c = true)
    (hunsigned : ¬ (c = 'd' ∨ c = 'D')) :
    fetchVal c s = (false, { s with ap, val := v }) := by
  rw [fetchVal, if_pos hc, vaWord_eq hap]
  exact if_neg fun h => hunsigned h.1

/-- A decimal conversion takes the sign off. -/
theorem fetchVal_d (hap : s.ap = .word v :: ap) :
    fetchVal 'd' s = (decide (v.toInt < 0),
      { s with ap, val := if v.toInt < 0 then -v else v }) := by
  rw [fetchVal, if_pos (by decide), vaWord_eq hap]
  by_cases hneg : v.toInt < 0
  · rw [if_pos hneg]
    exact (if_pos ⟨.inl rfl, hneg⟩).trans (by rw [decide_eq_true hneg])
  · rw [if_neg hneg]
    exact (if_neg fun h => hneg h.2).trans (by rw [decide_eq_false hneg])

/-- Taking the sign off leaves the absolute value, of the least number too. -/
theorem toNat_abs (v : BitVec 32) : (if v.toInt < 0 then -v else v).toNat = v.toInt.natAbs := by
  have hlt := v.isLt
  have htoInt := BitVec.toInt_eq_toNat_cond v
  split
  · rename_i hneg
    rw [BitVec.toNat_neg]
    split at htoInt <;> omega
  · split at htoInt <;> omega

theorem signChars_eq (v : BitVec 32) : signChars (decide (v.toInt < 0)) = signOf v := by
  rw [signChars, signOf]
  by_cases hneg : v.toInt < 0
  · rw [decide_eq_true hneg, if_pos rfl, if_pos hneg]
  · rw [decide_eq_false hneg, if_neg Bool.false_ne_true, if_neg hneg]

theorem convert_d (hap : s.ap = .word v :: ap) (hw : w < 2 ^ 31) :
    Prints (field minus zero w (Kind.d v).sign (Kind.d v).body) ap s
      (convert ⟨minus, zero, BitVec.ofNat 32 w, 'd'⟩ s) := by
  have hcursor := cvt_atCursor (Nat.le_refl 10) (show digitOf decimalDigits 0 = '0' from rfl)
    { s with ap, val := if v.toInt < 0 then -v else v }
  dsimp only at hcursor
  rw [toNat_abs] at hcursor
  have hshort := length_numeral_le_ten (Nat.le_refl 10) decimalDigits
    (if v.toInt < 0 then -v else v)
  rw [toNat_abs] at hshort
  have hprints := hcursor.finish minus zero (decide (v.toInt < 0)) hw (by omega)
  rw [signChars_eq] at hprints
  rw [convert, fetchVal_d hap]
  exact hprints.of_state rfl rfl rfl rfl

/-- The conversions of numbers without a sign. -/
theorem convert_unsigned {c : Char} {radix : ℕ} {digits : List Char} (hradix : 10 ≤ radix)
    (hzero : digitOf digits 0 = '0') (hc : isNumeric c = true) (hunsigned : ¬ (c = 'd' ∨ c = 'D'))
    (hconvert : convert ⟨minus, zero, BitVec.ofNat 32 w, c⟩ s = finish minus zero
      (fetchVal c s).1 (BitVec.ofNat 32 w) (cvt radix digits (fetchVal c s).2))
    (hap : s.ap = .word v :: ap) (hw : w < 2 ^ 31) :
    Prints (field minus zero w [] (numeral radix (digitOf digits) v.toNat)) ap s
      (convert ⟨minus, zero, BitVec.ofNat 32 w, c⟩ s) := by
  have hcursor := cvt_atCursor hradix hzero { s with ap, val := v }
  have hshort := length_numeral_le_ten hradix digits v
  have hsize : (numeral radix (digitOf digits) v.toNat).length < 2 ^ 31 := by omega
  rw [hconvert, fetchVal_eq hap hc hunsigned]
  exact (hcursor.finish minus zero false hw hsize).of_state rfl rfl rfl rfl

theorem convert_s {str : Option (List Char)} (hap : s.ap = .str str :: ap) (hw : w < 2 ^ 31)
    (hsize : (strChars str).length < 2 ^ 31) :
    Prints (field minus zero w [] (strChars str)) ap s
      (convert ⟨minus, zero, BitVec.ofNat 32 w, 's'⟩ s) := by
  have hconvert : convert ⟨minus, zero, BitVec.ofNat 32 w, 's'⟩ s = finish minus zero false
      (BitVec.ofNat 32 w) (setStr (vaStr s).1 (vaStr s).2) := rfl
  rw [hconvert, vaStr_eq hap]
  exact ((setStr_atCursor str { s with ap }).finish minus zero false hw hsize).of_state rfl rfl rfl rfl

theorem convert_c (minus zero : Bool) (prec : BitVec 32) (hap : s.ap = .word v :: ap) :
    Prints [Char.ofNat (v.toNat % 256)] ap s (convert ⟨minus, zero, prec, 'c'⟩ s) := by
  have hconvert : convert ⟨minus, zero, prec, 'c'⟩ s =
      emit [Char.ofNat ((vaWord s).1.toNat % 256)] (vaWord s).2 := rfl
  rw [hconvert, vaWord_eq hap]
  exact ⟨⟨rfl, BitVec.add_zero _, Nat.zero_le _⟩, rfl, rfl, id⟩

theorem field_of_width_le_one {c : Char} (hw : w ≤ 1) : field minus zero w [] [c] = [c] := by
  have hfill : w - (([] : List Char).length + [c].length) = 0 := by
    rw [List.length_nil, List.length_singleton]
    omega
  rw [field, hfill]
  cases minus <;> cases zero <;> rfl

/-- The parts of a field are no longer than the field. -/
theorem field_bounds {sign body : List Char}
    (h : (field minus zero w sign body).length < 2 ^ 31) : w < 2 ^ 31 ∧ body.length < 2 ^ 31 := by
  rw [length_field] at h
  omega

/-- A plain conversion prints its meaning. -/
theorem convert_plain (hplain : f.Plain) (hsize : f.meaning.length < 2 ^ 31)
    (hap : s.ap = f.kind.args ++ ap) : Prints f.meaning ap s (convert f.conv s) := by
  rw [Directive.Plain] at hplain
  rw [Directive.meaning] at hsize ⊢
  rw [Directive.conv]
  cases hkind : f.kind with
  | d v =>
      rw [hkind] at hsize hap
      exact convert_d hap (field_bounds hsize).1
  | u v =>
      rw [hkind] at hsize hap
      exact convert_unsigned (c := 'u') (Nat.le_refl 10) rfl rfl (by decide) rfl hap
        (field_bounds hsize).1
  | x v =>
      rw [hkind] at hsize hap
      exact convert_unsigned (c := 'x') (by decide) rfl rfl (by decide) rfl hap
        (field_bounds hsize).1
  | upperX v =>
      rw [hkind] at hsize hap
      exact convert_unsigned (c := 'X') (by decide) rfl rfl (by decide) rfl hap
        (field_bounds hsize).1
  | s str =>
      rw [hkind] at hsize hap
      exact convert_s hap (field_bounds hsize).1 (field_bounds hsize).2
  | c v =>
      rw [hkind] at hplain hap
      show Prints (field f.minus f.zero f.width [] [Char.ofNat (v.toNat % 256)]) ap s _
      rw [field_of_width_le_one hplain]
      exact convert_c _ _ _ hap
  | p v =>
      rw [hkind] at hplain
      exact hplain.elim
  | b v =>
      rw [hkind] at hplain
      exact hplain.elim
  | percent =>
      rw [hkind] at hplain
      exact hplain.elim

/-! ## Conversions that do not -/

/-- How many characters a conversion puts out without counting them. -/
def Kind.uncounted : Kind → ℕ
  | p _ => 2
  | percent => 1
  | _ => 0

theorem vaWord_same (s : Vprintf) : (vaWord s).2.out = s.out ∧ (vaWord s).2.res = s.res := by
  rw [vaWord]
  split <;> exact ⟨rfl, rfl⟩

theorem fetchVal_same (c : Char) (s : Vprintf) :
    (fetchVal c s).2.out = s.out ∧ (fetchVal c s).2.res = s.res := by
  rw [fetchVal]
  split
  · dsimp only
    split <;> exact vaWord_same s
  · exact ⟨rfl, rfl⟩

theorem finish_after {k : ℕ} {l : List Char} (h : Puts k l s s') (minus zero sign : Bool)
    (prec : BitVec 32) :
    ∃ l', Puts k (l ++ l') s (finish minus zero sign prec s') :=
  ⟨_, h.trans (finish_puts minus zero sign prec s')⟩

/-- A conversion that ends in `finish`, from a state in which nothing has been put out yet. -/
theorem puts_of_finish {conv : Conv} {sign : Bool} {prec : BitVec 32} {s₁ : Vprintf}
    (hconvert : convert conv s = finish minus zero sign prec s₁) (hout : s₁.out = s.out)
    (hres : s₁.res = s.res) : ∃ l, Puts 0 l s (convert conv s) := by
  rw [hconvert]
  exact ⟨_, (finish_puts ..).same_trans hout hres⟩

theorem vaStr_same (s : Vprintf) : (vaStr s).2.out = s.out ∧ (vaStr s).2.res = s.res := by
  rw [vaStr]
  split <;> exact ⟨rfl, rfl⟩

theorem convert_number_eq (prec : BitVec 32) (s : Vprintf) :
    convert ⟨minus, zero, prec, 'd'⟩ s = finish minus zero (fetchVal 'd' s).1 prec
        (cvt 10 decimalDigits (fetchVal 'd' s).2) ∧
      convert ⟨minus, zero, prec, 'u'⟩ s = finish minus zero (fetchVal 'u' s).1 prec
        (cvt 10 decimalDigits (fetchVal 'u' s).2) ∧
      convert ⟨minus, zero, prec, 'x'⟩ s = finish minus zero (fetchVal 'x' s).1 prec
        (cvt 16 hexDigits (fetchVal 'x' s).2) ∧
      convert ⟨minus, zero, prec, 'X'⟩ s = finish minus zero (fetchVal 'X' s).1 prec
        (cvt 16 hexDigitsUpper (fetchVal 'X' s).2) := ⟨rfl, rfl, rfl, rfl⟩

theorem convert_b_eq (prec : BitVec 32) (s : Vprintf) :
    convert ⟨minus, zero, prec, 'b'⟩ s = finish minus zero (fetchVal 'b' s).1 prec
      (setBits prec (fetchVal 'b' s).2) := rfl

theorem convert_p_eq (prec : BitVec 32) (s : Vprintf) :
    convert ⟨minus, zero, prec, 'p'⟩ s = finish minus true false 8
      (cvt 16 hexDigits (putc 'x' (putc '0' (fetchVal 'p' s).2))) := rfl

/-- Every conversion counts what it puts out, but for the prefix of a pointer and the percent
sign. -/
theorem convert_puts (f : Directive) (s : Vprintf) :
    ∃ l, Puts f.kind.uncounted l s (convert f.conv s) := by
  rw [Directive.conv]
  cases hkind : f.kind with
  | d v =>
      exact puts_of_finish (convert_number_eq _ s).1 (fetchVal_same _ s).1 (fetchVal_same _ s).2
  | u v =>
      exact puts_of_finish (convert_number_eq _ s).2.1 (fetchVal_same _ s).1 (fetchVal_same _ s).2
  | x v =>
      exact puts_of_finish (convert_number_eq _ s).2.2.1 (fetchVal_same _ s).1
        (fetchVal_same _ s).2
  | upperX v =>
      exact puts_of_finish (convert_number_eq _ s).2.2.2 (fetchVal_same _ s).1
        (fetchVal_same _ s).2
  | b v =>
      exact puts_of_finish (convert_b_eq _ s) (fetchVal_same _ s).1 (fetchVal_same _ s).2
  | s str =>
      have hconvert : convert ⟨f.minus, f.zero, BitVec.ofNat 32 f.width, 's'⟩ s =
        finish f.minus f.zero false (BitVec.ofNat 32 f.width)
          (setStr (vaStr s).1 (vaStr s).2) := rfl
      exact puts_of_finish hconvert (vaStr_same s).1 (vaStr_same s).2
  | c v =>
      have hconvert : convert ⟨f.minus, f.zero, BitVec.ofNat 32 f.width, 'c'⟩ s =
        emit [Char.ofNat ((vaWord s).1.toNat % 256)] (vaWord s).2 := rfl
      refine ⟨[Char.ofNat ((vaWord s).1.toNat % 256)], ?_⟩
      show Puts 0 _ s (convert ⟨f.minus, f.zero, BitVec.ofNat 32 f.width, 'c'⟩ s)
      rw [hconvert]
      exact (Puts.emit _ (vaWord s).2).same_trans (vaWord_same s).1 (vaWord_same s).2
  | p v =>
      have hputs := ((Puts.putc '0' (fetchVal 'p' s).2).trans (Puts.putc 'x' _)).same_trans
        (fetchVal_same 'p' s).1 (fetchVal_same 'p' s).2
      have hcvt : Puts 2 ['0', 'x'] s (cvt 16 hexDigits (putc 'x' (putc '0' (fetchVal 'p' s).2))) :=
        hputs.trans_same rfl rfl
      obtain ⟨l, hl⟩ := finish_after hcvt f.minus true false 8
      refine ⟨['0', 'x'] ++ l, ?_⟩
      show Puts 2 _ s (convert ⟨f.minus, f.zero, BitVec.ofNat 32 f.width, 'p'⟩ s)
      rw [convert_p_eq]
      exact hl
  | percent =>
      have hconvert : convert ⟨f.minus, f.zero, BitVec.ofNat 32 f.width, '%'⟩ s =
        finish f.minus f.zero false (BitVec.ofNat 32 f.width) (putc '%' s) := rfl
      obtain ⟨l, hl⟩ := finish_after (Puts.putc '%' s) f.minus f.zero false
        (BitVec.ofNat 32 f.width)
      refine ⟨['%'] ++ l, ?_⟩
      show Puts 1 _ s (convert ⟨f.minus, f.zero, BitVec.ofNat 32 f.width, '%'⟩ s)
      rw [hconvert]
      exact hl

/-- What a field is made of. -/
theorem mem_field {c : Char} {sign body : List Char} :
    c ∈ field minus zero w sign body → c = ' ' ∨ c = '0' ∨ c ∈ sign ∨ c ∈ body := by
  intro h
  rw [field] at h
  cases minus <;> cases zero <;>
    simp only [Bool.false_eq_true, if_true, if_false, List.mem_append, List.mem_replicate] at h <;>
    tauto

theorem mem_field_of_body {c : Char} {sign body : List Char} (h : c ∈ body) :
    c ∈ field minus zero w sign body := by
  rw [field]
  cases minus <;> cases zero <;>
    simp only [Bool.false_eq_true, if_true, if_false, List.mem_append] <;> tauto

/-- How many bits a conversion puts out. -/
def bitsShown (w : ℕ) : ℕ := if w = 0 then 32 else w

theorem setBits_length (hw : w < 2 ^ 31) :
    (setBits (BitVec.ofNat 32 w) s).length = BitVec.ofNat 32 (bitsShown w) := by
  have hzero : BitVec.ofNat 32 w = 0 ↔ w = 0 := by
    rw [BitVec.toNat_eq, BitVec.toNat_ofNat, Nat.mod_eq_of_lt (by omega)]
    rfl
  rw [setBits, bitsShown]
  dsimp only
  by_cases h : w = 0
  · rw [if_pos (hzero.mpr h), if_pos h]
    rfl
  · rw [if_neg (fun heq => h (hzero.mp heq)), if_neg h]

/-- The last character of a bit field is what the stack held, or what lies behind the buffer. -/
theorem setBits_last (hw : w < 2 ^ 31) :
    (setBits (BitVec.ofNat 32 w) s).buf (bitsShown w - 1) = s.buf (bitsShown w - 1) := by
  have hlength := setBits_length (s := s) hw
  have hpos : 0 < bitsShown w ∧ bitsShown w < 2 ^ 31 := by
    rw [bitsShown]
    split <;> omega
  rw [setBits] at hlength ⊢
  dsimp only at hlength ⊢
  apply Memory.store_outside
  have hone : (1 : BitVec 32) = BitVec.ofNat 32 1 := rfl
  rw [hlength, List.length_map, List.length_range, hone, toInt_sub_small hpos.2 (by omega)]
  omega

/-- Bits come out at their full number, the last one wrong. -/
theorem convert_b (minus zero : Bool) (hap : s.ap = .word v :: ap) (hw : w < 2 ^ 31) :
    ∃ l, Puts 0 l s (convert ⟨minus, zero, BitVec.ofNat 32 w, 'b'⟩ s) ∧
      (convert ⟨minus, zero, BitVec.ofNat 32 w, 'b'⟩ s).ap = ap ∧ l.length = bitsShown w ∧
      (Garbage s → 12 ≤ bitsShown w → '@' ∈ l) := by
  have hsize : bitsShown w < 2 ^ 31 ∧ w ≤ bitsShown w := by
    rw [bitsShown]
    split <;> omega
  have hfetch : fetchVal 'b' s = (false, { s with ap, val := v }) :=
    fetchVal_eq hap rfl (by decide)
  have hlength := setBits_length (s := { s with ap, val := v }) hw
  have hlast := setBits_last (s := { s with ap, val := v }) hw
  have hsame : (setBits (BitVec.ofNat 32 w) { s with ap, val := v }).out = s.out ∧
      (setBits (BitVec.ofNat 32 w) { s with ap, val := v }).res = s.res ∧
      (setBits (BitVec.ofNat 32 w) { s with ap, val := v }).ap = ap ∧
      (setBits (BitVec.ofNat 32 w) { s with ap, val := v }).cp = .buf 0 := ⟨rfl, rfl, rfl, rfl⟩
  rw [convert_b_eq, hfetch]
  dsimp only at hlast ⊢
  generalize setBits (BitVec.ofNat 32 w) { s with ap, val := v } = s₁ at *
  obtain ⟨hout, hres, hap₁, hcp⟩ := hsame
  have hchars : fetchChars s₁ (bitsShown w) = Memory.fetch s₁.buf 0 (bitsShown w) := by
    rw [fetchChars, hcp]
  have hbody : (Memory.fetch s₁.buf 0 (bitsShown w)).length = bitsShown w := Memory.length_fetch
  have hfield : finished minus zero false (BitVec.ofNat 32 w) s₁ =
      field minus zero w [] (Memory.fetch s₁.buf 0 (bitsShown w)) :=
    finished_eq_field minus zero false hw (by omega) (by rw [hbody]; exact hlength)
      (by rw [hbody]; exact hchars)
  have hputs := finish_puts minus zero false (BitVec.ofNat 32 w) s₁
  rw [hfield] at hputs
  refine ⟨_, hputs.same_trans hout hres, (finish_keeps ..).ap.trans hap₁, ?_,
    fun hgarbage hle => ?_⟩
  · rw [length_field, hbody]
    show max w (0 + bitsShown w) = bitsShown w
    omega
  · apply mem_field_of_body
    have hget : s₁.buf (0 + (bitsShown w - 1)) = '@' := by
      rw [Nat.zero_add, hlast]
      exact hgarbage _ (by omega)
    rw [← hget]
    exact List.mem_map.mpr ⟨bitsShown w - 1, List.mem_range.mpr (by omega), rfl⟩

/-! ## Whole formats -/

variable {p : Piece} {ps : List Piece}

/-- What one piece of a format does. -/
def Piece.run (p : Piece) (s : Vprintf) : Vprintf :=
  match p with
  | .text c _ => emit [c] s
  | .directive f => convert f.conv s

def runPieces (ps : List Piece) (s : Vprintf) : Vprintf := ps.foldl (fun s p => p.run s) s

/-- The loop goes from piece to piece. -/
theorem vprintfLoop_eq (n : ℕ) (s : Vprintf) (hn : (formatOf ps).length ≤ n) :
    vprintfLoop n (formatOf ps) s = runPieces ps s := by
  induction ps generalizing n s with
  | nil => cases n <;> rfl
  | cons p ps ih =>
      cases p with
      | text c plain =>
          have hformat : formatOf (.text c plain :: ps) = c :: formatOf ps := rfl
          rw [hformat, List.length_cons] at hn
          obtain ⟨m, rfl⟩ : ∃ m, n = m + 1 := ⟨n - 1, by omega⟩
          rw [hformat, vprintfLoop, if_neg plain.1]
          exact ih m _ (by omega)
      | directive f =>
          have hformat : formatOf (.directive f :: ps) = '%' :: (f.format ++ formatOf ps) := rfl
          rw [hformat, List.length_cons, List.length_append] at hn
          obtain ⟨m, rfl⟩ : ∃ m, n = m + 1 := ⟨n - 1, by omega⟩
          rw [hformat, vprintfLoop, if_pos rfl, parseConv_format]
          exact ih m _ (by omega)

/-- The state a call starts in. -/
def atStart (buf : ℕ → Char) (ap : List Arg) : Vprintf := ⟨buf, .buf 0, 0, 0, 0, ap, [], false⟩

theorem cmnosVprintf_eq (buf : ℕ → Char) (ps : List Piece) :
    cmnosVprintf buf (formatOf ps) (argsOf ps) = runPieces ps (atStart buf (argsOf ps)) :=
  vprintfLoop_eq _ _ (Nat.le_refl _)

theorem Prints.trans {l l' : List Char} {ap' : List Arg} {s'' : Vprintf} (h : Prints l ap s s')
    (h' : Prints l' ap' s' s'') : Prints (l ++ l') ap' s s'' :=
  ⟨h.puts.trans h'.puts, h'.ap, h'.overrun.trans h.overrun, fun hg => h'.garbage (h.garbage hg)⟩

theorem run_plain (hplain : p.Plain) (hsize : p.meaning.length < 2 ^ 31)
    (hap : s.ap = p.args ++ ap) : Prints p.meaning ap s (p.run s) := by
  cases p with
  | text c plain => exact ⟨Puts.emit [c] s, hap, rfl, id⟩
  | directive f => exact convert_plain hplain hsize hap

/-- Plain pieces print what they mean, one after the other. -/
theorem runPieces_plain (hplain : ∀ p ∈ ps, p.Plain) (hsize : (meaningOf ps).length < 2 ^ 31)
    (hap : s.ap = argsOf ps ++ ap) : Prints (meaningOf ps) ap s (runPieces ps s) := by
  induction ps generalizing s with
  | nil => exact ⟨Puts.of_same rfl rfl, hap, rfl, id⟩
  | cons p ps ih =>
      rw [meaningOf, List.flatMap_cons, List.length_append] at hsize
      rw [argsOf, List.flatMap_cons, List.append_assoc] at hap
      have hhead := run_plain (hplain p List.mem_cons_self) (by omega) hap
      have htail := ih (fun p' hp' => hplain p' (List.mem_cons_of_mem _ hp'))
        (show (meaningOf ps).length < 2 ^ 31 by rw [meaningOf]; omega) hhead.ap
      rw [meaningOf, List.flatMap_cons]
      exact hhead.trans htail

def Piece.uncounted : Piece → ℕ
  | text .. => 0
  | directive f => f.kind.uncounted

theorem run_puts (p : Piece) (s : Vprintf) : ∃ l, Puts p.uncounted l s (p.run s) := by
  cases p with
  | text c plain => exact ⟨_, Puts.emit [c] s⟩
  | directive f => exact convert_puts f s

theorem runPieces_puts (ps : List Piece) (s : Vprintf) :
    ∃ l, Puts (ps.map Piece.uncounted).sum l s (runPieces ps s) := by
  induction ps generalizing s with
  | nil => exact ⟨[], Puts.of_same rfl rfl⟩
  | cons p ps ih =>
      obtain ⟨l, hhead⟩ := run_puts p s
      obtain ⟨l', htail⟩ := ih (p.run s)
      exact ⟨l ++ l', hhead.trans htail⟩

/-- A conversion of bits that shows all of them. -/
def Directive.AllBits (f : Directive) : Prop := (∃ v, f.kind = .b v) ∧ (f.width = 0 ∨ 32 ≤ f.width)

def Piece.AllBits : Piece → Prop
  | text .. => False
  | directive f => f.AllBits

/-- A piece that counts everything puts out no more than it should, and as much as it should only
if it is plain or shows all bits. -/
structure Sized (p : Piece) (ap : List Arg) (s : Vprintf) (l : List Char) : Prop where
  out : (p.run s).out = s.out ++ l
  ap : (p.run s).ap = ap
  le : l.length ≤ p.meaning.length
  full : l.length = p.meaning.length → p.Plain ∨ p.AllBits
  bits : p.AllBits → Garbage s → l.length = p.meaning.length ∧ '@' ∈ l

theorem convert_wide_c {f : Directive} (hkind : f.kind = .c v) (hwide : ¬ f.width ≤ 1)
    (hap : s.ap = f.kind.args ++ ap) :
    Sized (.directive f) ap s [Char.ofNat (v.toNat % 256)] := by
  have hmeaning : (Piece.directive f).meaning =
      field f.minus f.zero f.width [] [Char.ofNat (v.toNat % 256)] := by
    rw [Piece.meaning, Directive.meaning, hkind]
    rfl
  have hconv : f.conv = ⟨f.minus, f.zero, BitVec.ofNat 32 f.width, 'c'⟩ := by
    rw [Directive.conv, hkind]
    rfl
  have hlength : (Piece.directive f).meaning.length = f.width := by
    rw [hmeaning, length_field]
    show max f.width (0 + 1) = f.width
    omega
  rw [hkind] at hap
  have hprints := convert_c f.minus f.zero (BitVec.ofNat 32 f.width) hap
  rw [← hconv] at hprints
  refine ⟨hprints.puts.out, hprints.ap, ?_, fun h => ?_, fun hbits => ?_⟩
  · rw [hlength, List.length_singleton]
    omega
  · rw [hlength, List.length_singleton] at h
    omega
  · obtain ⟨⟨v', hv'⟩, -⟩ := hbits
    rw [hkind] at hv'
    cases hv'

theorem run_sized_b {f : Directive} (hkind : f.kind = .b v)
    (hsize : f.meaning.length < 2 ^ 31) (hap : s.ap = f.kind.args ++ ap) :
    ∃ l, Sized (.directive f) ap s l := by
  have hmeaning : f.meaning =
      field f.minus f.zero f.width [] ((List.range 32).map (bitChar v)) := by
    rw [Directive.meaning, hkind]
    rfl
  have hconv : f.conv = ⟨f.minus, f.zero, BitVec.ofNat 32 f.width, 'b'⟩ := by
    rw [Directive.conv, hkind]
    rfl
  have hlength : f.meaning.length = max f.width 32 := by
    rw [hmeaning, length_field, List.length_map, List.length_range]
    rfl
  rw [hkind] at hap
  obtain ⟨l, hputs, hap', hl, hlast⟩ := convert_b f.minus f.zero
    (w := f.width) hap (by omega)
  rw [← hconv] at hputs hap'
  rw [bitsShown] at hl hlast
  refine ⟨l, hputs.out, hap', ?_, fun hfull => ?_, fun hbits hgarbage => ?_⟩
  · show l.length ≤ f.meaning.length
    rw [hl, hlength]
    split <;> omega
  · have hfull : l.length = f.meaning.length := hfull
    rw [hl, hlength] at hfull
    refine .inr ⟨⟨v, hkind⟩, ?_⟩
    split at hfull <;> omega
  · have hwidth := hbits.2
    refine ⟨?_, hlast hgarbage ?_⟩
    · show l.length = f.meaning.length
      rw [hl, hlength]
      split <;> omega
    · split <;> omega

theorem run_sized (hcounted : p.uncounted = 0) (hsize : p.meaning.length < 2 ^ 31)
    (hap : s.ap = p.args ++ ap) : ∃ l, Sized p ap s l := by
  by_cases hplain : p.Plain
  · have hprints := run_plain hplain hsize hap
    refine ⟨p.meaning, hprints.puts.out, hprints.ap, Nat.le_refl _, fun _ => .inl hplain,
      fun hbits => ?_⟩
    cases p with
    | text c plain => exact hbits.elim
    | directive f =>
        obtain ⟨⟨v, hkind⟩, -⟩ := hbits
        rw [Piece.Plain, Directive.Plain, hkind] at hplain
        exact hplain.elim
  · cases p with
    | text c plain => exact absurd trivial hplain
    | directive f =>
        rw [Piece.Plain, Directive.Plain] at hplain
        rw [Piece.uncounted] at hcounted
        cases hkind : f.kind with
        | d v | u v | x v | upperX v =>
            rw [hkind] at hplain
            exact absurd trivial hplain
        | s str =>
            rw [hkind] at hplain
            exact absurd trivial hplain
        | c v =>
            rw [hkind] at hplain
            exact ⟨_, convert_wide_c hkind hplain hap⟩
        | b v => exact run_sized_b hkind hsize hap
        | p v =>
            rw [hkind] at hcounted
            cases hcounted
        | percent =>
            rw [hkind] at hcounted
            cases hcounted

/-- The same over whole formats. -/
theorem runPieces_sized (hcounted : ∀ p ∈ ps, p.uncounted = 0)
    (hsize : (meaningOf ps).length < 2 ^ 31) (hap : s.ap = argsOf ps ++ ap) :
    ∃ l, (runPieces ps s).out = s.out ++ l ∧ l.length ≤ (meaningOf ps).length ∧
      (l.length = (meaningOf ps).length → ∀ p ∈ ps, p.Plain ∨ p.AllBits) := by
  induction ps generalizing s with
  | nil =>
      exact ⟨[], (List.append_nil _).symm, Nat.le_refl _, fun _ p hp => by cases hp⟩
  | cons p ps ih =>
      rw [meaningOf, List.flatMap_cons, List.length_append] at hsize
      rw [argsOf, List.flatMap_cons, List.append_assoc] at hap
      obtain ⟨l, hsized⟩ := run_sized (hcounted p List.mem_cons_self) (by omega) hap
      obtain ⟨l', hout, hle, hfull⟩ := ih (fun p' hp' => hcounted p' (List.mem_cons_of_mem _ hp'))
        (show (meaningOf ps).length < 2 ^ 31 by rw [meaningOf]; omega) hsized.ap
      have hle₁ := hsized.le
      have hlength : (meaningOf (p :: ps)).length = p.meaning.length + (meaningOf ps).length := by
        rw [meaningOf, List.flatMap_cons, List.length_append]
        rfl
      refine ⟨l ++ l', ?_, ?_, fun h p' hp' => ?_⟩
      · show (runPieces ps (p.run s)).out = _
        rw [hout, hsized.out, List.append_assoc]
      · rw [hlength, List.length_append]
        omega
      · rw [hlength, List.length_append] at h
        rcases List.mem_cons.mp hp' with rfl | hp'
        · exact hsized.full (by omega)
        · exact hfull (by omega) p' hp'

theorem Piece.AllBits.not_mem (h : p.AllBits) : '@' ∉ p.meaning := by
  cases p with
  | text c plain => exact h.elim
  | directive f =>
      obtain ⟨⟨v, hkind⟩, -⟩ := h
      rw [Piece.meaning, Directive.meaning, hkind]
      intro hmem
      rcases mem_field hmem with hblank | hzero | hsign | hbody
      · revert hblank
        decide
      · revert hzero
        decide
      · cases hsign
      · obtain ⟨i, -, hi⟩ := List.mem_map.mp hbody
        rw [bitChar] at hi
        split at hi <;> revert hi <;> decide

/-- Bits never show what they should: the first of them puts out a character of the stack. -/
theorem plain_of_out (hok : ∀ p ∈ ps, p.Plain ∨ p.AllBits) (hcounted : ∀ p ∈ ps, p.uncounted = 0)
    (hsize : (meaningOf ps).length < 2 ^ 31) (hap : s.ap = argsOf ps ++ ap) (hgarbage : Garbage s)
    (hout : (runPieces ps s).out = s.out ++ meaningOf ps) : ∀ p ∈ ps, p.Plain := by
  induction ps generalizing s with
  | nil =>
      intro p hp
      cases hp
  | cons p ps ih =>
      have hrest : ∀ p' ∈ ps, p' ∈ p :: ps := fun p' hp' => List.mem_cons_of_mem _ hp'
      have hmeaning : meaningOf (p :: ps) = p.meaning ++ meaningOf ps := List.flatMap_cons ..
      rw [hmeaning, List.length_append] at hsize
      rw [argsOf, List.flatMap_cons, List.append_assoc] at hap
      have hhead : p.Plain := by
        rcases hok p List.mem_cons_self with hplain | hbits
        · exact hplain
        · exfalso
          obtain ⟨l, hsized⟩ := run_sized (hcounted p List.mem_cons_self) (by omega) hap
          obtain ⟨hlength, hgarbled⟩ := hsized.bits hbits hgarbage
          obtain ⟨l', hputs⟩ := runPieces_puts ps (p.run s)
          have hall : s.out ++ (l ++ l') = s.out ++ (p.meaning ++ meaningOf ps) := by
            rw [← hmeaning, ← hout, ← List.append_assoc, ← hsized.out]
            exact hputs.out.symm
          have hl : l = p.meaning := List.append_inj_left (List.append_cancel_left hall) hlength
          rw [hl] at hgarbled
          exact hbits.not_mem hgarbled
      have hprints := run_plain hhead (by omega) hap
      have htail := ih (fun p' hp' => hok p' (hrest p' hp'))
        (fun p' hp' => hcounted p' (hrest p' hp')) (by omega) hprints.ap
        (hprints.garbage hgarbage) (by
          rw [hprints.puts.out, List.append_assoc, ← hmeaning]
          exact hout)
      intro p' hp'
      rcases List.mem_cons.mp hp' with rfl | hp'
      · exact hhead
      · exact htail p' hp'

/-- What a call that prints its meaning returns fits an `int`. -/
theorem PrintsMeaning.counted (h : PrintsMeaning ps) (buf : ℕ → Char) :
    (meaningOf ps).length < 2 ^ 31 ∧
      (runPieces ps (atStart buf (argsOf ps))).out = meaningOf ps ∧
      (runPieces ps (atStart buf (argsOf ps))).res = BitVec.ofNat 32 (meaningOf ps).length := by
  obtain ⟨hout, -, hres⟩ := h buf
  rw [cmnosVprintf_eq] at hout hres
  have hlt := BitVec.toInt_lt (x := (runPieces ps (atStart buf (argsOf ps))).res)
  rw [hres, hout] at hlt
  have hsize : (meaningOf ps).length < 2 ^ 31 := by omega
  refine ⟨hsize, hout, BitVec.eq_of_toInt_eq ?_⟩
  rw [hres, hout, toInt_ofNat_small hsize]

/-- A call that prints and counts its meaning leaves nothing out of the count. -/
theorem uncounted_eq_zero (h : PrintsMeaning ps) : ∀ p ∈ ps, p.uncounted = 0 := by
  obtain ⟨hsize, hout, hres⟩ := h.counted fun _ => '@'
  obtain ⟨l, hputs⟩ := runPieces_puts ps (atStart (fun _ => '@') (argsOf ps))
  have hl : l = meaningOf ps := hputs.out.symm.trans hout
  have hle := hputs.le
  have hsum := hputs.res
  rw [hres, hl] at hsum
  have hsum : BitVec.ofNat 32 (meaningOf ps).length + BitVec.ofNat 32 (ps.map Piece.uncounted).sum =
    0 + BitVec.ofNat 32 (meaningOf ps).length := hsum
  rw [BitVec.add_comm] at hsum
  have hsum := add_right_cancel hsum
  have hzero : (ps.map Piece.uncounted).sum = 0 := by
    have hmod := congrArg BitVec.toNat hsum
    rw [BitVec.toNat_ofNat, Nat.mod_eq_of_lt (by rw [hl] at hle; omega)] at hmod
    exact hmod
  intro p hp
  exact List.sum_eq_zero_iff_forall_eq_nat.mp hzero _ (List.mem_map.mpr ⟨p, hp, rfl⟩)

/-- A format that prints its meaning is plain. -/
theorem plain_of_printsMeaning (h : PrintsMeaning ps) :
    (∀ p ∈ ps, p.Plain) ∧ (meaningOf ps).length < 2 ^ 31 := by
  have hcounted := uncounted_eq_zero h
  obtain ⟨hsize, hout, -⟩ := h.counted fun _ => '@'
  have hap : (atStart (fun _ => '@') (argsOf ps)).ap = argsOf ps ++ [] := (List.append_nil _).symm
  obtain ⟨l, hl, -, hfull⟩ := runPieces_sized hcounted hsize hap
  have hmeaning : l = meaningOf ps := hl.symm.trans hout
  exact ⟨plain_of_out (hfull (congrArg List.length hmeaning)) hcounted hsize hap (fun _ _ => rfl)
    hout, hsize⟩

/-- A call prints what its format means, whatever was on the stack, and counts it, exactly where
the format has no pointer, no bits and no percent sign, no character in a field of two or more,
and no more output than an `int` can count. -/
theorem prints_meaning_iff (ps : List Piece) :
    PrintsMeaning ps ↔ (∀ p ∈ ps, p.Plain) ∧ (meaningOf ps).length < 2 ^ 31 := by
  constructor
  · exact plain_of_printsMeaning
  · rintro ⟨hplain, hsize⟩ buf
    have hap : (atStart buf (argsOf ps)).ap = argsOf ps ++ [] := (List.append_nil _).symm
    have hprints := runPieces_plain hplain hsize hap
    have hout : (runPieces ps (atStart buf (argsOf ps))).out = meaningOf ps := hprints.puts.out
    rw [cmnosVprintf_eq, hout]
    refine ⟨rfl, hprints.overrun, ?_⟩
    have hres := hprints.puts.res
    rw [BitVec.add_zero] at hres
    rw [hres]
    show (0 + BitVec.ofNat 32 (meaningOf ps).length).toInt = _
    rw [zero_add, toInt_ofNat_small hsize]

/-- `%%`, which prints one percent sign and returns zero. -/
def percentSign : Piece := .directive ⟨false, false, [], false, .percent, .inr (by decide)⟩

theorem percent_sign_not_counted : ¬ ∀ ps, PrintsMeaning ps := by
  intro h
  exact (plain_of_printsMeaning (h [percentSign])).1 percentSign List.mem_cons_self

end Ath9kHtc.Cmnos
