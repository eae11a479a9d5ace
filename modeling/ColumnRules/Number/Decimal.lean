import ColumnRules.Number.Binary64

/-!
# Decimal numerals

A decimal is `digits * 10 ^ exponent`. Reading one as a 64-bit value is exact up to a single
rounding, however many digits it has.
-/

set_option autoImplicit false

namespace ColumnRules

structure Decimal where
  digits : Nat
  exponent : Int
  deriving DecidableEq

namespace Decimal

def ofParts (whole fraction : List Char) (exponent : Int) : Decimal :=
  ⟨Nat.ofDigitChars 10 (whole ++ fraction) 0, exponent - fraction.length⟩

/-- The numerator and denominator of a decimal over one part in `scale`. -/
def ratio (d : Decimal) (scale : Nat) : Nat × Nat :=
  match d.exponent with
  | .ofNat e => (d.digits * pow10 e * scale, 1)
  | .negSucc e => (d.digits * scale, pow10 (e + 1))

/-- The nearest 64-bit value. A decimal with digits is at least `10 ^ exponent`, which overflows
above 400; it is below `10 ^ (log2 digits + 1 + exponent)`, which vanishes under -400. Between
the two the powers stay small enough to compute with. -/
def toBinary64 (negative : Bool) (d : Decimal) : Binary64 :=
  if d.digits = 0 then .zero negative
  else if 400 < d.exponent then .infinite negative
  else if d.digits.log2 + 1 + d.exponent < -400 then .zero negative
  else
    let (num, den) := d.ratio Binary64.one
    .ofRatio negative num den

end Decimal

namespace Binary64

/-- Letters compared without regard to ASCII case. -/
def sameWord (s word : List Char) : Bool := s.map Char.toLower == word

/-- Reads `e` or `E`, a sign and digits as a power of ten. Nothing at all is the power zero. -/
def exponentOfText? : List Char → Option Int
  | [] => some 0
  | mark :: rest =>
    if mark == 'e' || mark == 'E' then
      let (negative, digits) := match rest with
        | '-' :: digits => (true, digits)
        | '+' :: digits => (false, digits)
        | digits => (false, digits)
      if digits.isEmpty || !digits.all Char.isDigit then none
      else
        let power : Int := Nat.ofDigitChars 10 digits 0
        some (if negative then -power else power)
    else none

/-- Reads digits with an optional point among or beside them, then an optional power of ten. -/
def decimalOfText? (s : List Char) : Option Decimal :=
  let (whole, rest) := s.span Char.isDigit
  let (fraction, rest) := match rest with
    | '.' :: rest => rest.span Char.isDigit
    | rest => ([], rest)
  if whole.isEmpty && fraction.isEmpty then none
  else (exponentOfText? rest).map (Decimal.ofParts whole fraction)

def unsignedOfText? (negative : Bool) (s : List Char) : Option Binary64 :=
  if sameWord s ['i', 'n', 'f'] || sameWord s ['i', 'n', 'f', 'i', 'n', 'i', 't', 'y'] then
    some (.infinite negative)
  else if sameWord s ['n', 'a', 'n'] then some .nan
  else (decimalOfText? s).map (Decimal.toBinary64 negative)

/-- Reads a number: an optional sign, then a decimal, `inf`, `infinity` or `nan`. -/
def ofText? : List Char → Option Binary64
  | '-' :: s => unsignedOfText? true s
  | '+' :: s => unsignedOfText? false s
  | s => unsignedOfText? false s

end Binary64

end ColumnRules
