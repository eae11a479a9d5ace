import ColumnRules.Number.Shortest

/-!
# Number texts

Three layouts of a 64-bit value. The plain text never has an exponent and drops the point of a
whole number. The JSON text keeps a point or an exponent in every number and turns to scientific
notation outside `10 ^ -5` to `10 ^ 15`. The fixed text has six places.
-/

set_option autoImplicit false

namespace ColumnRules

namespace Decimal

def digitChars (d : Decimal) : List Char := Nat.toDigits 10 d.digits

/-- The power of ten of the leading digit. -/
def leading (d : Decimal) : Int := d.exponent + d.digitChars.length - 1

/-- Digits with the point in its place, without a point when the decimal is whole. -/
def positional (d : Decimal) : List Char :=
  match d.exponent with
  | .ofNat e => d.digitChars ++ List.replicate e '0'
  | .negSucc e =>
    let places := e + 1
    let count := d.digitChars.length
    if places < count then
      d.digitChars.take (count - places) ++ '.' :: d.digitChars.drop (count - places)
    else '0' :: '.' :: (List.replicate (places - count) '0' ++ d.digitChars)

/-- One digit before the point and the power of ten with its sign. -/
def scientific (d : Decimal) : List Char :=
  let mantissa := match d.digitChars with
    | first :: second :: rest => first :: '.' :: second :: rest
    | digits => digits
  let power := d.leading
  mantissa ++ 'e' :: (if power < 0 then '-' else '+') :: Nat.toDigits 10 power.natAbs

end Decimal

namespace Binary64

def signed (negative : Bool) (text : List Char) : List Char :=
  if negative then '-' :: text else text

/-- The shortest digits in positional notation; a halfway case goes up. -/
def plainText : Binary64 → List Char
  | nan => ['N', 'a', 'N']
  | infinite negative => signed negative ['i', 'n', 'f']
  | finite negative rank =>
    signed negative (if rank.val = 0 then ['0'] else (shortestDecimal .up rank).positional)

/-- Rule text writes whole numbers below `10 ^ 15` as integers, both zeros as `0`. -/
def ruleText (x : Binary64) : List Char :=
  match x.toInt? with
  | some n =>
    if n.natAbs < pow10 15 then signed (n < 0) (Nat.toDigits 10 n.natAbs) else x.plainText
  | none => x.plainText

/-- The shortest digits as a JSON number; a halfway case goes to the even digit. -/
def jsonMagnitude (rank : Fin magnitudeCount) : List Char :=
  if rank.val = 0 then ['0', '.', '0']
  else
    let d := shortestDecimal .even rank
    if -5 ≤ d.leading ∧ d.leading ≤ 15 then
      d.positional ++ (if 0 ≤ d.exponent then ['.', '0'] else [])
    else d.scientific

/-- The JSON text of a value. JSON has no infinities and no NaN; they are written as null. -/
def jsonText : Binary64 → List Char
  | finite negative rank => signed negative (jsonMagnitude rank)
  | _ => ['n', 'u', 'l', 'l']

/-- Six places; the exact binary value decides the rounding, a half goes to the even digit. -/
def fixedText : Binary64 → List Char
  | finite negative rank =>
    let count := halfEven (unitsOfRank rank * pow10 6) one
    let places := Nat.toDigits 10 (count % pow10 6)
    signed negative (Nat.toDigits 10 (count / pow10 6) ++
      '.' :: (List.replicate (6 - places.length) '0' ++ places))
  | x => x.plainText

end Binary64

end ColumnRules
