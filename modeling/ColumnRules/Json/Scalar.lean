import ColumnRules.Json.Basic
import ColumnRules.Number.Decimal

/-!
# Scalars in JSON text

What is written and what it means are kept apart. The form follows the strict grammar: four
blanks, no leading zeros, no raw control characters. The meaning may still be missing: a surrogate
that stands alone is no character, and a number that overflows has no value. Whole numbers from
`-2 ^ 63` to `2 ^ 64 - 1` stay whole, all others become floating point.
-/

set_option autoImplicit false

namespace ColumnRules

namespace Json

/-- A reader answers what it read and the text behind it. -/
abbrev Reader (α : Type) := List Char → Option (α × List Char)

def isSpace (c : Char) : Bool := c == ' ' || c == '\t' || c == '\n' || c == '\r'

def skipSpace (s : List Char) : List Char := s.dropWhile isSpace

/-! ## Strings -/

def hexDigit? (c : Char) : Option Nat :=
  if c.isDigit then some (c.toNat - '0'.toNat)
  else if 'a' ≤ c && c ≤ 'f' then some (c.toNat - 'a'.toNat + 10)
  else if 'A' ≤ c && c ≤ 'F' then some (c.toNat - 'A'.toNat + 10)
  else none

def unit? (a b c d : Char) : Option Nat := do
  let a ← hexDigit? a
  let b ← hexDigit? b
  let c ← hexDigit? c
  let d ← hexDigit? d
  some (((a * 16 + b) * 16 + c) * 16 + d)

def escape? : Char → Option Char
  | '"' => some '"'
  | '\\' => some '\\'
  | '/' => some '/'
  | 'b' => some '\x08'
  | 'f' => some '\x0c'
  | 'n' => some '\n'
  | 'r' => some '\r'
  | 't' => some '\t'
  | _ => none

/-- A piece of a string: a character, or a code unit given by four hexadecimal digits. -/
inductive Piece where
  | char (c : Char)
  | unit (n : Nat)
  deriving DecidableEq

def pieces : Reader (List Piece)
  | '\\' :: 'u' :: a :: b :: c :: d :: rest => do
    let n ← unit? a b c d
    let (more, rest) ← pieces rest
    some (.unit n :: more, rest)
  | '\\' :: letter :: rest => do
    let char ← escape? letter
    let (more, rest) ← pieces rest
    some (.char char :: more, rest)
  | '"' :: rest => some ([], rest)
  | c :: rest =>
    if c == '\\' || c.toNat < 0x20 then none
    else do
      let (more, rest) ← pieces rest
      some (.char c :: more, rest)
  | [] => none

def isSurrogate (n : Nat) : Bool := 0xD800 ≤ n && n < 0xE000

def surrogates? (high low : Nat) : Option Char :=
  if 0xD800 ≤ high && high < 0xDC00 && 0xDC00 ≤ low && low < 0xE000 then
    some (Char.ofNat (0x10000 + (high - 0xD800) * 0x400 + (low - 0xDC00)))
  else none

/-- The characters of the pieces. Surrogates count in pairs only. -/
def characters? : List Piece → Option (List Char)
  | [] => some []
  | .char c :: rest => (characters? rest).map (c :: ·)
  | .unit high :: .unit low :: rest =>
    if isSurrogate high then do
      let char ← surrogates? high low
      let more ← characters? rest
      some (char :: more)
    else (characters? (.unit low :: rest)).map (Char.ofNat high :: ·)
  | .unit n :: rest =>
    if isSurrogate n then none else (characters? rest).map (Char.ofNat n :: ·)

def stringBody : Reader (List Char) := fun s => do
  let (body, s) ← pieces s
  let chars ← characters? body
  some (chars, s)

/-! ## Numbers -/

structure Numeral where
  negative : Bool
  whole : List Char
  fraction : Option (List Char)
  power : Option Int

/-- The fraction digits behind the whole digits; a point needs at least one. -/
def fractionPart : Reader (Option (List Char))
  | '.' :: rest =>
    let (digits, rest) := rest.span Char.isDigit
    if digits.isEmpty then none else some (some digits, rest)
  | rest => some (none, rest)

/-- The power of ten behind a numeral; its mark needs at least one digit. -/
def exponentPart : Reader (Option Int)
  | mark :: rest =>
    if mark == 'e' || mark == 'E' then
      let (negative, rest) := match rest with
        | '-' :: rest => (true, rest)
        | '+' :: rest => (false, rest)
        | rest => (false, rest)
      let (digits, rest) := rest.span Char.isDigit
      let power : Int := Nat.ofDigitChars 10 digits 0
      if digits.isEmpty then none else some (some (if negative then -power else power), rest)
    else some (none, mark :: rest)
  | [] => some (none, [])

def numeral : Reader Numeral := fun s => do
  let (negative, s) := match s with
    | '-' :: rest => (true, rest)
    | s => (false, s)
  let (whole, s) := s.span Char.isDigit
  if whole.isEmpty || (1 < whole.length && whole.head? == some '0') then none
  else
    let (fraction, s) ← fractionPart s
    let (power, s) ← exponentPart s
    some (⟨negative, whole, fraction, power⟩, s)

/-- The value of a numeral. Without point and exponent it is whole if 64 bits can hold it; minus
zero is not. Any other value is the nearest one to all the digits, which are rounded once. A reader
that takes the digits in parts does no more than its best with long decimals and may answer a
neighbour of this value. -/
def Numeral.value? (n : Numeral) : Option Json :=
  let magnitude := Nat.ofDigitChars 10 n.whole 0
  let plain := n.fraction.isNone && n.power.isNone
  if plain && !n.negative && magnitude < pow2 64 then some (int magnitude)
  else if plain && n.negative && 0 < magnitude && magnitude ≤ pow2 63 then some (int (-magnitude))
  else
    let x := (Decimal.ofParts n.whole (n.fraction.getD []) (n.power.getD 0)).toBinary64 n.negative
    if x.isFinite then some (float x) else none

/-! ## Scalars -/

inductive Scalar where
  | null
  | bool (b : Bool)
  | number (n : Numeral)
  | string (body : List Piece)

def scalar : Reader Scalar
  | 'n' :: 'u' :: 'l' :: 'l' :: s => some (.null, s)
  | 't' :: 'r' :: 'u' :: 'e' :: s => some (.bool true, s)
  | 'f' :: 'a' :: 'l' :: 's' :: 'e' :: s => some (.bool false, s)
  | '"' :: s => (pieces s).map fun (body, s) => (.string body, s)
  | s => (numeral s).map fun (n, s) => (.number n, s)

def Scalar.value? : Scalar → Option Json
  | null => some .null
  | bool b => some (.bool b)
  | number n => n.value?
  | string body => (characters? body).map fun chars => .string (String.ofList chars)

end Json

end ColumnRules
