/-!
# Binary floating point of 64 bits

Every finite value is a whole number of units of `2 ^ -1074`, up to its sign, so all arithmetic
is exact arithmetic on natural numbers followed by one rounding. A magnitude is stored as its
rank among the finite magnitudes; the rank is also the low 63 bits of the interchange format.
-/

set_option autoImplicit false

namespace ColumnRules

def pow2 (k : Nat) : Nat := Nat.pow 2 k

def pow10 (k : Nat) : Nat := Nat.pow 10 k

/-- How many finite magnitudes there are: 2047 exponent fields with `2 ^ 52` fractions each. -/
def magnitudeCount : Nat := 2047 * pow2 52

inductive Binary64 where
  | finite (negative : Bool) (rank : Fin magnitudeCount)
  | infinite (negative : Bool)
  | nan
  deriving DecidableEq

namespace Binary64

/-- The magnitude of a rank, in units of `2 ^ -1074`. -/
def unitsOfRank (rank : Nat) : Nat :=
  if rank < pow2 52 then rank else (pow2 52 + rank % pow2 52) * pow2 (rank / pow2 52 - 1)

def one : Nat := pow2 1074

/-- The whole number nearest to `num / den`; a half goes to the even neighbour. -/
def halfEven (num den : Nat) : Nat :=
  let whole := num / den
  let twice := 2 * (num % den)
  if twice < den then whole
  else if den < twice then whole + 1
  else whole + whole % 2

/-- The rank nearest to `num / den` units. Only the leading 53 bits of the whole part are kept;
carrying into a 54th bit lands on the next exponent by itself, because ranks are consecutive. -/
def nearestRank (num den : Nat) : Nat :=
  let dropped := (num / den).log2 - 52
  dropped * pow2 52 + halfEven num (den * pow2 dropped)

/-- The value nearest to `num / den` units; past the largest finite magnitude it is infinite. -/
def ofRatio (negative : Bool) (num den : Nat) : Binary64 :=
  let rank := nearestRank num den
  if h : rank < magnitudeCount then finite negative ⟨rank, h⟩ else infinite negative

def zero (negative : Bool) : Binary64 := finite negative ⟨0, by decide⟩

def ofNat (n : Nat) : Binary64 := ofRatio false (n * one) 1

/-- The nearest value; zero is positive. -/
def ofInt (n : Int) : Binary64 := ofRatio (n < 0) (n.natAbs * one) 1

def isFinite : Binary64 → Bool
  | finite .. => true
  | _ => false

def isZero : Binary64 → Bool
  | finite _ rank => rank.val == 0
  | _ => false

def units : Binary64 → Int
  | finite false rank => unitsOfRank rank
  | finite true rank => -(unitsOfRank rank : Int)
  | _ => 0

def negate : Binary64 → Binary64
  | finite negative rank => finite (!negative) rank
  | infinite negative => infinite (!negative)
  | nan => nan

/-- A sum of finite values is rounded once. An exact zero is negative only when both terms are. -/
def add : Binary64 → Binary64 → Binary64
  | nan, _ => nan
  | _, nan => nan
  | infinite p, infinite q => if p == q then infinite p else nan
  | infinite p, finite .. => infinite p
  | finite .., infinite q => infinite q
  | finite p r, finite q s =>
    let sum := (finite p r).units + (finite q s).units
    if sum = 0 then zero (p && q) else ofRatio (sum < 0) sum.natAbs 1

def sub (x y : Binary64) : Binary64 := add x y.negate

def abs : Binary64 → Binary64
  | finite _ rank => finite false rank
  | infinite _ => infinite false
  | nan => nan

/-- Strict order of the extended line; a NaN is below nothing and above nothing. -/
def less : Binary64 → Binary64 → Bool
  | nan, _ => false
  | _, nan => false
  | infinite p, infinite q => p && !q
  | infinite p, finite .. => p
  | finite .., infinite q => !q
  | finite p r, finite q s => (finite p r).units < (finite q s).units

/-- Numeric equality: both zeros are equal, and a NaN equals nothing. -/
def sameValue : Binary64 → Binary64 → Bool
  | infinite p, infinite q => p == q
  | finite p r, finite q s => (finite p r).units == (finite q s).units
  | _, _ => false

/-- The interchange format. Every NaN is written as the positive quiet one. -/
def toBits : Binary64 → Nat
  | finite negative rank => (if negative then pow2 63 else 0) + rank
  | infinite negative => (if negative then pow2 63 else 0) + magnitudeCount
  | nan => magnitudeCount + pow2 51

def ofBits (bits : Nat) : Binary64 :=
  let negative := bits / pow2 63 % 2 == 1
  let rank := bits % pow2 63
  if h : rank < magnitudeCount then finite negative ⟨rank, h⟩
  else if rank = magnitudeCount then infinite negative
  else nan

/-- The whole number that the value is, when it is one. -/
def toInt? : Binary64 → Option Int
  | finite negative rank =>
    let count := unitsOfRank rank
    if count % one = 0 then
      some (if negative then -(count / one : Nat) else (count / one : Nat))
    else none
  | _ => none

end Binary64

end ColumnRules
