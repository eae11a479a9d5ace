import ColumnRules.Number.Decimal

/-!
# Shortest decimals

The shortest decimal of a magnitude is one with the fewest digits among those that read back as
it, and of several the nearest. A grid of `n` digits has two neighbours of the magnitude; if any
point of the grid reads back, one of these two does.
-/

set_option autoImplicit false

namespace ColumnRules

/-- Where a magnitude goes that lies halfway between two decimals that both read back. -/
inductive Tie where
  | even
  | up
  deriving DecidableEq

namespace Shortest

/-- The power of ten of the leading digit. `30103 / 100000` exceeds the logarithm of two by less
than any of the binary exponents can tell, so the estimate is exact or one too small. -/
def leadingPower (units : Nat) : Int :=
  let estimate := (((units.log2 : Int) - 1074) * 30103).fdiv 100000
  let (num, den) := (Decimal.mk 1 (estimate + 1)).ratio Binary64.one
  if num ≤ units * den then estimate + 1 else estimate

/-- The magnitude over `10 ^ power`, as numerator and denominator. -/
def scaled (units : Nat) (power : Int) : Nat × Nat :=
  match power with
  | .ofNat e => (units, Binary64.one * pow10 e)
  | .negSucc e => (units * pow10 (e + 1), Binary64.one)

/-- The decimal of `n` digits that reads back as the magnitude, the nearer one if both
neighbours do. -/
def withDigits? (tie : Tie) (rank : Fin magnitudeCount) (n : Nat) : Option Decimal :=
  let units := Binary64.unitsOfRank rank
  let power := leadingPower units + 1 - n
  let (num, den) := scaled units power
  let below : Decimal := ⟨num / den, power⟩
  let above : Decimal :=
    if num / den + 1 = pow10 n then ⟨1, power + n⟩ else ⟨num / den + 1, power⟩
  let readsBack (d : Decimal) : Bool := d.toBinary64 false == .finite false rank
  let twice := 2 * (num % den)
  let nearerBelow := twice < den || (twice == den && tie == .even && num / den % 2 == 0)
  match readsBack below, readsBack above with
  | true, true => some (if nearerBelow then below else above)
  | true, false => some below
  | false, true => some above
  | false, false => none

/-- All digits of the magnitude, down to the last of its `2 ^ -1074` units. -/
def exact (rank : Nat) : Decimal := ⟨Binary64.unitsOfRank rank * Nat.pow 5 1074, -1074⟩

end Shortest

/-- The shortest decimal of a magnitude. Seventeen digits always read back; the exact expansion
stands behind the search so that the answer does so by construction. -/
def shortestDecimal (tie : Tie) (rank : Fin magnitudeCount) : Decimal :=
  ((List.range 17).findSome? fun n => Shortest.withDigits? tie rank (n + 1)).getD
    (Shortest.exact rank)

end ColumnRules
