import ColumnRules.Config
import ColumnRules.Parse

/-!
# Validation of edited rules

The text of a rule must parse over the columns, and its masses must sum to one within the
tolerance. The sum runs from left to right and starts at minus zero, so that of no masses at all
is minus zero.
-/

set_option autoImplicit false

namespace ColumnRules

inductive RuleStatus where
  | valid
  | massMismatch
  | invalidExpression
  deriving DecidableEq

def RuleStatus.message : RuleStatus → String
  | valid => "valid"
  | massMismatch => "mass mismatch"
  | invalidExpression => "invalid expression"

structure Validation where
  expression : Except ParseError Expr
  massSum : Binary64
  massValid : Bool

namespace Validation

/-- Text that does not parse outranks masses that do not sum up. -/
def status (report : Validation) : RuleStatus :=
  match report.expression, report.massValid with
  | .error _, _ => .invalidExpression
  | .ok _, false => .massMismatch
  | .ok _, true => .valid

def isValid (report : Validation) : Bool := report.status == .valid

end Validation

def sumMass (mass : List Binary64) : Binary64 := mass.foldl Binary64.add (.zero true)

def validateRule (text : String) (mass : List Binary64) (columns : List String)
    (config : Config) : Validation :=
  let sum := sumMass mass
  ⟨parse text columns, sum, (sum.sub (.ofNat 1)).abs.less config.massTolerance⟩

end ColumnRules
