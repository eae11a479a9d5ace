import ColumnRules.Proofs.Grammar.Derivation
import Mathlib.Data.List.Chain

/-!
# No operand stands beside another one

Between two operands of a derivation stands an operator, a comma or a bracket. Text whose tokens
put one operand directly behind another one is not accepted.
-/

set_option autoImplicit false

namespace ColumnRules

namespace Token

/-- The tokens that an operand may start with. -/
def startsOperand : Token → Bool
  | column _ | name _ | number _ | quotation _ | leftParen | leftBracket => true
  | _ => false

/-- The second token may stand directly behind the first. -/
def Joins (t u : Token) : Prop := t.endsOperand = true → u.startsOperand = false

theorem isChain_cons {t : Token} (ht : t.endsOperand = false) {ts : List Token}
    (h : ts.IsChain Joins) : (t :: ts).IsChain Joins := by
  apply List.isChain_cons.mpr
  refine ⟨?_, h⟩
  intro u _ hends
  rw [ht] at hends
  cases hends

theorem isChain_append {t : Token} (ht : t.startsOperand = false) {ts us : List Token}
    (h : ts.IsChain Joins) (hrest : (t :: us).IsChain Joins) : (ts ++ t :: us).IsChain Joins := by
  apply List.isChain_append.mpr
  refine ⟨h, hrest, ?_⟩
  intro last _ u hu _
  cases hu
  exact ht

end Token

mutual

theorem Derives.isChain {level : Level} {ts : List Token} {e : Expr} :
    Derives level ts e → ts.IsChain Token.Joins
  | .number _ | .column _ => .singleton _
  | .group h => Token.isChain_cons rfl (Token.isChain_append rfl h.isChain (.singleton _))
  | .list h => Token.isChain_cons rfl h.isChain
  | .chain _ hl hr => Token.isChain_append rfl hl.isChain (Token.isChain_cons rfl hr.isChain)
  | .operand h => h.isChain

theorem DerivesItems.isChain {ts : List Token} {es : List Expr} :
    DerivesItems ts es → ts.IsChain Token.Joins
  | .none => .singleton _
  | .one h => Token.isChain_append rfl h.isChain (.singleton _)
  | .more h hitems => Token.isChain_append rfl h.isChain (Token.isChain_cons rfl hitems.isChain)

end

theorem DerivesStatement.isChain {ts : List Token} {e : Expr} (h : DerivesStatement ts e) :
    ts.IsChain Token.Joins := by
  cases h with
  | bare h => exact h.isChain
  | closed h => exact Token.isChain_append rfl h.isChain (.singleton _)

end ColumnRules
