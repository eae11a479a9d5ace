import ColumnRules.Expr.Basic
import ColumnRules.Token.Basic

/-!
# The grammar of rule text

Six levels of operators over atoms, all of them grouping to the left:

    or         → and (`||` and)*
    and        → equality (`&&` equality)*
    equality   → relational ((`==` | `!=`) relational)*
    relational → additive ((`<` | `>` | `<=` | `>=`) additive)*
    additive   → term ((`+` | `-`) term)*
    term       → atom ((`*` | `/`) atom)*
    atom       → number | column | `(` or `)` | `[` `]` | `[` or (`,` or)* `,`? `]`

This module knows nothing of the reader.
-/

set_option autoImplicit false

namespace ColumnRules

inductive Level where
  | or
  | and
  | equality
  | relational
  | additive
  | term
  | atom
  deriving DecidableEq

inductive Connective where
  | binary (op : BinaryOp)
  | logical (op : LogicalOp)

namespace Level

def tighter : Level → Level
  | or => and
  | and => equality
  | equality => relational
  | relational => additive
  | additive => term
  | term | atom => atom

end Level

namespace Connective

def symbol : Connective → Symbol
  | binary (.arith .add) => .add
  | binary (.arith .sub) => .sub
  | binary (.arith .mul) => .mul
  | binary (.arith .div) => .div
  | binary (.compare .le) => .le
  | binary (.compare .ge) => .ge
  | binary (.compare .lt) => .lt
  | binary (.compare .gt) => .gt
  | binary (.compare .eq) => .eq
  | binary (.compare .ne) => .ne
  | logical .and => .and
  | logical .or => .or

def level : Connective → Level
  | logical .or => .or
  | logical .and => .and
  | binary (.compare .eq) | binary (.compare .ne) => .equality
  | binary (.compare .lt) | binary (.compare .gt) | binary (.compare .le)
  | binary (.compare .ge) => .relational
  | binary (.arith .add) | binary (.arith .sub) => .additive
  | binary (.arith .mul) | binary (.arith .div) => .term

/-- A logical operator joins its two operands in a list. -/
def join : Connective → Expr → Expr → Expr
  | binary op, left, right => .binary left op right
  | logical op, left, right => .logical op [left, right]

end Connective

mutual

/-- The tokens are derived from a level. Parentheses leave no node. -/
inductive Derives : Level → List Token → Expr → Prop where
  | number (x : Binary64) : Derives .atom [.number x] (.literal x)
  | column (word : String) : Derives .atom [.column word] (.var word)
  | group {ts : List Token} {e : Expr} :
      Derives .or ts e → Derives .atom (.leftParen :: (ts ++ [.rightParen])) e
  | list {ts : List Token} {es : List Expr} :
      DerivesItems ts es → Derives .atom (.leftBracket :: ts) (.sequence es)
  | chain (c : Connective) {ls rs : List Token} {l r : Expr} :
      Derives c.level ls l → Derives c.level.tighter rs r →
      Derives c.level (ls ++ .symbol c.symbol :: rs) (c.join l r)
  | operand {level : Level} {ts : List Token} {e : Expr} :
      Derives level.tighter ts e → Derives level ts e

/-- The items of a list behind its opening bracket, the closing bracket included: none, one, or
one with a comma in front of further ones. With none behind it the comma is a trailing one. -/
inductive DerivesItems : List Token → List Expr → Prop where
  | none : DerivesItems [.rightBracket] []
  | one {ts : List Token} {e : Expr} :
      Derives .or ts e → DerivesItems (ts ++ [.rightBracket]) [e]
  | more {ts us : List Token} {e : Expr} {es : List Expr} :
      Derives .or ts e → DerivesItems us es → DerivesItems (ts ++ .comma :: us) (e :: es)

end

/-- The tokens are an expression with an optional semicolon behind it. -/
inductive DerivesStatement : List Token → Expr → Prop where
  | bare {ts : List Token} {e : Expr} : Derives .or ts e → DerivesStatement ts e
  | closed {ts : List Token} {e : Expr} :
      Derives .or ts e → DerivesStatement (ts ++ [.semicolon]) e

namespace Level

/-- The binding strength of a level's operators. Nothing binds as tightly as an atom. -/
def precedence : Level → Nat
  | or => 2
  | and => 3
  | equality => 7
  | relational => 8
  | additive => 10
  | term => 11
  | atom => 12

theorem le_atom (level : Level) : level.precedence ≤ atom.precedence := by
  cases level <;> decide

theorem or_le (level : Level) : or.precedence ≤ level.precedence := by
  cases level <;> decide

theorem precedence_le_tighter (level : Level) : level.precedence ≤ level.tighter.precedence := by
  cases level <;> decide

theorem eq_of_precedence {a b : Level} (h : a.precedence = b.precedence) : a = b := by
  revert h
  cases a <;> cases b <;> decide

/-- Between a level and the next tighter one there is none. -/
theorem tighter_le {loose level : Level} (h : loose.precedence < level.precedence) :
    loose.precedence < loose.tighter.precedence ∧
      loose.tighter.precedence ≤ level.precedence := by
  revert h
  cases loose <;> cases level <;> decide

/-- What holds at a tight level holds at every looser one, if it passes on from the operands. -/
theorem loosen {P : Level → Prop} (hP : ∀ level : Level, P level.tighter → P level)
    {loose level : Level} (h : P level) (hle : loose.precedence ≤ level.precedence) : P loose := by
  by_cases heq : loose.precedence = level.precedence
  · exact eq_of_precedence heq ▸ h
  · obtain ⟨hlt, htight⟩ := tighter_le (Nat.lt_of_le_of_ne hle heq)
    have hbound := loose.tighter.le_atom
    exact hP loose (loosen hP h htight)
termination_by atom.precedence - loose.precedence

end Level

namespace Connective

theorem precedence?_symbol (c : Connective) : c.symbol.precedence? = some c.level.precedence := by
  cases c with
  | binary op => cases op with | arith op | compare op => cases op <;> rfl
  | logical op => cases op <;> rfl

theorem symbol_ne_power (c : Connective) : c.symbol ≠ .power := by
  cases c with
  | binary op => cases op with | arith op | compare op => cases op <;> decide
  | logical op => cases op <;> decide

theorem precedence_lt_tighter (c : Connective) :
    c.level.precedence < c.level.tighter.precedence := by
  cases c with
  | binary op => cases op with | arith op | compare op => cases op <;> decide
  | logical op => cases op <;> decide

theorem precedence_le (c : Connective) : c.level.precedence ≤ 11 := by
  cases c with
  | binary op => cases op with | arith op | compare op => cases op <;> decide
  | logical op => cases op <;> decide

theorem isLogical_symbol (op : LogicalOp) : (logical op).symbol.isLogical = true := by
  cases op <;> rfl

theorem not_isLogical_symbol (op : BinaryOp) : (binary op).symbol.isLogical = false := by
  cases op with | arith op | compare op => cases op <;> rfl

theorem binary?_symbol (op : BinaryOp) : (binary op).symbol.binary? = some op := by
  cases op with | arith op | compare op => cases op <;> rfl

theorem logical?_symbol (op : LogicalOp) : (logical op).symbol.logical? = some op := by
  cases op <;> rfl

theorem symbol_of_binary? {op : Symbol} {b : BinaryOp} (h : op.binary? = some b) :
    (binary b).symbol = op := by
  cases op <;> cases h <;> rfl

theorem symbol_of_logical? {op : Symbol} {b : LogicalOp} (h : op.logical? = some b) :
    (logical b).symbol = op := by
  cases op <;> cases h <;> rfl

theorem text_symbol_binary (op : BinaryOp) : (binary op).symbol.text = op.symbol := by
  cases op with | arith op | compare op => cases op <;> rfl

theorem text_symbol_logical (op : LogicalOp) : (logical op).symbol.text = op.surface := by
  cases op <;> rfl

end Connective

end ColumnRules
