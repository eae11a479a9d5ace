import ColumnRules.Grouping
import ColumnRules.Parse
import ColumnRules.Template.Expression

/-!
# Generated rules

A rule is a condition template with the bindings of its placeholders, belief masses per class and
a label. An edited rule binds every column that its text names to itself, and so keeps its columns
and its group.
-/

set_option autoImplicit false

namespace ColumnRules

structure Rule where
  condition : Template
  bindings : Bindings
  mass : List Binary64
  label : Option String

namespace Rule

def concrete (rule : Rule) : Template := rule.condition.substitute rule.bindings

def expression (rule : Rule) : Except TemplateError Expr := rule.condition.toExpr

/-- The rule as it is shown, and as it may be edited. -/
def displayText (rule : Rule) : Except TemplateError String :=
  match rule.expression with
  | .error e => .error e
  | .ok e => .ok (e.render rule.bindings)

/-- The columns that the condition dereferences. -/
def indices (rule : Rule) : ColumnSet := rule.condition.indices rule.bindings

def groupKey (rule : Rule) (separator : String) : Option String := rule.indices.groupKey separator

/-- The rule with another condition, given as text. Masses and label are kept. -/
def withText (rule : Rule) (text : String) (columns : List String) (base : String) :
    Except ParseError Rule :=
  match parse text columns with
  | .error e => .error e
  | .ok e => .ok { rule with
      condition := .ofExpr (e.subscriptColumns base)
      bindings := .identity e.varNames.names }

def bind (rule : Rule) (bindings : Bindings) : Rule :=
  { rule with bindings := rule.bindings.merge bindings }

def unbind (rule : Rule) (name : String) : Rule :=
  { rule with bindings := rule.bindings.erase name }

/-- Makes the concrete condition the condition. -/
def settle (rule : Rule) : Rule := { rule with condition := rule.concrete }

end Rule

end ColumnRules
