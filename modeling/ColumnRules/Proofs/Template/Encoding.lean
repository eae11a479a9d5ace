import ColumnRules.Proofs.Expr.Chain
import ColumnRules.Proofs.Template.Nodes
import ColumnRules.Template.Expression

/-!
# Templates of expressions

The template of an expression is decoded from its own JSON value again, and to replace its
placeholders by names is to replace the leaves of the expression.
-/

set_option autoImplicit false

namespace ColumnRules

/-- Every subscript is one of the base. -/
def Expr.subscriptsOf (base : String) : Expr.Demand where
  leaf
    | .subscript other _ => other = base
    | _ => True
  operands _ := True
  items _ := True

/-- A bound name is bound to itself. -/
def Bindings.IsIdentity (bindings : Bindings) : Prop :=
  ∀ name value, bindings.get? name = some value → value = .string name

namespace Template

theorem ofExprs_eq (es : List Expr) : ofExprs es = es.map ofExpr := by
  induction es with
  | nil => rfl
  | cons e es ih => rw [ofExprs, ih, List.map_cons]

/-- No object of an expression but a subscript has a base, so each is recognised as what it is. -/
theorem ofJson_toJson_ofExpr {base : String} {e : Expr} (h : e.Meets (Expr.subscriptsOf base)) :
    ofJson base (ofExpr e).toJson = ofExpr e := by
  have hall : ∀ es : List Expr, (∀ e ∈ es, ofJson base (ofExpr e).toJson = ofExpr e) →
      ofItems base (toItems (ofExprs es)) = ofExprs es := by
    intro es h
    induction es with
    | nil => rfl
    | cons e es ih =>
      rw [ofExprs, toItems, ofItems, h e List.mem_cons_self,
        ih fun x hx => h x (List.mem_cons_of_mem _ hx)]
  induction e using Expr.induction with
  | literal x =>
    rw [ofExpr, toJson]
    split <;> rfl
  | var name => rfl
  | subscript other index =>
    obtain rfl : other = base := h
    exact ofJson_toJson_subscript other index
  | binary left op right ihl ihr =>
    -- No field is named `base`.
    have hnone : subscriptIndex? base (toFields [("left", ofExpr left), ("op", text op.symbol),
        ("right", ofExpr right)]) = none := rfl
    rw [ofExpr, toJson, ofJson, hnone]
    simp only [toFields, ofFields, ihl h.1, ihr h.2]
    rfl
  | logical op operands ih =>
    have hmeet := Expr.allMeet_iff.mp h.2
    have hnone : subscriptIndex? base (toFields [("op", text op.name),
        ("values", sequence (ofExprs operands))]) = none := rfl
    rw [ofExpr, toJson, ofJson, hnone]
    simp only [toFields, ofFields, toJson, ofJson, hall operands fun e he => ih e he (hmeet e he)]
  | sequence items ih =>
    have hmeet := Expr.allMeet_iff.mp h.2
    rw [ofExpr, toJson, ofJson, hall items fun e he => ih e he (hmeet e he)]

section Identity

variable {bindings : Bindings} (h : bindings.IsIdentity)
include h

theorem substitute_text (name : String) : (text name).substitute bindings = text name := by
  rw [substitute]
  split
  · rename_i value hbound
    rw [h name value hbound, ofData]
  · rfl

theorem resolveLeaf_var (name : String) :
    Expr.resolveLeaf bindings (.var name) = .var name := by
  rw [Expr.resolveLeaf]
  cases hbound : bindings.get? name with
  | some value => rw [h name value hbound, Expr.orShown, Expr.ofShown_string]
  | none => rfl

theorem substitute_subscript (base index : String) : (subscript base index).substitute bindings =
    ofExpr (Expr.resolveLeaf bindings (.subscript base index)) := by
  rw [substitute, Expr.resolveLeaf]
  cases hbound : bindings.get? index with
  | some value =>
    rw [h index value hbound, Expr.orShown, Expr.ofShown_string]
    rfl
  | none => rfl

/-- The operators of an expression may be bound names too, but only to themselves. -/
theorem substitute_ofExpr (e : Expr) :
    (ofExpr e).substitute bindings = ofExpr (e.resolve bindings) := by
  have hall : ∀ es : List Expr, (∀ e ∈ es, (ofExpr e).substitute bindings =
      ofExpr (e.mapLeaves (Expr.resolveLeaf bindings))) →
      (sequence (ofExprs es)).substitute bindings =
        sequence (ofExprs (Expr.mapAllLeaves (Expr.resolveLeaf bindings) es)) := by
    intro es h
    rw [substitute, substituteItems_eq, ofExprs_eq, ofExprs_eq, Expr.mapAllLeaves_eq,
      List.map_map, List.map_map]
    exact congrArg sequence (List.map_congr_left h)
  unfold Expr.resolve
  induction e using Expr.induction with
  | literal x => rfl
  | var name =>
    simp only [Expr.mapLeaves, resolveLeaf_var h]
    exact substitute_text h name
  | subscript base index => exact substitute_subscript h base index
  | binary left op right ihl ihr =>
    simp only [ofExpr, Expr.mapLeaves]
    rw [substitute, substituteFields_eq]
    simp only [List.map_cons, List.map_nil, substitute_text h, ihl, ihr]
  | logical op operands ih =>
    simp only [ofExpr, Expr.mapLeaves]
    rw [substitute, substituteFields_eq]
    simp only [List.map_cons, List.map_nil, substitute_text h, hall operands ih]
  | sequence items ih =>
    simp only [ofExpr, Expr.mapLeaves]
    exact hall items ih

end Identity

end Template

end ColumnRules
