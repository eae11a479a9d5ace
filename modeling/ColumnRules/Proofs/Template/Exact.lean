import ColumnRules.Proofs.ColumnSet
import ColumnRules.Proofs.Expr.Chain
import ColumnRules.Proofs.Template.Fields
import ColumnRules.Proofs.Template.Nodes
import ColumnRules.Template.Expression

/-!
# Templates without foreign fields

The fields of an object may come in any order, but an object of an exact template has no fields
but those of its node. Then the template and its expression dereference the same columns.
-/

set_option autoImplicit false

namespace ColumnRules.Template

/-- The fields have these names, in any order. -/
def HasFields (names : List String) (fields : List (String × Template)) : Prop :=
  (fields.map Prod.fst).Perm names

mutual

/-- Every object has exactly the fields of a binary or those of a logical node. -/
def Exact : Template → Prop
  | sequence items => ExactItems items
  | object fields =>
    (HasFields ["left", "op", "right"] fields ∨ HasFields ["op", "values"] fields) ∧
      ExactFields fields
  | _ => True

def ExactItems : List Template → Prop
  | [] => True
  | t :: ts => t.Exact ∧ ExactItems ts

def ExactFields : List (String × Template) → Prop
  | [] => True
  | (_, t) :: fields => t.Exact ∧ ExactFields fields

end

theorem exactFields_iff {fields : List (String × Template)} :
    ExactFields fields ↔ ∀ f ∈ fields, f.2.Exact := by
  induction fields with
  | nil => simp [ExactFields]
  | cons f fields ih => simp [ExactFields, ih]

theorem mem_fieldIndexLists {bindings : Bindings} {fields : List (String × Template)} {x : String} :
    x ∈ fieldIndexLists bindings fields ↔ ∃ f ∈ fields, x ∈ f.2.indexList bindings := by
  induction fields with
  | nil => simp [fieldIndexLists]
  | cons f fields ih => simp [fieldIndexLists, ih]

theorem fieldExpr?_eq (name : String) (fields : List (String × Template)) :
    fieldExpr? name fields = (field? name fields).map toExpr := by
  induction fields with
  | nil => rfl
  | cons f fields ih =>
    simp only [fieldExpr?, field?, List.find?_cons, ih]
    cases f.1 == name <;> rfl

theorem fieldExprs?_eq (name : String) (fields : List (String × Template)) :
    fieldExprs? name fields = (field? name fields).bind listExprs? := by
  induction fields with
  | nil => rfl
  | cons f fields ih =>
    simp only [fieldExprs?, field?, List.find?_cons, ih]
    cases f.1 == name <;> rfl

theorem mem_of_field? {name : String} {fields : List (String × Template)} {t : Template}
    (h : field? name fields = some t) : (name, t) ∈ fields := mem_of_find?_name h

namespace HasFields

variable {names : List String} {fields : List (String × Template)} (h : HasFields names fields)
include h

theorem mem_of_field? {name : String} {t : Template} (hfield : field? name fields = some t) :
    name ∈ names :=
  h.mem_iff.mp (List.mem_map_of_mem (Template.mem_of_field? hfield))

/-- The columns of an object are those of its fields by name. -/
theorem mem_fieldIndexLists (hnodup : names.Nodup) {bindings : Bindings} {x : String} :
    x ∈ fieldIndexLists bindings fields ↔
      ∃ name ∈ names, ∃ t, field? name fields = some t ∧ x ∈ t.indexList bindings := by
  rw [Template.mem_fieldIndexLists]
  constructor
  · rintro ⟨⟨name, t⟩, hf, hx⟩
    exact ⟨name, h.mem_iff.mp (List.mem_map_of_mem hf), t,
      (find?_name_eq_some (h.nodup_iff.mpr hnodup)).mpr hf, hx⟩
  · rintro ⟨name, -, t, ht, hx⟩
    exact ⟨_, Template.mem_of_field? ht, hx⟩

end HasFields

theorem toExpr_sequence {items : List Template} {es : List Expr} :
    (sequence items).toExpr = .ok (.sequence es) ↔ toExprs items = .ok es := by
  rw [toExpr]
  split <;> simp_all

/-- What an object writes: a binary node of its fields `left` and `right`, and if one of them is
missing a logical node of the list in its field `values`. -/
inductive Writes (fields : List (String × Template)) : Expr → Prop where
  | binary {spelling : String} {op : BinaryOp} {left right : Template} {l r : Expr} :
      field? "op" fields = some (text spelling) → BinaryOp.ofSymbol spelling = .ok op →
      field? "left" fields = some left → field? "right" fields = some right →
      left.toExpr = .ok l → right.toExpr = .ok r → Writes fields (.binary l op r)
  | logical {spelling : String} {op : LogicalOp} {items : List Template} {es : List Expr} :
      field? "op" fields = some (text spelling) → LogicalOp.ofTemplate spelling = .ok op →
      field? "left" fields = none ∨ field? "right" fields = none →
      field? "values" fields = some (sequence items) → toExprs items = .ok es →
      Writes fields (.logical op es)

theorem operator?_eq_some {fields : List (String × Template)} {spelling : String} :
    operator? fields = some spelling ↔ field? "op" fields = some (text spelling) := by
  unfold operator?
  split <;> simp_all

theorem listExprs?_eq_some {t : Template} {r : Except TemplateError (List Expr)} :
    listExprs? t = some r ↔ ∃ items, t = sequence items ∧ toExprs items = r := by
  unfold listExprs?
  split <;> simp_all

theorem writes_of_toExpr {fields : List (String × Template)} {e : Expr}
    (h : (object fields).toExpr = .ok e) : Writes fields e := by
  rw [toExpr] at h
  split at h
  · cases h
  rename_i spelling hspelling
  have hop := operator?_eq_some.mp hspelling
  split at h
  · rename_i lexpr rexpr hl hr
    rw [fieldExpr?_eq] at hl hr
    obtain ⟨left, hleft, rfl⟩ := Option.map_eq_some_iff.mp hl
    obtain ⟨right, hright, rfl⟩ := Option.map_eq_some_iff.mp hr
    split at h
    · cases h
    · cases h
    · cases h
    · rename_i hsymbol hl hr
      cases h
      exact .binary hop hsymbol hleft hright hl hr
  · rename_i hmissing
    have hmissing' : field? "left" fields = none ∨ field? "right" fields = none := by
      cases hleft : field? "left" fields with
      | none => exact .inl rfl
      | some left =>
        cases hright : field? "right" fields with
        | none => exact .inr rfl
        | some right =>
          rw [fieldExpr?_eq, fieldExpr?_eq, hleft, hright] at hmissing
          exact absurd rfl (hmissing _ _ rfl)
    split at h
    · rename_i operands hvalues
      rw [fieldExprs?_eq] at hvalues
      obtain ⟨values, hfield, hlist⟩ := Option.bind_eq_some_iff.mp hvalues
      obtain ⟨items, rfl, hitems⟩ := listExprs?_eq_some.mp hlist
      split at h
      · cases h
      · cases h
      · rename_i hname
        cases h
        exact .logical hop hname hmissing' hfield hitems
    · cases h

theorem Writes.toExpr {fields : List (String × Template)} {e : Expr} (h : Writes fields e) :
    (object fields).toExpr = .ok e := by
  cases h with
  | binary hop hsymbol hleft hright hl hr =>
    simp only [Template.toExpr, operator?_eq_some.mpr hop, fieldExpr?_eq, hleft, hright,
      Option.map_some, hsymbol, hl, hr]
  | logical hop hname hmissing hvalues hitems =>
    simp only [Template.toExpr, operator?_eq_some.mpr hop, fieldExpr?_eq, fieldExprs?_eq, hvalues,
      Option.bind_some, listExprs?, hitems, hname]
    rcases hmissing with hleft | hright
    · rw [hleft]
      rfl
    · rw [hright]
      cases field? "left" fields <;> rfl

/-- Only subscripts stand for columns: they are bound to texts, and names to numbers. -/
def SubscriptsOnly (bindings : Bindings) : Expr → Prop
  | .var name => ∃ value x, bindings.get? name = some value ∧ value.toBinary64? = some x
  | .subscript _ index => ∃ word, bindings.get? index = some (.string word)
  | _ => True

/-- The name is a column of the template just if its resolved expression names it. -/
def Agrees (bindings : Bindings) (x : String) (t : Template) : Prop :=
  ∀ {e : Expr}, t.Exact → t.toExpr = .ok e →
    e.Meets ⟨SubscriptsOnly bindings, fun _ => True, fun _ => True⟩ →
    (x ∈ t.indexList bindings ↔ x ∈ (e.resolve bindings).varList)

namespace Agrees

variable {bindings : Bindings} {x : String}

theorem sequence {items : List Template} (h : ∀ t ∈ items, Agrees bindings x t) :
    Agrees bindings x (.sequence items) := by
  have hitems : ∀ es : List Expr, ExactItems items → toExprs items = .ok es →
      Expr.AllMeet ⟨SubscriptsOnly bindings, fun _ => True, fun _ => True⟩ es →
      (x ∈ indexLists bindings items ↔
        x ∈ Expr.varLists (Expr.mapAllLeaves (Expr.resolveLeaf bindings) es)) := by
    induction items with
    | nil =>
      intro es _ hes _
      cases hes
      exact Iff.rfl
    | cons t ts ih =>
      intro es hexact hes hleaves
      rw [toExprs] at hes
      split at hes
      · cases hes
      · cases hes
      · rename_i e es ht hts
        cases hes
        have hfirst := h t List.mem_cons_self hexact.1 ht hleaves.1
        have hrest := ih (fun t ht => h t (List.mem_cons_of_mem _ ht)) es hexact.2 hts hleaves.2
        rw [indexLists, Expr.mapAllLeaves, Expr.varLists, List.mem_append, List.mem_append, hrest,
          hfirst]
        rfl
  intro e hexact he hleaves
  rw [toExpr] at he
  split at he
  · cases he
  · rename_i es hes
    cases he
    exact hitems es hexact hes hleaves.2

theorem object {fields : List (String × Template)} (h : ∀ f ∈ fields, Agrees bindings x f.2) :
    Agrees bindings x (.object fields) := by
  intro e hexact he hleaves
  obtain ⟨hfields, hexact⟩ := hexact
  rw [exactFields_iff] at hexact
  have hfield : ∀ {name t}, field? name fields = some t → t.Exact ∧ Agrees bindings x t := by
    intro name t ht
    exact ⟨hexact _ (mem_of_field? ht), h _ (mem_of_field? ht)⟩
  cases writes_of_toExpr he with
  | binary hop _ hleft hright hl hr =>
    have hbinary : HasFields ["left", "op", "right"] fields :=
      hfields.resolve_right fun h => absurd (h.mem_of_field? hleft) (by decide)
    have hl' := (hfield hleft).2 (hfield hleft).1 hl hleaves.1
    have hr' := (hfield hright).2 (hfield hright).1 hr hleaves.2
    rw [indexList, hbinary.mem_fieldIndexLists (by decide), Expr.resolve, Expr.mapLeaves,
      Expr.varList, List.mem_append]
    simp only [List.mem_cons, List.not_mem_nil, or_false, exists_eq_or_imp, exists_eq_left, hop,
      hleft, hright, Option.some.injEq, exists_eq_left', indexList, false_or, hl', hr',
      Expr.resolve]
  | logical hop _ _ hvalues hes =>
    have hlogical : HasFields ["op", "values"] fields :=
      hfields.resolve_left fun h => absurd (h.mem_of_field? hvalues) (by decide)
    have hsequence := toExpr_sequence.mpr hes
    have hvalues' := (hfield hvalues).2 (hfield hvalues).1 hsequence ⟨trivial, hleaves.2⟩
    rw [indexList, hlogical.mem_fieldIndexLists (by decide)]
    simp only [List.mem_cons, List.not_mem_nil, or_false, exists_eq_or_imp, exists_eq_left, hop,
      hvalues, Option.some.injEq, exists_eq_left', indexList, false_or]
    rw [indexList] at hvalues'
    exact hvalues'

end Agrees

theorem agrees (bindings : Bindings) (x : String) (t : Template) : Agrees bindings x t := by
  induction t using Template.induction with
  | subscript base index =>
    intro e _ he hleaves
    cases he
    obtain ⟨word, hbound⟩ := hleaves
    simp only [indexList, Expr.resolve, Expr.mapLeaves, Expr.resolveLeaf, Expr.orShown, hbound,
      Expr.ofShown_string, Expr.varList, Json.display, Json.displayText, String.ofList_toList]
  | text name =>
    intro e _ he hleaves
    cases he
    obtain ⟨value, y, hbound, hvalue⟩ := hleaves
    simp only [indexList, Expr.resolve, Expr.mapLeaves, Expr.resolveLeaf, Expr.orShown, hbound,
      Expr.ofShown, hvalue, Expr.varList]
  | scalar value =>
    intro e _ he _
    rw [toExpr] at he
    split at he
    · cases he
      simp only [indexList, Expr.resolve, Expr.mapLeaves, Expr.resolveLeaf, Expr.varList]
    · cases he
  | sequence items ih => exact Agrees.sequence ih
  | object fields ih => exact Agrees.object ih

/-- A template dereferences the columns that its expression names once it is resolved. -/
theorem indices_eq {bindings : Bindings} {t : Template} {e : Expr} (hexact : t.Exact)
    (he : t.toExpr = .ok e)
    (hleaves : e.Meets ⟨SubscriptsOnly bindings, fun _ => True, fun _ => True⟩) :
    t.indices bindings = (e.resolve bindings).varNames := by
  apply ColumnSet.ext_mem
  intro x
  have hmem := agrees bindings x t hexact he hleaves
  exact ColumnSet.mem_ofList.trans (hmem.trans ColumnSet.mem_ofList.symm)

theorem toExpr_binaryFields (op : BinaryOp) (left right : Template) :
    (object [("left", left), ("op", text op.symbol), ("right", right)]).toExpr =
      match left.toExpr, right.toExpr with
      | .error e, _ => .error e
      | .ok _, .error e => .error e
      | .ok l, .ok r => .ok (.binary l op r) := by
  have hsymbol : BinaryOp.ofSymbol op.symbol = .ok op := by simp [BinaryOp.ofSymbol]
  have hop : operator? [("left", left), ("op", text op.symbol), ("right", right)] =
      some op.symbol := by simp [operator?, field?]
  rw [toExpr, hop]
  simp only [fieldExpr?, hsymbol, beq_self_eq_true, if_true, String.reduceBEq, Bool.false_eq_true,
    if_false]
  cases left.toExpr <;> cases right.toExpr <;> rfl

theorem toExpr_logicalFields (op : LogicalOp) (items : List Template) :
    (object [("op", text op.name), ("values", sequence items)]).toExpr =
      match toExprs items with
      | .error e => .error e
      | .ok es => .ok (.logical op es) := by
  have hname : LogicalOp.ofTemplate op.name = .ok op := by cases op <;> rfl
  have hop : operator? [("op", text op.name), ("values", sequence items)] = some op.name := by
    simp [operator?, field?]
  rw [toExpr, hop]
  simp only [fieldExpr?, fieldExprs?, listExprs?, hname, beq_self_eq_true, if_true,
    String.reduceBEq, Bool.false_eq_true, if_false]
  cases toExprs items <;> rfl

/-- What an expression is sent as writes the expression again, as long as JSON has its numbers. -/
theorem toExpr_ofExpr {e : Expr} (h : e.Meets Expr.finiteLiterals) :
    (ofExpr e).toExpr = .ok e := by
  have hall : ∀ es : List Expr, (∀ e ∈ es, (ofExpr e).toExpr = .ok e) →
      toExprs (ofExprs es) = .ok es := by
    intro es h
    induction es with
    | nil => rfl
    | cons e es ih =>
      rw [ofExprs, toExprs, h e List.mem_cons_self, ih fun x hx => h x (List.mem_cons_of_mem _ hx)]
  induction e using Expr.induction with
  | literal x =>
    have hx : x.isFinite = true := h
    simp only [ofExpr, hx, if_true, toExpr, Json.toBinary64?]
  | var | subscript => rfl
  | binary left op right ihl ihr =>
    rw [ofExpr, toExpr_binaryFields, ihl h.1, ihr h.2]
  | logical op operands ih =>
    have hmeet := Expr.allMeet_iff.mp h.2
    have hoperands := hall operands fun e he => ih e he (hmeet e he)
    rw [ofExpr, toExpr_logicalFields, hoperands]
  | sequence items ih =>
    have hmeet := Expr.allMeet_iff.mp h.2
    rw [ofExpr, toExpr, hall items fun e he => ih e he (hmeet e he)]

end ColumnRules.Template
