import ColumnRules.Proofs.Number.Whole
import ColumnRules.Proofs.Template.Exact
import ColumnRules.Rule

/-!
# Substituting and showing

A template with its placeholders replaced writes the expression of the template with its leaves
replaced. The leaf that a bound value becomes is shown by the text that the value itself is shown
by, so it makes no difference whether names are bound before the expression is read or while it is
shown.
-/

set_option autoImplicit false

namespace ColumnRules

/-- Strings and the numbers that are 64-bit values: the values that become leaves. -/
def Json.IsLeaf : Json → Prop
  | string _ => True
  | int n => n.natAbs ≤ pow2 53
  | float _ => True
  | _ => False

namespace Bindings

def BindsLeaves (bindings : Bindings) : Prop :=
  ∀ name value, bindings.get? name = some value → value.IsLeaf

/-- No string that is bound to a name is a bound name itself. -/
def IsFlat (bindings : Bindings) : Prop :=
  ∀ name word, bindings.get? name = some (.string word) → bindings.get? word = none

end Bindings

namespace Expr

theorem resolve_var (bindings : Bindings) (name : String) :
    (var name).resolve bindings = orShown (bindings.get? name) (var name) := rfl

theorem resolve_subscript (bindings : Bindings) (base index : String) :
    (subscript base index).resolve bindings =
      orShown (bindings.get? index) (subscript base index) := rfl

/-- A bound value is shown as the leaf that it becomes. -/
theorem nestedText_ofShown {value : Json} (h : value.IsLeaf) {bindings : Bindings}
    (hfree : ∀ word, value = .string word → bindings.get? word = none) :
    (ofShown value).nestedText bindings = value.displayText := by
  cases value with
  | string word =>
    rw [ofShown_string, nestedText, nameText, hfree word rfl]
    rfl
  | int n => exact Binary64.ruleText_ofInt h
  | float x => rfl
  | null | bool | array | object => exact h.elim

/-- The text of a leaf under some bindings is the text of the replaced leaf under others, as long as
those bind neither a name that was free nor a word that was put in. -/
theorem nestedText_resolveLeaf {bindings others : Bindings} (hvalues : bindings.BindsLeaves)
    (hfree : ∀ name, bindings.get? name = none → others.get? name = none)
    (hwords : ∀ name word, bindings.get? name = some (.string word) → others.get? word = none)
    {leaf : Expr} (hleaf : leaf.isLeaf = true) :
    (resolveLeaf bindings leaf).nestedText others = leaf.nestedText bindings := by
  cases leaf with
  | literal x => rfl
  | var name =>
    rw [resolveLeaf, nestedText, nameText]
    cases hbound : bindings.get? name with
    | some value =>
      apply nestedText_ofShown (hvalues name value hbound)
      rintro word rfl
      exact hwords name word hbound
    | none => rw [orShown, nestedText, nameText, hfree name hbound]
  | subscript base index =>
    rw [resolveLeaf, nestedText, subscriptText]
    cases hbound : bindings.get? index with
    | some value =>
      apply nestedText_ofShown (hvalues index value hbound)
      rintro word rfl
      exact hwords index word hbound
    | none => rw [orShown, nestedText, subscriptText, hfree index hbound]
  | binary | logical | sequence => cases hleaf

theorem joinedText_cons (bindings : Bindings) (symbol : String) (e e' : Expr) (es : List Expr) :
    joinedText bindings symbol (e :: e' :: es) =
      e.nestedText bindings ++ (spaced symbol ++ joinedText bindings symbol (e' :: es)) := rfl

theorem ruleText_of_isLeaf {e : Expr} (h : e.isLeaf = true) (bindings : Bindings) :
    e.ruleText bindings = e.nestedText bindings := by
  cases e with
  | literal | var | subscript => rfl
  | binary | logical | sequence => cases h

section MapLeaves

variable {bindings others : Bindings} {f : Expr → Expr}

theorem joinedText_mapLeaves (symbol : String) {es : List Expr}
    (h : ∀ e ∈ es, (e.mapLeaves f).nestedText others = e.nestedText bindings) :
    joinedText others symbol (mapAllLeaves f es) = joinedText bindings symbol es := by
  induction es with
  | nil => rfl
  | cons e es ih =>
    have hfirst := h e List.mem_cons_self
    have hrest := ih fun x hx => h x (List.mem_cons_of_mem _ hx)
    cases es with
    | nil => exact hfirst
    | cons e' es =>
      rw [mapAllLeaves] at hrest
      rw [mapAllLeaves, mapAllLeaves, joinedText_cons, joinedText_cons, hfirst, hrest]

variable (hleaf : ∀ leaf : Expr, leaf.isLeaf = true →
  (f leaf).nestedText others = leaf.nestedText bindings)
include hleaf

theorem nestedText_mapLeaves (e : Expr) :
    (e.mapLeaves f).nestedText others = e.nestedText bindings := by
  induction e using Expr.induction_cons with
  | literal | var | subscript => exact hleaf _ rfl
  | binary left op right ihl ihr => simp only [mapLeaves, nestedText, ihl, ihr]
  | none | empty => rfl
  | logical op e es ih =>
    simp only [mapLeaves, nestedText, joinedText_mapLeaves op.surface ih]
  | sequence e es ih =>
    have hjoined := joinedText_mapLeaves "&&" ih
    rw [mapAllLeaves] at hjoined
    simp only [mapLeaves, mapAllLeaves, nestedText, hjoined]

theorem render_mapLeaves (hf : KeepsLeaves f) (e : Expr) :
    (e.mapLeaves f).render others = e.render bindings := by
  have hnested := nestedText_mapLeaves hleaf e
  have hrule : (e.mapLeaves f).ruleText others = e.ruleText bindings := by
    cases e with
    | sequence items =>
      exact joinedText_mapLeaves "&&" fun e _ => nestedText_mapLeaves hleaf e
    | binary | logical => exact hnested
    | literal | var | subscript =>
      refine (ruleText_of_isLeaf ?_ others).trans hnested
      exact hf _ rfl
  rw [render, hrule, render]

end MapLeaves

/-- Without bindings an expression whose names are replaced is shown as under them. -/
theorem render_resolve {bindings : Bindings} (h : bindings.BindsLeaves) (e : Expr) :
    (e.resolve bindings).render .empty = e.render bindings := by
  apply render_mapLeaves _ (keepsLeaves_resolveLeaf bindings)
  intro leaf hleaf
  exact nestedText_resolveLeaf h (fun _ _ => rfl) (fun _ _ _ => rfl) hleaf

end Expr

namespace Template

/-- The operators of the objects of a template are not bound, so they stay. -/
def KeepsOperators (t : Template) (bindings : Bindings) : Prop :=
  ∀ fields op, object fields ∈ t.nodes → ("op", text op) ∈ fields → bindings.get? op = none

theorem KeepsOperators.item {items : List Template} {bindings : Bindings}
    (h : (sequence items).KeepsOperators bindings) {t : Template} (ht : t ∈ items) :
    t.KeepsOperators bindings :=
  fun fields op hnode => h fields op (mem_nodes_item ht hnode)

theorem KeepsOperators.field {fields : List (String × Template)} {bindings : Bindings}
    (h : (object fields).KeepsOperators bindings) {f : String × Template} (hf : f ∈ fields) :
    f.2.KeepsOperators bindings :=
  fun others op hnode => h others op (mem_nodes_field hf hnode)

theorem field?_substituteFields (bindings : Bindings) (name : String)
    (fields : List (String × Template)) :
    field? name (substituteFields bindings fields) =
      (field? name fields).map (substitute bindings) := by
  rw [substituteFields_eq, field?, field?, List.find?_map, Option.map_map, Option.map_map]
  rfl

/-- What is bound writes the leaf that it becomes. -/
theorem toExpr_ofData {value : Json} (h : value.IsLeaf) :
    (ofData value).toExpr = .ok (Expr.ofShown value) := by
  cases value with
  | string word => rw [Expr.ofShown_string, ofData, toExpr]
  | int | float => rfl
  | null | bool | array | object => exact h.elim

section Substitute

variable {bindings : Bindings} (hvalues : bindings.BindsLeaves)

/-- Replacing the placeholders of a template replaces the leaves of its expression. -/
def Resolves (bindings : Bindings) (t : Template) : Prop :=
  ∀ {e : Expr}, t.toExpr = .ok e → (t.substitute bindings).toExpr = .ok (e.resolve bindings)

theorem Resolves.items {items : List Template} (h : ∀ t ∈ items, Resolves bindings t)
    {es : List Expr} (hes : toExprs items = .ok es) :
    toExprs (substituteItems bindings items) =
      .ok (Expr.mapAllLeaves (Expr.resolveLeaf bindings) es) := by
  induction items generalizing es with
  | nil =>
    cases hes
    rfl
  | cons t ts ih =>
    rw [toExprs] at hes
    split at hes
    · cases hes
    · cases hes
    · rename_i e es he hes'
      cases hes
      rw [substituteItems, toExprs, h t List.mem_cons_self he,
        ih (fun t ht => h t (List.mem_cons_of_mem _ ht)) hes']
      rfl

theorem Writes.substitute {fields : List (String × Template)} {e : Expr} (h : Writes fields e)
    (hop : ∀ op, ("op", text op) ∈ fields → bindings.get? op = none)
    (hfields : ∀ f ∈ fields, Resolves bindings f.2) :
    Writes (substituteFields bindings fields) (e.resolve bindings) := by
  have hfield {name : String} {t : Template} (ht : field? name fields = some t) :
      field? name (substituteFields bindings fields) = some (t.substitute bindings) := by
    rw [field?_substituteFields, ht]
    rfl
  have hmissing {name : String} (hnone : field? name fields = none) :
      field? name (substituteFields bindings fields) = none := by
    rw [field?_substituteFields, hnone]
    rfl
  have hspelling {spelling : String} (hs : field? "op" fields = some (text spelling)) :
      field? "op" (substituteFields bindings fields) = some (text spelling) := by
    rw [hfield hs, Template.substitute, hop spelling (mem_of_field? hs)]
  cases h with
  | binary hs hsymbol hleft hright hl hr =>
    exact .binary (hspelling hs) hsymbol (hfield hleft) (hfield hright)
      (hfields _ (mem_of_field? hleft) hl) (hfields _ (mem_of_field? hright) hr)
  | logical hs hname habsent hitems hes =>
    have hresolved := hfields _ (mem_of_field? hitems) (toExpr_sequence.mpr hes)
    exact .logical (hspelling hs) hname (habsent.imp hmissing hmissing) (hfield hitems)
      (toExpr_sequence.mp hresolved)

include hvalues in
theorem resolves (t : Template) (hops : t.KeepsOperators bindings) : Resolves bindings t := by
  induction t using Template.induction with
  | subscript base index =>
    intro e he
    cases he
    rw [Template.substitute, Expr.resolve_subscript]
    cases hbound : bindings.get? index with
    | some value => exact toExpr_ofData (hvalues index value hbound)
    | none => rfl
  | text name =>
    intro e he
    cases he
    rw [Template.substitute, Expr.resolve_var]
    cases hbound : bindings.get? name with
    | some value => exact toExpr_ofData (hvalues name value hbound)
    | none => rfl
  | scalar value =>
    intro e he
    have hliteral : ∃ x, e = .literal x := by
      rw [toExpr] at he
      split at he
      · cases he
        exact ⟨_, rfl⟩
      · cases he
    obtain ⟨x, rfl⟩ := hliteral
    exact he
  | sequence items ih =>
    intro e he
    rw [toExpr] at he
    split at he
    · cases he
    · rename_i es hes
      cases he
      rw [Template.substitute]
      exact toExpr_sequence.mpr (Resolves.items (fun t ht => ih t ht (hops.item ht)) hes)
  | object fields ih =>
    intro e he
    have hwrites := writes_of_toExpr he
    rw [Template.substitute]
    apply Writes.toExpr
    apply hwrites.substitute
    · intro op hop
      exact hops fields op (mem_nodes_self _) hop
    · intro f hf
      exact ih f hf (hops.field hf)

end Substitute

/-- An expression is shown the same whether names are bound in the template or while it is shown.
Bound again it stays the same if no bound string is a bound name, so a rule made concrete is shown
as before. -/
theorem render_substitute {t : Template} {e : Expr} {bindings : Bindings} (he : t.toExpr = .ok e)
    (hvalues : bindings.BindsLeaves) (hops : t.KeepsOperators bindings) :
    ∃ e', (t.substitute bindings).toExpr = .ok e' ∧ e'.render .empty = e.render bindings ∧
      (bindings.IsFlat → e'.render bindings = e.render bindings ∧
        ∀ mass label, (Rule.settle ⟨t, bindings, mass, label⟩).displayText =
          Rule.displayText ⟨t, bindings, mass, label⟩) := by
  have hresolved := resolves hvalues t hops he
  have hleaves := Expr.keepsLeaves_resolveLeaf bindings
  refine ⟨e.resolve bindings, hresolved, ?_, ?_⟩
  · apply Expr.render_mapLeaves _ hleaves
    intro leaf hleaf
    exact Expr.nestedText_resolveLeaf hvalues (fun _ _ => rfl) (fun _ _ _ => rfl) hleaf
  · intro hflat
    have hrender : (e.resolve bindings).render bindings = e.render bindings := by
      apply Expr.render_mapLeaves _ hleaves
      intro leaf hleaf
      exact Expr.nestedText_resolveLeaf hvalues (fun _ hfree => hfree) hflat hleaf
    refine ⟨hrender, ?_⟩
    intro mass label
    simp only [Rule.displayText, Rule.expression, Rule.settle, Rule.concrete, hresolved, he,
      hrender]

theorem render_substitute_large :
    let t : Template := object [("values", sequence [object [("right", text "t"),
      ("op", text ">="), ("left", subscript "x" "i")], text "free", subscript "x" "j"]),
      ("op", text "and")]
    let bindings : Bindings := (Dictionary.empty.insert "i" (.string "income")).insert "t"
      (.int 9007199254740992)
    ∃ e e', t.toExpr = .ok e ∧ (t.substitute bindings).toExpr = .ok e' ∧
      e.render bindings = "((income >= 9007199254740992) && free && x[j])" ∧
      e'.render .empty = e.render bindings ∧ e'.render bindings = e.render bindings ∧
      ∀ mass label, (Rule.settle ⟨t, bindings, mass, label⟩).displayText =
        Rule.displayText ⟨t, bindings, mass, label⟩ := by
  intro t bindings
  have hget (name : String) : bindings.get? name =
      if "t" = name then some (.int 9007199254740992)
      else if "i" = name then some (.string "income") else none := by
    simp only [bindings, Dictionary.get?_insert, Dictionary.get?_empty]
  have hvalues : bindings.BindsLeaves := by
    intro name value hbound
    rw [hget] at hbound
    split at hbound
    · cases hbound
      exact Nat.le_refl (pow2 53)
    split at hbound
    · cases hbound
      trivial
    · cases hbound
  have hflat : bindings.IsFlat := by
    intro name word hbound
    rw [hget] at hbound ⊢
    split at hbound
    · cases hbound
    split at hbound
    · cases hbound
      rfl
    · cases hbound
  have hops : t.KeepsOperators bindings := by
    intro fields op hnode hop
    have hspelling : op = "and" ∨ op = ">=" := by
      simp only [t, nodes, itemNodes, fieldNodes, List.cons_append, List.nil_append,
        List.append_nil, List.mem_cons, List.not_mem_nil, object.injEq, reduceCtorEq,
        or_false, false_or] at hnode
      rcases hnode with rfl | rfl
      · exact .inl (by simpa using hop)
      · exact .inr (by simpa using hop)
    rcases hspelling with rfl | rfl <;> rfl
  have he : t.toExpr = .ok (.logical .and [.binary (.subscript "x" "i") (.compare .ge) (.var "t"),
    .var "free", .subscript "x" "j"]) := rfl
  obtain ⟨e', he', hrender, hbound⟩ := render_substitute he hvalues hops
  exact ⟨_, e', he, he', by decide +kernel, hrender, hbound hflat⟩

end Template

end ColumnRules
