import ColumnRules.Proofs.RoundTrip.Generated
import ColumnRules.Proofs.Template.Exact

/-!
# Editing a rule with its own text

An edited rule subscripts every column of its text and binds each to itself. Its text is accepted
again, and an edit with the text that a rule is shown as keeps the columns that the rule
dereferences. Edited once more the rule stays as it is.
-/

set_option autoImplicit false

namespace ColumnRules

namespace Expr

def subscriptLeaf (base : String) : Expr → Expr
  | var name => subscript base name
  | e => e

theorem subscriptColumns_eq (base : String) (e : Expr) :
    e.subscriptColumns base = e.mapLeaves (subscriptLeaf base) := by
  have hall : ∀ es : List Expr,
      (∀ e ∈ es, e.subscriptColumns base = e.mapLeaves (subscriptLeaf base)) →
      subscriptAll base es = mapAllLeaves (subscriptLeaf base) es := by
    intro es h
    induction es with
    | nil => rfl
    | cons e es ih =>
      rw [subscriptAll, mapAllLeaves, h e List.mem_cons_self,
        ih fun x hx => h x (List.mem_cons_of_mem _ hx)]
  induction e using Expr.induction with
  | literal | var | subscript => rfl
  | binary left op right ihl ihr => rw [subscriptColumns, mapLeaves, ihl, ihr]
  | logical op operands ih => rw [subscriptColumns, mapLeaves, hall operands ih]
  | sequence items ih => rw [subscriptColumns, mapLeaves, hall items ih]

theorem keepsLeaves_subscriptLeaf (base : String) : KeepsLeaves (subscriptLeaf base) := by
  intro e h
  cases e with
  | literal | var | subscript => rfl
  | binary | logical | sequence => cases h

theorem meets_declared {columns names : List String} {operands items : Nat → Prop} {e : Expr}
    (h : e.Meets ⟨IsDeclared columns, operands, items⟩) (hnames : ∀ name ∈ e.varList, name ∈ names) :
    e.Meets ⟨fun e => e.IsDeclared columns ∧ e.IsDeclared names, operands, items⟩ := by
  have hall : ∀ es : List Expr, (∀ name ∈ varLists es, name ∈ names) →
      ∀ e ∈ es, ∀ name ∈ e.varList, name ∈ names := by
    intro es hes e he name hname
    rw [varLists_eq] at hes
    exact hes name (List.mem_flatMap.mpr ⟨e, he, hname⟩)
  induction e using Expr.induction with
  | literal x => exact ⟨h, h⟩
  | var name => exact ⟨h, hnames name List.mem_cons_self, h.2⟩
  | subscript => exact h.elim
  | binary left op right ihl ihr =>
    rw [varList] at hnames
    exact ⟨ihl h.1 fun name hname => hnames name (List.mem_append_left _ hname),
      ihr h.2 fun name hname => hnames name (List.mem_append_right _ hname)⟩
  | logical op operands ih =>
    have hmeet := allMeet_iff.mp h.2
    rw [varList] at hnames
    exact ⟨h.1, allMeet_iff.mpr fun e he => ih e he (hmeet e he) (hall operands hnames e he)⟩
  | sequence items ih =>
    have hmeet := allMeet_iff.mp h.2
    rw [varList] at hnames
    exact ⟨h.1, allMeet_iff.mpr fun e he => ih e he (hmeet e he) (hall items hnames e he)⟩

end Expr

theorem Template.exact_ofExpr (e : Expr) : (ofExpr e).Exact := by
  have hall : ∀ es : List Expr, (∀ e ∈ es, (ofExpr e).Exact) → ExactItems (ofExprs es) := by
    intro es h
    induction es with
    | nil => trivial
    | cons e es ih =>
      exact ⟨h e List.mem_cons_self, ih fun x hx => h x (List.mem_cons_of_mem _ hx)⟩
  induction e using Expr.induction with
  | literal | var | subscript => trivial
  | binary left op right ihl ihr => exact ⟨.inl (.refl _), ihl, trivial, ihr, trivial⟩
  | logical op operands ih => exact ⟨.inr (.refl _), trivial, hall operands ih, trivial⟩
  | sequence items ih => exact hall items ih

namespace Rule

/-- The rule with an expression for its condition, as an edit leaves it. -/
def edited (rule : Rule) (base : String) (e : Expr) : Rule :=
  { rule with
    condition := .ofExpr (e.subscriptColumns base)
    bindings := .identity e.varNames.names }

theorem withText_of_parse (rule : Rule) {text : String} {columns : List String} {e : Expr}
    (h : parse text columns = .ok e) (base : String) :
    rule.withText text columns base = .ok (rule.edited base e) := by
  simp only [withText, h, edited]

theorem edited_edited (rule : Rule) (base other : String) (e f : Expr) :
    (rule.edited base e).edited other f = rule.edited other f := rfl

end Rule

section Edited

variable {columns : List String} {e : Expr} (h : Accepted columns e) (base : String)
include h

/-- Under the bindings of an edited rule its subscripts stand for the names that they replaced. -/
theorem Accepted.subscripts :
    e.Meets ⟨fun leaf => leaf.IsDeclared columns ∧ leaf.IsDeclared e.varNames.names,
      fun n => n = 2, fun _ => True⟩ :=
  Expr.meets_declared h.leaves fun _ => ColumnSet.mem_ofList.mpr

theorem Accepted.resolve_subscripts :
    (e.subscriptColumns base).resolve (.identity e.varNames.names) = e := by
  rw [Expr.subscriptColumns_eq, Expr.resolve,
    Expr.mapLeaves_mapLeaves (Expr.keepsLeaves_subscriptLeaf base)]
  apply Expr.mapLeaves_eq_self h.subscripts
  intro leaf _ hleaf
  cases leaf with
  | literal x => rfl
  | var name =>
    have hbound := Bindings.get?_identity hleaf.2.1
    simp only [Expr.subscriptLeaf, Expr.resolveLeaf, Expr.orShown, hbound, Expr.ofShown_string]
  | subscript | binary | logical | sequence => exact hleaf.1.elim

theorem Accepted.meets_subscripts {d : Expr.Demand}
    (hliteral : ∀ x : Binary64, x.isFinite = true → d.leaf (.literal x))
    (hsubscript : ∀ name ∈ columns, name ∈ e.varNames.names → name ≠ "" →
      d.leaf (.subscript base name)) (hoperands : d.operands 2) (hitems : ∀ n, d.items n) :
    (e.subscriptColumns base).Meets d := by
  rw [Expr.subscriptColumns_eq, Expr.meets_mapLeaves (Expr.keepsLeaves_subscriptLeaf base)]
  refine h.subscripts.mono ?_ (fun n hn => hn ▸ hoperands) (fun n _ => hitems n)
  intro e _ he
  cases e with
  | literal x => exact hliteral x he.1
  | var name => exact hsubscript name he.1.1 he.2.1 he.1.2
  | subscript | binary | logical | sequence => exact he.1.elim

theorem Accepted.toExpr_edited :
    (Template.ofExpr (e.subscriptColumns base)).toExpr = .ok (e.subscriptColumns base) :=
  Template.toExpr_ofExpr (h.meets_subscripts base (fun _ hx => hx) (fun _ _ _ _ => trivial) trivial
    fun _ => trivial)

/-- An edited rule dereferences the columns that its text names. -/
theorem Accepted.indices_edited (rule : Rule) : (rule.edited base e).indices = e.varNames := by
  have hleaves : (e.subscriptColumns base).Meets
      ⟨Template.SubscriptsOnly (.identity e.varNames.names), fun _ => True, fun _ => True⟩ :=
    h.meets_subscripts base (fun _ _ => trivial)
      (fun name _ hname _ => ⟨name, Bindings.get?_identity hname⟩) trivial fun _ => trivial
  have hindices : (rule.edited base e).indices = _ :=
    Template.indices_eq (Template.exact_ofExpr _) (h.toExpr_edited base) hleaves
  exact hindices.trans (congrArg Expr.varNames (h.resolve_subscripts base))

theorem Accepted.displayText_edited (hplain : Plain columns) (hne : e ≠ .sequence []) (rule : Rule) :
    ∃ text, (rule.edited base e).displayText = .ok text ∧
      parse text columns = .ok e.chained.unsignedZeros := by
  have hleaf := Expr.keepsLeaves_subscriptLeaf base
  have hleaves : (e.subscriptColumns base).Meets
      ⟨Expr.IsShown columns (.identity e.varNames.names), fun n => 0 < n, fun _ => True⟩ :=
    h.meets_subscripts base (fun _ hx => hx)
      (fun name hname hmem hne => ⟨_, Bindings.get?_identity hmem, name, hname, hne, rfl⟩)
      Nat.two_pos fun _ => trivial
  have hvalues : (e.subscriptColumns base).comparesValues = true := by
    rw [Expr.subscriptColumns_eq, Expr.comparesValues_mapLeaves hleaf, h.values]
  have hheight : (e.subscriptColumns base).chainHeight ≤ maxHeight := by
    rw [Expr.subscriptColumns_eq, Expr.chainHeight_mapLeaves hleaf]
    exact h.height
  have hneSub : e.subscriptColumns base ≠ .sequence [] := by
    rw [Expr.subscriptColumns_eq]
    exact Expr.mapLeaves_ne_empty hleaf hne
  have hparse := parse_render_bound hplain hleaves hvalues hneSub hheight
  rw [h.resolve_subscripts base] at hparse
  refine ⟨_, ?_, hparse⟩
  simp only [Rule.displayText, Rule.expression, Rule.edited, h.toExpr_edited base]

/-- What is shown as itself is left by an edit of the rule with its own text. -/
theorem Accepted.withText_edited (hplain : Plain columns) (hne : e ≠ .sequence [])
    (hstable : e.chained.unsignedZeros = e) (rule : Rule) :
    ∃ text, (rule.edited base e).displayText = .ok text ∧
      ∀ other, (rule.edited base e).withText text columns other = .ok (rule.edited other e) := by
  obtain ⟨text, htext, hparse⟩ := h.displayText_edited base hplain hne rule
  rw [hstable] at hparse
  refine ⟨text, htext, ?_⟩
  intro other
  rw [Rule.withText_of_parse _ hparse, Rule.edited_edited]

end Edited

/-- The leaves of a generated condition whose columns are its subscripts. -/
def Expr.IsGenerated (columns : List String) (bindings : Bindings) : Expr → Prop
  | literal x => x.isFinite = true
  | var name => ∃ value, bindings.get? name = some value ∧ value.IsNumber
  | subscript _ index => ∃ value, bindings.get? index = some value ∧ value.NamesColumn columns
  | _ => False

theorem Expr.varNames_shown (e : Expr) : e.chained.unsignedZeros.varNames = e.varNames := by
  rw [varNames, varList_unsignedZeros, varList_chained, varNames]

theorem Expr.shown_ne_empty {leaf : Expr → Prop} {e : Expr} (bindings : Bindings)
    (h : e.Meets ⟨leaf, fun n => 0 < n, fun n => 0 < n⟩) :
    (e.resolve bindings).chained.unsignedZeros ≠ .sequence [] := by
  have hlists : (e.resolve bindings).Meets ⟨fun _ => True, fun n => 0 < n, fun n => 0 < n⟩ :=
    (meets_mapLeaves (keepsLeaves_resolveLeaf bindings) e).mpr
      (h.mono (fun _ _ _ => trivial) (fun _ => id) (fun _ => id))
  exact mapLeaves_ne_empty keepsLeaves_unsignedZeroLeaf (chained_ne_empty hlists)

theorem Expr.IsGenerated.isShown {columns : List String} {bindings : Bindings} {e : Expr}
    (h : e.IsGenerated columns bindings) : e.IsShown columns bindings := by
  cases e with
  | literal | subscript => exact h
  | var name =>
    obtain ⟨value, hbound, hvalue⟩ := h
    exact .inl ⟨value, hbound, .inl hvalue⟩
  | binary | logical | sequence => exact h.elim

theorem Expr.IsGenerated.subscriptsOnly {columns : List String} {bindings : Bindings} {e : Expr}
    (h : e.IsGenerated columns bindings) : Template.SubscriptsOnly bindings e := by
  cases e with
  | literal => trivial
  | var name =>
    obtain ⟨value, hbound, x, hvalue, -⟩ := h
    exact ⟨value, x, hbound, hvalue⟩
  | subscript base index =>
    obtain ⟨value, hbound, word, -, -, rfl⟩ := h
    exact ⟨word, hbound⟩
  | binary | logical | sequence => exact h.elim

/-- Edited with its own text a rule keeps its columns and its group, and edited once more it stays
as it is. -/
theorem Rule.withText_displayText {rule : Rule} {columns : List String} {e : Expr}
    (hplain : Plain columns) (hexact : rule.condition.Exact)
    (he : rule.condition.toExpr = .ok e)
    (hleaves : e.Meets ⟨Expr.IsGenerated columns rule.bindings, fun n => 0 < n, fun n => 0 < n⟩)
    (hvalues : e.comparesValues = true) (hheight : e.chainHeight ≤ maxHeight) :
    ∃ text, rule.displayText = .ok text ∧ ∀ base, ∃ r, rule.withText text columns base = .ok r ∧
      r.indices = rule.indices ∧
      (∀ separator, r.groupKey separator = rule.groupKey separator) ∧
      ∃ text', r.displayText = .ok text' ∧ r.withText text' columns base = .ok r ∧
        ∀ other, r.withText text' columns other = rule.withText text columns other := by
  have hne : e ≠ .sequence [] := by
    rintro rfl
    exact absurd hleaves.1 (Nat.lt_irrefl 0)
  have hparse := parse_render_bound hplain
    (hleaves.mono (fun _ _ => Expr.IsGenerated.isShown) (fun _ => id) (fun _ _ => trivial))
    hvalues hne hheight
  have hindices : rule.indices = _ := Template.indices_eq hexact he
    (hleaves.mono (fun _ _ => Expr.IsGenerated.subscriptsOnly) (fun _ _ => trivial)
      (fun _ _ => trivial))
  rw [← Expr.varNames_shown] at hindices
  have hneShown := Expr.shown_ne_empty rule.bindings hleaves
  have hstable := Expr.chained_unsignedZeros_stable (e.resolve rule.bindings)
  generalize (e.resolve rule.bindings).chained.unsignedZeros = f at *
  have haccepted := accepted_of_parse hparse
  have htext : rule.displayText = .ok (e.render rule.bindings) := by
    simp only [displayText, expression, he]
  refine ⟨_, htext, ?_⟩
  intro base
  have hedit := withText_of_parse rule hparse
  have hkeep : (rule.edited base f).indices = rule.indices :=
    (haccepted.indices_edited base rule).trans hindices.symm
  obtain ⟨text', htext', hagain⟩ := haccepted.withText_edited base hplain hneShown hstable rule
  refine ⟨_, hedit base, hkeep, ?_, text', htext', hagain base, ?_⟩
  · intro separator
    rw [groupKey, hkeep, groupKey]
  · intro other
    rw [hagain other, hedit other]

theorem Rule.withText_displayText_bound :
    let rule : Rule := ⟨.object [("op", .text "<"), ("left", .subscript "X" "i"),
      ("right", .text "t")], (Dictionary.empty.insert "i" (.string "a")).insert "t" (.int (-3)),
      [], none⟩
    rule.displayText = .ok "(a < -3)" ∧
    (∀ base, rule.withText "(a < -3)" ["a", "b"] base =
      .ok ⟨.object [("left", .subscript base "a"), ("op", .text "<"),
        ("right", .scalar (.float (.ofInt (-3))))], .ofList [("a", .string "a")], [], none⟩) ∧
    ∃ text, rule.displayText = .ok text ∧ ∀ base, ∃ r, rule.withText text ["a", "b"] base = .ok r ∧
      r.indices = rule.indices ∧
      (∀ separator, r.groupKey separator = rule.groupKey separator) ∧
      ∃ text', r.displayText = .ok text' ∧ r.withText text' ["a", "b"] base = .ok r ∧
        ∀ other, r.withText text' ["a", "b"] other = rule.withText text ["a", "b"] other := by
  intro rule
  have hplain : Plain ["a", "b"] := by decide +kernel
  have hexact : rule.condition.Exact := ⟨.inl (.swap _ _ _), trivial, trivial, trivial, trivial⟩
  have htext : (Expr.binary (.subscript "X" "i") (.compare .lt) (.var "t")).render
      rule.bindings = "(a < -3)" := by decide +kernel
  have htokenize : tokenize "(a < -3)" ["a", "b"] =
      .ok [⟨.leftParen, 0⟩, ⟨.column "a", 1⟩, ⟨.symbol .lt, 3⟩, ⟨.number (.ofInt (-3)), 5⟩,
        ⟨.rightParen, 7⟩] := by
    decide +kernel
  have hparse : parse "(a < -3)" ["a", "b"] =
      .ok (.binary (.var "a") (.compare .lt) (.literal (.ofInt (-3)))) := by
    rw [parse, htokenize]
    rfl
  have hfinite : (Binary64.ofInt (-3)).isFinite = true := by decide +kernel
  refine ⟨congrArg Except.ok htext, ?_, ?_⟩
  · intro base
    simp only [Rule.withText_of_parse rule hparse, Rule.edited, Expr.subscriptColumns,
      Template.ofExpr, hfinite, if_true]
    rfl
  · refine Rule.withText_displayText hplain hexact rfl ⟨?_, ?_⟩ rfl (by decide)
    · exact ⟨.string "a", by simp [rule], "a", by simp, by simp, rfl⟩
    · exact ⟨.int (-3), by simp [rule], _, rfl, by decide +kernel⟩

end ColumnRules
