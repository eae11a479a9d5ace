import ColumnRules.Proofs.Template.Reordering
import ColumnRules.Rule

/-!
# Rules of reordered conditions

The generator may write the fields of the objects in a condition in any order: the rule has the
same columns, the same group, the same expression and the same text.
-/

set_option autoImplicit false

namespace ColumnRules.Rule

/-- A rule of a generated condition, without masses and label. -/
def generated (base : String) (condition : Json) (bindings : Bindings) : Rule :=
  ⟨.ofJson base condition, bindings, [], none⟩

theorem displayText_sameAnswer {rule other : Rule} (hbindings : rule.bindings = other.bindings)
    (h : SameAnswer rule.expression other.expression) :
    SameAnswer rule.displayText other.displayText := by
  unfold displayText
  generalize rule.expression = e, other.expression = e' at h ⊢
  cases h with
  | error herror => exact .error herror
  | ok e =>
    rw [hbindings]
    exact .ok _

/-- The order of the fields of a condition does not matter. Where an expression is missing, it is
for the same unknown operator, or for a value that is not recognized in either order. -/
theorem generated_reordered {json other : Json} (h : json.Reordered other)
    (hnames : json.HasDistinctNames) (base : String) (bindings : Bindings) :
    (generated base json bindings).indices = (generated base other bindings).indices ∧
      (∀ separator, (generated base json bindings).groupKey separator =
        (generated base other bindings).groupKey separator) ∧
      SameAnswer (generated base json bindings).expression
        (generated base other bindings).expression ∧
      SameAnswer (generated base json bindings).displayText
        (generated base other bindings).displayText := by
  have hreordered := Template.ofJson_reordered h hnames base
  have hindices : (generated base json bindings).indices =
      (generated base other bindings).indices :=
    Template.indices_reordered hreordered bindings
  have hexpression : SameAnswer (generated base json bindings).expression
      (generated base other bindings).expression :=
    Template.toExpr_reordered hreordered (Template.distinct_ofJson hnames)
  refine ⟨hindices, ?_, hexpression, displayText_sameAnswer rfl hexpression⟩
  intro separator
  rw [groupKey, groupKey, hindices]

/-- A comparison with a list beside its operands and a field too many in a subscript, and the same
with the fields of both objects in reverse order. -/
theorem generated_reordered_reverse :
    let column : List (String × Json) :=
      [("base", .string "x"), ("index", .int 3), ("note", .null)]
    let fields (column : Json) : List (String × Json) :=
      [("left", column), ("op", .string "<="), ("right", .string "t"), ("values", .array [])]
    let json : Json := .object (fields (.object column))
    let other : Json := .object (fields (.object column.reverse)).reverse
    let bindings : Bindings := Dictionary.empty.insert "3" (.string "age")
    json.Reordered other ∧ json.HasDistinctNames ∧
      (generated "x" json bindings).indices = (generated "x" other bindings).indices ∧
      (generated "x" json bindings).groupKey "-" = (generated "x" other bindings).groupKey "-" ∧
      SameAnswer (generated "x" json bindings).expression
        (generated "x" other bindings).expression ∧
      SameAnswer (generated "x" json bindings).displayText
        (generated "x" other bindings).displayText ∧
      (generated "x" json bindings).displayText = .ok "(age <= t)" := by
  intro column fields json other bindings
  have hcolumn : (Json.object column).Reordered (.object column.reverse) :=
    .object ((Rearranged.refl fun f _ => .refl f.2).perm (List.reverse_perm column).symm)
  have hreordered : json.Reordered other := by
    refine .object (.perm ?_ (List.reverse_perm _).symm)
    exact .cons hcolumn (.refl fun f _ => .refl f.2)
  have hnames : json.HasDistinctNames := by
    intro names hmem
    simp only [json, fields, column, Json.nodes, Json.itemNodes, Json.fieldNodes, List.cons_append,
      List.nil_append, List.append_nil, List.mem_cons, Json.object.injEq, reduceCtorEq,
      List.not_mem_nil, or_false] at hmem
    rcases hmem with rfl | rfl <;> decide
  obtain ⟨hindices, hkey, hexpression, htext⟩ := generated_reordered hreordered hnames "x" bindings
  exact ⟨hreordered, hnames, hindices, hkey "-", hexpression, htext, rfl⟩

end ColumnRules.Rule
