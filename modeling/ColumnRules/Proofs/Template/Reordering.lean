import ColumnRules.Proofs.Template.Exact
import ColumnRules.Proofs.Template.Respelling
import ColumnRules.Proofs.Template.Walk

/-!
# The order of fields

JSON values that differ only in the order of the fields of their objects, at any depth, become
templates that differ only so. Such templates stand for the same columns, write the same expression
and fail for the same reason.
-/

set_option autoImplicit false

namespace ColumnRules

namespace Json

/-- The fields of the objects inside the value stand in another order, and that is all. -/
inductive Reordered : Json → Json → Prop where
  | object {fields others : List (String × Json)} : Rearranged Reordered fields others →
      Reordered (object fields) (object others)
  | array {items others : List Json} : List.Forall₂ Reordered items others →
      Reordered (array items) (array others)
  | string (s : String) : Reordered (string s) (string s)
  | scalar {json : Json} : json.IsScalar → Reordered json json

theorem Reordered.refl (json : Json) : json.Reordered json := by
  induction json using Json.induction with
  | null | bool | int | float => exact .scalar trivial
  | string s => exact .string s
  | array items ih => exact .array (List.forall₂_same.mpr ih)
  | object fields ih => exact .object (.refl ih)

theorem field?_reordered {fields others : List (String × Json)}
    (h : Rearranged Reordered fields others) (hnames : (fields.map Prod.fst).Nodup)
    (name : String) : Option.Rel Reordered (field? name fields) (field? name others) :=
  h.rel_find?_name hnames name

end Json

/-- The same reason: the same unknown operator, or values that differ only in the order of fields. -/
inductive TemplateError.Alike : TemplateError → TemplateError → Prop where
  | operator (error : OperatorError) : Alike (.operator error) (.operator error)
  | unrecognized {json other : Json} : json.Reordered other →
      Alike (.unrecognized json) (.unrecognized other)

/-- The same answer, or failure for the same reason. -/
inductive SameAnswer {α : Type} : Except TemplateError α → Except TemplateError α → Prop where
  | ok (a : α) : SameAnswer (.ok a) (.ok a)
  | error {e f : TemplateError} : e.Alike f → SameAnswer (.error e) (.error f)

namespace Template

/-- The fields of the objects inside the template stand in another order, and that is all. -/
inductive Reordered : Template → Template → Prop where
  | subscript (base index : String) : Reordered (subscript base index) (subscript base index)
  | object {fields others : List (String × Template)} : Rearranged Reordered fields others →
      Reordered (object fields) (object others)
  | sequence {items others : List Template} : List.Forall₂ Reordered items others →
      Reordered (sequence items) (sequence others)
  | text (s : String) : Reordered (text s) (text s)
  | scalar (value : Json) : Reordered (scalar value) (scalar value)

theorem field?_reordered {fields others : List (String × Template)}
    (h : Rearranged Reordered fields others) (hnames : (fields.map Prod.fst).Nodup)
    (name : String) : Option.Rel Reordered (field? name fields) (field? name others) :=
  h.rel_find?_name hnames name

/-! ## Decoding -/

variable {base : String}

/-- Base and index are found by their names. -/
theorem subscriptIndex?_reordered {fields others : List (String × Json)}
    (h : Rearranged Json.Reordered fields others) (hnames : (fields.map Prod.fst).Nodup) :
    subscriptIndex? base fields = subscriptIndex? base others := by
  have hbase := Json.field?_reordered h hnames "base"
  have hindex := Json.field?_reordered h hnames "index"
  unfold subscriptIndex?
  generalize Json.field? "base" fields = marker, Json.field? "base" others = marker' at hbase ⊢
  generalize Json.field? "index" fields = index, Json.field? "index" others = index' at hindex ⊢
  cases hbase with
  | none => rfl
  | some hbase =>
    cases hbase with
    | object | array => rfl
    | scalar hscalar =>
      -- Only a text can be the base.
      rename_i json
      cases json with
      | null | bool | int | float => rfl
      | string | array | object => exact hscalar.elim
    | string marker =>
      cases hindex with
      | none => rfl
      | some hindex => cases hindex <;> rfl

theorem ofJson_reordered {json other : Json} (h : json.Reordered other)
    (hnames : json.HasDistinctNames) (base : String) :
    (ofJson base json).Reordered (ofJson base other) := by
  induction json using Json.induction generalizing other with
  | null | bool | int | float =>
    cases h
    exact .scalar _
  | string s =>
    cases h with
    | string => exact .text s
    | scalar hscalar => exact hscalar.elim
  | array items ih =>
    cases h with
    | array hitems =>
      rw [ofJson, ofJson, ofItems_eq, ofItems_eq]
      apply Reordered.sequence
      rw [List.forall₂_map_left_iff, List.forall₂_map_right_iff]
      apply forall₂_imp_mem hitems
      exact fun json hitem other h => ih json hitem h (hnames.item hitem)
    | scalar hscalar => exact hscalar.elim
  | object fields ih =>
    cases h with
    | object hfields =>
      rw [ofJson, ofJson, ← subscriptIndex?_reordered hfields hnames.names]
      split
      · exact .subscript base _
      · rw [ofFields_eq, ofFields_eq]
        apply Reordered.object
        exact (hfields.imp_mem fun f hf other h => ih f hf h (hnames.field hf)).map
    | scalar hscalar => exact hscalar.elim

/-! ## Columns -/

theorem subscripts_reordered {t u : Template} (h : t.Reordered u) :
    t.subscripts.Perm u.subscripts := by
  induction t using Template.induction generalizing u with
  | subscript | text | scalar =>
    cases h
    exact .refl _
  | sequence items ih =>
    cases h with
    | sequence hitems =>
      rw [subscripts_sequence, subscripts_sequence]
      apply perm_flatMap
      exact forall₂_imp_mem hitems fun t ht u htu => ih t ht htu
  | object fields ih =>
    cases h with
    | object hfields =>
      rw [subscripts_object, subscripts_object]
      exact (hfields.imp_mem fun f hf u hfu => ih f hf hfu).perm_flatMap

theorem indices_reordered {t u : Template} (h : t.Reordered u) (bindings : Bindings) :
    t.indices bindings = u.indices bindings := by
  apply ColumnSet.ext_mem
  intro column
  simp only [mem_indices, (subscripts_reordered h).mem_iff]

/-! ## Expressions -/

theorem toJson_reordered {t u : Template} (h : t.Reordered u) : t.toJson.Reordered u.toJson := by
  induction t using Template.induction generalizing u with
  | subscript | text | scalar =>
    cases h
    exact .refl _
  | sequence items ih =>
    cases h with
    | sequence hitems =>
      rw [toJson, toJson, toItems_eq, toItems_eq]
      apply Json.Reordered.array
      rw [List.forall₂_map_left_iff, List.forall₂_map_right_iff]
      exact forall₂_imp_mem hitems fun t ht u htu => ih t ht htu
  | object fields ih =>
    cases h with
    | object hfields =>
      rw [toJson, toJson, toFields_eq, toFields_eq]
      apply Json.Reordered.object
      exact (hfields.imp_mem fun f hf u hfu => ih f hf hfu).map

/-- No object inside the template repeats a name. -/
def distinct : Demand where
  base _ := True
  names := List.Nodup
  value _ := True

theorem distinct_ofJson {json : Json} (h : json.HasDistinctNames) :
    (ofJson base json).Meets distinct := by
  apply meets_ofJson trivial
  intro node hnode
  cases node with
  | object fields => exact h fields hnode
  | null | bool | int | float | string | array => trivial

theorem toExprs_reordered {items others : List Template}
    (h : List.Forall₂ (fun t u => SameAnswer t.toExpr u.toExpr) items others) :
    SameAnswer (toExprs items) (toExprs others) := by
  induction h with
  | nil => exact .ok []
  | @cons t u items others htu _ ih =>
    rw [toExprs, toExprs]
    generalize t.toExpr = first, u.toExpr = first' at htu ⊢
    generalize toExprs items = rest, toExprs others = rest' at ih ⊢
    cases htu with
    | error herror => exact .error herror
    | ok e =>
      cases ih with
      | error herror => exact .error herror
      | ok es => exact .ok (e :: es)

theorem operator?_reordered {fields others : List (String × Template)}
    (h : Rearranged Reordered fields others) (hnames : (fields.map Prod.fst).Nodup) :
    operator? fields = operator? others := by
  have hop := field?_reordered h hnames "op"
  unfold operator?
  generalize field? "op" fields = op, field? "op" others = op' at hop ⊢
  cases hop with
  | none => rfl
  | some hop => cases hop <;> rfl

theorem sameAnswer_sequence {items others : List Template} :
    SameAnswer (sequence items).toExpr (sequence others).toExpr ↔
      SameAnswer (toExprs items) (toExprs others) := by
  rw [toExpr, toExpr]
  generalize toExprs items = es, toExprs others = es'
  constructor
  · intro h
    cases es <;> cases es' <;> cases h
    · rename_i h
      exact .error h
    · exact .ok _
  · intro h
    cases h with
    | error herror => exact .error herror
    | ok es => exact .ok _

/-- Templates that differ in the order of fields and give the same answer. -/
def Agreeing (t u : Template) : Prop := t.Reordered u ∧ SameAnswer t.toExpr u.toExpr

section Agreeing

variable {fields others : List (String × Template)} {name : String}
  (h : Option.Rel Agreeing (field? name fields) (field? name others))
include h

theorem fieldExpr?_agreeing :
    Option.Rel SameAnswer (fieldExpr? name fields) (fieldExpr? name others) := by
  rw [fieldExpr?_eq, fieldExpr?_eq]
  generalize field? name fields = t, field? name others = u at h ⊢
  cases h with
  | none => exact .none
  | some h => exact .some h.2

theorem fieldExprs?_agreeing :
    Option.Rel SameAnswer (fieldExprs? name fields) (fieldExprs? name others) := by
  rw [fieldExprs?_eq, fieldExprs?_eq]
  generalize field? name fields = t, field? name others = u at h ⊢
  cases h with
  | none => exact .none
  | some h =>
    obtain ⟨hreordered, hanswer⟩ := h
    cases hreordered with
    | subscript | object | text | scalar => exact .none
    | sequence => exact .some (sameAnswer_sequence.mp hanswer)

end Agreeing

/-- What an object with both operands of a binary node writes. -/
def binaryAnswer (op : String) (left right : Except TemplateError Expr) :
    Except TemplateError Expr :=
  match BinaryOp.ofSymbol op, left, right with
  | .error e, _, _ => .error (.operator e)
  | .ok _, .error e, _ => .error e
  | .ok _, .ok _, .error e => .error e
  | .ok op, .ok left, .ok right => .ok (.binary left op right)

/-- What an object without one of them writes, itself if it is not recognized. -/
def logicalAnswer (op : String) (itself : Json) :
    Option (Except TemplateError (List Expr)) → Except TemplateError Expr
  | some operands =>
    match LogicalOp.ofTemplate op, operands with
    | .error e, _ => .error (.operator e)
    | .ok _, .error e => .error e
    | .ok op, .ok operands => .ok (.logical op operands)
  | none => .error (.unrecognized itself)

theorem toExpr_object (fields : List (String × Template)) :
    (object fields).toExpr =
      match operator? fields with
      | none => .error (.unrecognized (object fields).toJson)
      | some op =>
        match fieldExpr? "left" fields, fieldExpr? "right" fields with
        | some left, some right => binaryAnswer op left right
        | _, _ => logicalAnswer op (object fields).toJson (fieldExprs? "values" fields) := by
  rw [toExpr]
  rfl

theorem binaryAnswer_same (op : String) {left left' right right' : Except TemplateError Expr}
    (hleft : SameAnswer left left') (hright : SameAnswer right right') :
    SameAnswer (binaryAnswer op left right) (binaryAnswer op left' right') := by
  unfold binaryAnswer
  cases BinaryOp.ofSymbol op with
  | error e => exact .error (.operator e)
  | ok op =>
    cases hleft with
    | error herror => exact .error herror
    | ok l =>
      cases hright with
      | error herror => exact .error herror
      | ok r => exact .ok _

theorem logicalAnswer_same (op : String) {json other : Json} (h : json.Reordered other)
    {values values' : Option (Except TemplateError (List Expr))}
    (hvalues : Option.Rel SameAnswer values values') :
    SameAnswer (logicalAnswer op json values) (logicalAnswer op other values') := by
  cases hvalues with
  | none => exact .error (.unrecognized h)
  | some hoperands =>
    unfold logicalAnswer
    cases LogicalOp.ofTemplate op with
    | error e => exact .error (.operator e)
    | ok op =>
      cases hoperands with
      | error herror => exact .error herror
      | ok es => exact .ok _

theorem toExpr_reordered {t u : Template} (h : t.Reordered u) (hnames : t.Meets distinct) :
    SameAnswer t.toExpr u.toExpr := by
  induction t using Template.induction generalizing u with
  | subscript base index =>
    cases h
    exact .ok _
  | text s =>
    cases h
    exact .ok _
  | scalar value =>
    cases h
    rw [toExpr]
    split
    · exact .ok _
    · exact .error (.unrecognized (.refl value))
  | sequence items ih =>
    cases h with
    | sequence hitems =>
      have hall := meets_sequence.mp hnames
      apply sameAnswer_sequence.mpr
      apply toExprs_reordered
      exact forall₂_imp_mem hitems fun t ht u htu => ih t ht htu (hall t ht)
  | object fields ih =>
    have hunrecognized := toJson_reordered h
    cases h with
    | @object _ others hfields =>
      obtain ⟨hnodup, hall⟩ := meets_object.mp hnames
      -- The object is read by the names of its fields only, so it is enough that the fields of each
      -- name agree.
      have hagreeing : Rearranged Agreeing fields others :=
        hfields.imp_mem fun f hf u hfu => ⟨hfu, ih f hf hfu (hall f hf)⟩
      have hfield : ∀ name, Option.Rel Agreeing (field? name fields) (field? name others) :=
        hagreeing.rel_find?_name hnodup
      have hleft := fieldExpr?_agreeing (hfield "left")
      have hright := fieldExpr?_agreeing (hfield "right")
      have hvalues := fieldExprs?_agreeing (hfield "values")
      rw [toExpr_object, toExpr_object, ← operator?_reordered hfields hnodup]
      generalize fieldExpr? "left" fields = left, fieldExpr? "left" others = left' at hleft ⊢
      generalize fieldExpr? "right" fields = right, fieldExpr? "right" others = right' at hright ⊢
      cases operator? fields with
      | none => exact .error (.unrecognized hunrecognized)
      | some op =>
        cases hleft with
        | none => exact logicalAnswer_same op hunrecognized hvalues
        | some hleft =>
          cases hright with
          | none => exact logicalAnswer_same op hunrecognized hvalues
          | some hright => exact binaryAnswer_same op hleft hright

end Template

end ColumnRules
