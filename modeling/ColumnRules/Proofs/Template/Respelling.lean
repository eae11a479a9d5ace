import ColumnRules.Proofs.Template.Composition
import ColumnRules.Proofs.Template.Fields

/-!
# Conditions sent back as JSON

A subscript is sent back in one form, whatever the order of its fields, the kind of its index and
the fields next to them were; all else is sent back as it came. What is sent back means the same
template again.
-/

set_option autoImplicit false

namespace ColumnRules

namespace Json

/-- No object inside the value repeats a name. -/
def HasDistinctNames (json : Json) : Prop :=
  ∀ fields, object fields ∈ json.nodes → (fields.map Prod.fst).Nodup

namespace HasDistinctNames

theorem names {fields : List (String × Json)} (h : (object fields).HasDistinctNames) :
    (fields.map Prod.fst).Nodup := h fields (mem_nodes_self _)

theorem item {items : List Json} (h : (array items).HasDistinctNames) {json : Json}
    (hitem : json ∈ items) : json.HasDistinctNames :=
  fun fields hfields => h fields (mem_nodes_item hitem hfields)

theorem field {fields : List (String × Json)} (h : (object fields).HasDistinctNames)
    {f : String × Json} (hf : f ∈ fields) : f.2.HasDistinctNames :=
  fun others hothers => h others (mem_nodes_field hf hothers)

end HasDistinctNames

/-- The fields of an object that subscripts the base by an index, given as a text or as a whole
number, which stands for its decimal digits. -/
inductive Subscripts (base : String) (fields : List (String × Json)) : String → Prop where
  | text {index : String} : ("base", string base) ∈ fields → ("index", string index) ∈ fields →
      Subscripts base fields index
  | whole {n : Int} : ("base", string base) ∈ fields → ("index", int n) ∈ fields →
      Subscripts base fields (toString n)

/-- The second value is the first one with every outermost object that subscripts the base replaced
by the base and the text of its index, in this order. All else stays as it is. -/
inductive Respelled (base : String) : Json → Json → Prop where
  | subscript {fields : List (String × Json)} {index : String} : Subscripts base fields index →
      Respelled base (object fields) (object [("base", string base), ("index", string index)])
  | object {fields others : List (String × Json)} : (∀ index, ¬ Subscripts base fields index) →
      List.Forall₂ (FieldRel (Respelled base)) fields others →
      Respelled base (object fields) (object others)
  | array {items others : List Json} : List.Forall₂ (Respelled base) items others →
      Respelled base (array items) (array others)
  | string (s : String) : Respelled base (string s) (string s)
  | scalar {json : Json} : json.IsScalar → Respelled base json json

theorem ofList_intText (n : Int) : String.ofList (intText n) = toString n := by
  cases n with
  | ofNat n => rfl
  | negSucc n =>
    rw [intText, decide_eq_true (Int.negSucc_lt_zero n)]
    exact String.ofList_cons

theorem field?_eq_some {fields : List (String × Json)} (h : (fields.map Prod.fst).Nodup)
    {name : String} {json : Json} : field? name fields = some json ↔ (name, json) ∈ fields :=
  find?_name_eq_some h

theorem respelled_array {base : String} {items : List Json} {other : Json} :
    Respelled base (array items) other ↔
      ∃ others, other = array others ∧ List.Forall₂ (Respelled base) items others := by
  constructor
  · intro h
    cases h with
    | array hitems => exact ⟨_, rfl, hitems⟩
    | scalar hscalar => exact hscalar.elim
  · rintro ⟨others, rfl, hitems⟩
    exact .array hitems

end Json

namespace Template

variable {base : String}

theorem subscriptIndex?_eq_some {fields : List (String × Json)}
    (h : (fields.map Prod.fst).Nodup) {index : String} :
    subscriptIndex? base fields = some index ↔ Json.Subscripts base fields index := by
  constructor
  · intro hindex
    unfold subscriptIndex? at hindex
    split at hindex
    · rename_i marker hmarker
      have hbase := (Json.field?_eq_some h).mp hmarker
      split at hindex
      · rename_i heq
        subst heq
        split at hindex
        · rename_i text htext
          cases hindex
          exact .text hbase ((Json.field?_eq_some h).mp htext)
        · rename_i n hn
          cases hindex
          rw [Json.ofList_intText]
          exact .whole hbase ((Json.field?_eq_some h).mp hn)
        · cases hindex
      · cases hindex
    · cases hindex
  · intro hindex
    cases hindex with
    | text hbase htext =>
      simp only [subscriptIndex?, (Json.field?_eq_some h).mpr hbase,
        (Json.field?_eq_some h).mpr htext, if_true]
    | whole hbase hn =>
      simp only [subscriptIndex?, (Json.field?_eq_some h).mpr hbase,
        (Json.field?_eq_some h).mpr hn, if_true, Json.ofList_intText]

/-- The fields of an object as they are sent back. -/
def resentFields (base : String) (fields : List (String × Json)) : List (String × Json) :=
  fields.map fun f => (f.1, (ofJson base f.2).toJson)

theorem toFields_ofFields (base : String) (fields : List (String × Json)) :
    toFields (ofFields base fields) = resentFields base fields := by
  rw [toFields_eq, ofFields_eq, List.map_map]
  rfl

/-- A text or a scalar is sent back as itself and as nothing else. -/
theorem toJson_ofJson_eq_iff {json plain : Json} (harray : ∀ items, plain ≠ .array items)
    (hobject : ∀ fields, plain ≠ .object fields) :
    (ofJson base json).toJson = plain ↔ json = plain := by
  cases json with
  | null | bool | int | float | string => rfl
  | array items => exact iff_of_false (harray _).symm (harray _).symm
  | object fields =>
    refine iff_of_false ?_ (hobject _).symm
    rw [ofJson]
    split <;> exact (hobject _).symm

theorem mem_resentFields {fields : List (String × Json)} {name : String} {plain : Json}
    (harray : ∀ items, plain ≠ .array items) (hobject : ∀ fields, plain ≠ .object fields) :
    (name, plain) ∈ resentFields base fields ↔ (name, plain) ∈ fields := by
  simp only [resentFields, List.mem_map, Prod.mk.injEq, toJson_ofJson_eq_iff harray hobject]
  constructor
  · rintro ⟨⟨_, _⟩, hf, rfl, rfl⟩
    exact hf
  · exact fun hf => ⟨_, hf, rfl, rfl⟩

/-- An object neither becomes nor ceases to be a subscript: its base and its index are sent back as
they were, and what else its fields hold does not come back as either. -/
theorem subscripts_resentFields {fields : List (String × Json)} {index : String} :
    Json.Subscripts base (resentFields base fields) index ↔
      Json.Subscripts base fields index := by
  have hstring : ∀ {name s}, (name, .string s) ∈ resentFields base fields ↔
      (name, .string s) ∈ fields := mem_resentFields nofun nofun
  have hint : ∀ {name n}, (name, .int n) ∈ resentFields base fields ↔
      (name, .int n) ∈ fields := mem_resentFields nofun nofun
  constructor
  · intro h
    cases h with
    | text hbase htext => exact .text (hstring.mp hbase) (hstring.mp htext)
    | whole hbase hn => exact .whole (hstring.mp hbase) (hint.mp hn)
  · intro h
    cases h with
    | text hbase htext => exact .text (hstring.mpr hbase) (hstring.mpr htext)
    | whole hbase hn => exact .whole (hstring.mpr hbase) (hint.mpr hn)

theorem subscriptIndex?_resentFields {fields : List (String × Json)}
    (h : (fields.map Prod.fst).Nodup) :
    subscriptIndex? base (resentFields base fields) = subscriptIndex? base fields := by
  have hresent : ((resentFields base fields).map Prod.fst).Nodup := by
    rw [resentFields, List.map_map]
    exact h
  apply Option.ext
  intro index
  rw [subscriptIndex?_eq_some hresent, subscriptIndex?_eq_some h, subscripts_resentFields]

/-- What is sent back means the same template again. -/
theorem ofJson_resent {json : Json} (h : json.HasDistinctNames) :
    ofJson base (ofJson base json).toJson = ofJson base json := by
  induction json using Json.induction with
  | null | bool | int | float | string => rfl
  | array items ih =>
    simp only [ofJson, toJson, ofItems_eq, toItems_eq, List.map_map, sequence.injEq]
    exact List.map_congr_left fun json hitem => ih json hitem (h.item hitem)
  | object fields ih =>
    cases hindex : subscriptIndex? base fields with
    | some index =>
      simp only [ofJson, hindex]
      exact ofJson_toJson_subscript base index
    | none =>
      have hresent := (subscriptIndex?_resentFields h.names).trans hindex
      simp only [ofJson, hindex, toJson, toFields_ofFields, hresent]
      rw [ofFields_eq, ofFields_eq, resentFields, List.map_map, object.injEq]
      apply List.map_congr_left
      intro f hf
      exact Prod.ext rfl (ih f hf (h.field hf))

/-- A condition is sent back respelled, and in no other way. -/
theorem respelled_iff {json : Json} (h : json.HasDistinctNames) (other : Json) :
    json.Respelled base other ↔ other = (ofJson base json).toJson := by
  induction json using Json.induction generalizing other with
  | null | bool | int | float =>
    constructor
    · intro hother
      cases hother
      rfl
    · rintro rfl
      exact .scalar trivial
  | string s =>
    constructor
    · intro hother
      cases hother with
      | string => rfl
      | scalar hscalar => exact hscalar.elim
    · rintro rfl
      exact .string s
  | array items ih =>
    have hitems := forall₂_iff_eq_map fun json hitem => ih json hitem (h.item hitem)
    rw [Json.respelled_array, ofJson, toJson, ofItems_eq, toItems_eq, List.map_map]
    constructor
    · rintro ⟨others, rfl, hothers⟩
      rw [(hitems others).mp hothers]
      rfl
    · rintro rfl
      exact ⟨_, rfl, (hitems _).mpr rfl⟩
  | object fields ih =>
    have hfields : ∀ others, List.Forall₂ (FieldRel (Json.Respelled base)) fields others ↔
        others = resentFields base fields := by
      apply forall₂_iff_eq_map
      intro f hf g
      rw [fieldRel_iff, ih f hf (h.field hf)]
      exact ⟨fun hg => Prod.ext hg.1.symm hg.2, fun hg => hg ▸ ⟨rfl, rfl⟩⟩
    have hindex : ∀ index, subscriptIndex? base fields = some index ↔
        Json.Subscripts base fields index := fun _ => subscriptIndex?_eq_some h.names
    -- The relation asks for no index where decoding finds none.
    rw [ofJson]
    constructor
    · intro hother
      cases hother with
      | subscript hsubscript => rw [(hindex _).mpr hsubscript, toJson]
      | object hnone hothers =>
        have hnone' : subscriptIndex? base fields = none :=
          Option.eq_none_iff_forall_not_mem.mpr fun index h => hnone index ((hindex index).mp h)
        rw [hnone', toJson, toFields_ofFields, (hfields _).mp hothers]
      | scalar hscalar => exact hscalar.elim
    · rintro rfl
      split
      · rename_i index hsome
        exact .subscript ((hindex index).mp hsome)
      · rename_i hnone
        rw [toJson, toFields_ofFields]
        refine .object ?_ ((hfields _).mpr rfl)
        intro index hsubscript
        rw [(hindex index).mpr hsubscript] at hnone
        cases hnone

/-- As data a value comes back as it was. As a condition it comes back respelled, which is to say
with its outermost subscripts in one form and all else unchanged, and then means the same. -/
theorem respelled_resent (base : String) {json : Json} (h : json.HasDistinctNames) :
    (ofData json).toJson = json ∧
      (∀ other, json.Respelled base other ↔ other = (ofJson base json).toJson) ∧
      ofJson base (ofJson base json).toJson = ofJson base json :=
  ⟨toJson_ofData json, respelled_iff h, ofJson_resent h⟩

/-- A subscript with an index inside another one's, and one inside an object of another base. -/
theorem respelled_resent_nested :
    let inner : Json := .object [("index", .int (-7)), ("note", .null), ("base", .string "x")]
    let json : Json := .array [
      .object [("index", .string "i"), ("base", .string "x"), ("left", inner)],
      .object [("index", inner), ("base", .string "y")]]
    let kept : Template :=
      object [("index", scalar (.int (-7))), ("note", scalar .null), ("base", text "x")]
    json.HasDistinctNames ∧
      ofData json = sequence [
        object [("index", text "i"), ("base", text "x"), ("left", kept)],
        object [("index", kept), ("base", text "y")]] ∧
      ofJson "x" json = sequence [subscript "x" "i",
        object [("index", subscript "x" "-7"), ("base", text "y")]] ∧
      (ofData json).toJson = json ∧
      json.Respelled "x" (.array [
        .object [("base", .string "x"), ("index", .string "i")],
        .object [("index", .object [("base", .string "x"), ("index", .string "-7")]),
          ("base", .string "y")]]) ∧
      (∀ other, json.Respelled "x" other ↔ other = (ofJson "x" json).toJson) ∧
      ofJson "x" (ofJson "x" json).toJson = ofJson "x" json := by
  intro inner json kept
  have hnames : json.HasDistinctNames := by
    intro fields hfields
    simp only [json, inner, Json.nodes, Json.itemNodes, Json.fieldNodes, List.cons_append,
      List.nil_append, List.append_nil, List.mem_cons, Json.object.injEq, reduceCtorEq,
      List.not_mem_nil, or_false, false_or] at hfields
    rcases hfields with rfl | rfl | rfl | rfl <;> decide
  obtain ⟨hdata, hrespelled, hagain⟩ := respelled_resent "x" hnames
  exact ⟨hnames, rfl, rfl, hdata, (hrespelled _).mpr rfl, hrespelled, hagain⟩

end Template

end ColumnRules
