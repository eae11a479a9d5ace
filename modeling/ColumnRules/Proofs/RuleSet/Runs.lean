import ColumnRules.Proofs.Expr.Nodes
import ColumnRules.Proofs.RuleSet.Sound
import ColumnRules.RuleSet.Edit

/-!
# Runs of edits

A rule set that is read has sound rules, every edit keeps them sound, and so they are sound at the
end of every run of edits.
-/

set_option autoImplicit false

namespace ColumnRules

namespace Json

variable {α : Type}

theorem mem_of_mapM {β : Type} {f : α → Option β} {items : List α} {values : List β}
    (h : items.mapM f = some values) {value : β} (hvalue : value ∈ values) :
    ∃ item ∈ items, f item = some value := by
  induction items generalizing values with
  | nil =>
    cases h
    cases hvalue
  | cons item items ih =>
    rw [List.mapM_cons] at h
    obtain ⟨first, hfirst, h⟩ := Option.bind_eq_some_iff.mp h
    obtain ⟨rest, hrest, h⟩ := Option.bind_eq_some_iff.mp h
    cases h
    rcases List.mem_cons.mp hvalue with rfl | hvalue
    · exact ⟨item, List.mem_cons_self, hfirst⟩
    · obtain ⟨other, hother, heq⟩ := ih hrest hvalue
      exact ⟨other, List.mem_cons_of_mem _ hother, heq⟩

theorem mem_of_sole? {name : String} {fields : List (String × Json)} {json : Json}
    (h : sole? name fields = some json) : (name, json) ∈ fields := by
  rw [sole?] at h
  split at h
  · rename_i hone
    cases h
    have hmem : json ∈ occurrences name fields := by
      rw [hone]
      exact List.mem_cons_self
    obtain ⟨f, hf, rfl⟩ := List.mem_map.mp hmem
    obtain ⟨hf, hname⟩ := List.mem_filter.mp hf
    rw [← beq_iff_eq.mp hname]
    exact hf
  · cases h

theorem IsSound.bindings {json : Json} (h : json.IsSound) {bindings : Bindings}
    (hread : json.bindings? = some bindings) : bindings.IsSound := by
  cases json with
  | object fields =>
    obtain ⟨entries, hentries, rfl⟩ := Option.map_eq_some_iff.mp hread
    intro name value hvalue
    obtain ⟨f, hf, hentry⟩ := mem_of_mapM hentries (Dictionary.mem_of_get?_ofList hvalue)
    cases hentry
    exact h.field hf
  | null | bool | int | float | string | array => cases hread

end Json

namespace RuleSet

def IsSound (base : String) (set : RuleSet) : Prop := ∀ rule ∈ set.rules, rule.IsSound base

variable {base : String}

theorem pair_isSound {json condition : Json} {bindings : Bindings} (h : json.IsSound)
    (hread : pair? json = some (condition, bindings)) :
    condition.IsSound ∧ bindings.IsSound := by
  unfold pair? at hread
  split at hread
  · obtain ⟨_, hbindings, heq⟩ := Option.map_eq_some_iff.mp hread
    cases heq
    exact ⟨h.item List.mem_cons_self,
      (h.item (List.mem_cons_of_mem _ List.mem_cons_self)).bindings hbindings⟩
  · cases hread

theorem rules_isSound {json : Json} {pairs : List (Json × Bindings)} (h : json.IsSound)
    (hread : rules? json = some pairs) {pair : Json × Bindings} (hpair : pair ∈ pairs) :
    pair.1.IsSound ∧ pair.2.IsSound := by
  cases json with
  | array items =>
    obtain ⟨item, hitem, heq⟩ := Json.mem_of_mapM hread hpair
    exact pair_isSound (h.item hitem) heq
  | null | bool | int | float | string | object => cases hread

theorem isSound_assemble {pairs : List (Json × Bindings)}
    (h : ∀ pair ∈ pairs, pair.1.IsSound ∧ pair.2.IsSound) (masses : List (List Binary64))
    (labels : List String) {rule : Rule} (hrule : rule ∈ assemble base pairs masses labels) :
    rule.IsSound base := by
  induction pairs generalizing masses labels with
  | nil => cases hrule
  | cons pair pairs ih =>
    obtain ⟨hpair, hpairs⟩ := List.forall_mem_cons.mp h
    rcases List.mem_cons.mp hrule with rfl | hrule
    · exact Rule.isSound_ofJson hpair.1 hpair.2 _ _
    · exact ih hpairs _ _ hrule

/-- Masses, labels and codes decide whether a rule set is read, but not what its conditions are. -/
theorem eq_assemble {pairs? : Option (List (Json × Bindings))}
    {masses? : Option (List (List Binary64))} {labels? : Option (List String)}
    {encoder? : Option (Dictionary (Dictionary Json))} {set : RuleSet}
    (h : (do
      let pairs ← pairs?
      let masses ← masses?
      let labels ← labels?
      let encoder ← encoder?
      some (RuleSet.mk (assemble base pairs masses labels) encoder)) = some set) :
    ∃ pairs masses labels, pairs? = some pairs ∧ set.rules = assemble base pairs masses labels := by
  obtain ⟨pairs, hpairs, h⟩ := Option.bind_eq_some_iff.mp h
  obtain ⟨masses, -, h⟩ := Option.bind_eq_some_iff.mp h
  obtain ⟨labels, -, h⟩ := Option.bind_eq_some_iff.mp h
  obtain ⟨encoder, -, h⟩ := Option.bind_eq_some_iff.mp h
  cases h
  exact ⟨pairs, masses, labels, hpairs, rfl⟩

theorem isSound_of_ofJson? {json : Json} (h : json.IsSound) {set : RuleSet}
    (hread : ofJson? base json = some set) : set.IsSound base := by
  have hassemble : ∀ {json pairs masses labels}, json.IsSound → rules? json = some pairs →
      set.rules = assemble base pairs masses labels → set.IsSound base := by
    intro json pairs masses labels hjson hpairs hrules rule hrule
    rw [hrules] at hrule
    exact isSound_assemble (fun _ hpair => rules_isSound hjson hpairs hpair) masses labels hrule
  unfold ofJson? at hread
  split at hread
  · obtain ⟨pairs, masses, labels, hpairs, hrules⟩ := eq_assemble hread
    obtain ⟨rules, hsole, hpairs⟩ := Option.bind_eq_some_iff.mp hpairs
    exact hassemble (h.field (Json.mem_of_sole? hsole)) hpairs hrules
  · split at hread
    · cases hread
    · obtain ⟨pairs, masses, labels, hpairs, hrules⟩ := eq_assemble hread
      exact hassemble (h.item List.mem_cons_self) hpairs hrules
  · cases hread

/-- What a change of one rule leads to: the rule was there and is replaced. -/
theorem change_eq_ok {set set' : RuleSet} {index : Nat} {f : Rule → Except EditError Rule}
    (h : set.change index f = .ok set') : ∃ rule ∈ set.rules, ∃ rule', f rule = .ok rule' ∧
      set' = { set with rules := set.rules.set index rule' } := by
  rw [change] at h
  split at h
  · cases h
  · rename_i rule hrule
    split at h
    · cases h
    · rename_i rule' hrule'
      cases h
      exact ⟨rule, List.mem_of_getElem? hrule, rule', hrule', rfl⟩

theorem IsSound.change {set set' : RuleSet} (h : set.IsSound base) {index : Nat}
    {f : Rule → Except EditError Rule} (hchange : set.change index f = .ok set')
    (hf : ∀ {rule rule'}, rule.IsSound base → f rule = .ok rule' → rule'.IsSound base) :
    set'.IsSound base := by
  obtain ⟨rule, hrule, rule', hrule', rfl⟩ := change_eq_ok hchange
  intro other hother
  rcases List.mem_or_eq_of_mem_set hother with hother | rfl
  · exact h other hother
  · exact hf (h rule hrule) hrule'

end RuleSet

/-- The edit brings in sound data only. -/
def Edit.IsSound : Edit → Prop
  | push condition bindings => condition.IsSound ∧ bindings.IsSound
  | bind _ bindings => bindings.IsSound
  | _ => True

namespace RuleSet

variable {base : String} {set set' : RuleSet}

theorem IsSound.apply (h : set.IsSound base) {edit : Edit} (hedit : edit.IsSound)
    (happly : set.apply base edit = .ok set') : set'.IsSound base := by
  cases edit with
  | push condition bindings =>
    cases happly
    intro rule hrule
    rcases List.mem_append.mp hrule with hrule | hrule
    · exact h rule hrule
    · obtain rfl := List.mem_singleton.mp hrule
      exact Rule.isSound_ofJson hedit.1 hedit.2 _ _
  | withText index text columns =>
    rw [RuleSet.apply] at happly
    refine h.change happly ?_
    -- The rule that was there does not matter: both its condition and its bindings are replaced.
    intro rule rule' _ hrule
    cases hedited : rule.withText text columns base with
    | error e =>
      rw [hedited] at hrule
      cases hrule
    | ok edited =>
      rw [hedited] at hrule
      cases hrule
      exact Rule.isSound_withText hedited
  | bind index bindings =>
    rw [RuleSet.apply] at happly
    refine h.change happly ?_
    intro rule rule' hsound hrule
    cases hrule
    exact hsound.bind hedit
  | unbind index name =>
    rw [RuleSet.apply] at happly
    refine h.change happly ?_
    intro rule rule' hsound hrule
    cases hrule
    exact hsound.unbind name
  | settle index =>
    rw [RuleSet.apply] at happly
    refine h.change happly ?_
    intro rule rule' hsound hrule
    cases hrule
    exact hsound.settle
  | remove index =>
    rw [RuleSet.apply] at happly
    split at happly
    · cases happly
      exact fun rule hrule => h rule (List.mem_of_mem_eraseIdx hrule)
    · cases happly

/-- The rule sets at the end of a run of edits, from a rule set that was read on. -/
inductive Reachable (base : String) : RuleSet → Prop where
  | read {json : Json} {set : RuleSet} : json.IsSound → ofJson? base json = some set →
      Reachable base set
  | edit {set set' : RuleSet} {edit : Edit} : Reachable base set → edit.IsSound →
      set.apply base edit = .ok set' → Reachable base set'

theorem Reachable.isSound (h : Reachable base set) : set.IsSound base := by
  induction h with
  | read hjson hread => exact isSound_of_ofJson? hjson hread
  | edit _ hedit happly ih => exact ih.apply hedit happly

/-- The conditions of a rule set subscript its base only, repeat no name in an object and have
scalars for scalars, and no expression of a rule has a literal that is not finite. -/
theorem condition_of_reachable (h : Reachable base set) {rule : Rule} (hrule : rule ∈ set.rules) :
    (∀ other index, .subscript other index ∈ rule.condition.nodes → other = base) ∧
    (∀ fields, .object fields ∈ rule.condition.nodes → (fields.map Prod.fst).Nodup) ∧
    (∀ value, .scalar value ∈ rule.condition.nodes → value.IsScalar) ∧
    ∀ e, rule.expression = .ok e → ∀ x, .literal x ∈ e.nodes → x.isFinite = true := by
  have hcondition := (h.isSound rule hrule).condition
  refine ⟨?_, ?_, ?_, ?_⟩
  · exact fun other index hnode => hcondition _ hnode
  · exact fun fields hnode => hcondition _ hnode
  · exact fun value hnode => (hcondition _ hnode).1
  · intro e he x hnode
    exact (Template.finite_of_toExpr hcondition he).leaf (Expr.mem_leaves.mpr ⟨hnode, rfl⟩)

theorem condition_of_reachable_settled :
    ∃ set : RuleSet, ∃ rule ∈ set.rules, Reachable "x" set ∧
      rule.condition =
        .ofExpr (.binary (.var "a") (.compare .lt) (.literal (.ofInt 1))) ∧
      (∀ other index, .subscript other index ∈ rule.condition.nodes → other = "x") ∧
      (∀ fields, .object fields ∈ rule.condition.nodes → (fields.map Prod.fst).Nodup) ∧
      (∀ value, .scalar value ∈ rule.condition.nodes → value.IsScalar) ∧
      ∀ e, rule.expression = .ok e → ∀ x, .literal x ∈ e.nodes → x.isFinite = true := by
  have hjson : (Json.object [("rules", .array [.array [.object [("base", .string "x"),
      ("index", .int 0)], .object [("0", .string "a")]]])]).IsSound := by
    have hzero : (Binary64.ofInt 0).isFinite = true := by decide +kernel
    simp [Json.IsSound, Json.nodes, Json.itemNodes, Json.fieldNodes, Json.IsRegular,
      Json.toBinary64?, hzero]
  have hread : Reachable "x" ⟨[⟨.subscript "x" "0", .ofList [("0", .string "a")], [], none⟩],
      .empty⟩ := .read hjson rfl
  have htokenize : tokenize "a < 1" ["a"] =
      .ok [⟨.column "a", 0⟩, ⟨.symbol .lt, 2⟩, ⟨.number (.ofInt 1), 4⟩] := by
    decide +kernel
  have hparse : parse "a < 1" ["a"] =
      .ok (.binary (.var "a") (.compare .lt) (.literal (.ofInt 1))) := by
    rw [parse, htokenize]
    rfl
  have hedit : (Edit.withText 0 "a < 1" ["a"]).IsSound := trivial
  have hsettle : (Edit.settle 0).IsSound := trivial
  have hedited := hread.edit hedit (by
    simp only [RuleSet.apply, change, List.getElem?_cons_zero, Rule.withText_of_parse _ hparse]
    rfl)
  have hsettled := hedited.edit hsettle rfl
  exact ⟨_, _, List.mem_cons_self, hsettled, (accepted_of_parse hparse).concrete_edited "x" _,
    condition_of_reachable hsettled List.mem_cons_self⟩

end RuleSet

end ColumnRules
