import ColumnRules.Dictionary
import ColumnRules.Proofs.Expr.Shape
import ColumnRules.Proofs.Number.Numeral
import ColumnRules.Render
import Mathlib.Data.List.Basic

/-!
# What the text of an expression says

Rule text knows neither lists of operands nor bound names. Lists are shown as chains of an
operator with two operands, which group to the left; bound names are shown as their values.
-/

set_option autoImplicit false

namespace ColumnRules.Expr

/-- A chain of an operator, grouped to the left. -/
def chain (op : LogicalOp) (first : Expr) (rest : List Expr) : Expr :=
  rest.foldl (fun left right => logical op [left, right]) first

mutual

/-- Every sequence with items becomes the conjunction of its items. -/
def conjoin : Expr → Expr
  | binary left op right => binary left.conjoin op right.conjoin
  | logical op operands => logical op (conjoinAll operands)
  | sequence [] => sequence []
  | sequence (item :: items) => chain .and item.conjoin (conjoinAll items)
  | e => e

def conjoinAll : List Expr → List Expr
  | [] => []
  | e :: es => e.conjoin :: conjoinAll es

end

mutual

/-- Every logical node with operands and every sequence with items becomes a chain. -/
def chained : Expr → Expr
  | binary left op right => binary left.chained op right.chained
  | logical op [] => logical op []
  | logical op (operand :: operands) => chain op operand.chained (chainedAll operands)
  | sequence [] => sequence []
  | sequence (item :: items) => chain .and item.chained (chainedAll items)
  | e => e

def chainedAll : List Expr → List Expr
  | [] => []
  | e :: es => e.chained :: chainedAll es

end

attribute [local simp] conjoin conjoinAll chained chainedAll

/-- The leaf that the text of a bound value is read as: a number, else a name. -/
def ofShown (value : Json) : Expr :=
  match value.toBinary64? with
  | some x => literal x
  | none => var value.display

def orShown (value? : Option Json) (leaf : Expr) : Expr :=
  match value? with
  | some value => ofShown value
  | none => leaf

/-- A leaf with its name replaced by what is bound to it. -/
def resolveLeaf (bindings : Bindings) : Expr → Expr
  | var name => orShown (bindings.get? name) (var name)
  | subscript base index => orShown (bindings.get? index) (subscript base index)
  | e => e

def resolve (bindings : Bindings) (e : Expr) : Expr := e.mapLeaves (resolveLeaf bindings)

def unsignedZeroLeaf : Expr → Expr
  | literal x => literal x.shown
  | e => e

/-- The expression with the signs of all zeros dropped, as rule text drops them. -/
def unsignedZeros (e : Expr) : Expr := e.mapLeaves unsignedZeroLeaf

theorem conjoinAll_eq (es : List Expr) : conjoinAll es = es.map conjoin := by
  induction es with
  | nil => rfl
  | cons e es ih => rw [conjoinAll, ih, List.map_cons]

theorem chainedAll_eq (es : List Expr) : chainedAll es = es.map chained := by
  induction es with
  | nil => rfl
  | cons e es ih => rw [chainedAll, ih, List.map_cons]

theorem ofShown_string (word : String) : ofShown (.string word) = var word := by
  simp only [ofShown, Json.toBinary64?, Json.display, Json.displayText, String.ofList_toList]

theorem isLeaf_orShown (value? : Option Json) {leaf : Expr} (h : leaf.isLeaf = true) :
    (orShown value? leaf).isLeaf = true := by
  unfold orShown ofShown
  split
  · split <;> rfl
  · exact h

theorem keepsLeaves_resolveLeaf (bindings : Bindings) : KeepsLeaves (resolveLeaf bindings) := by
  intro e h
  cases e with
  | literal => rfl
  | var | subscript => exact isLeaf_orShown _ rfl
  | binary | logical | sequence => cases h

theorem keepsLeaves_unsignedZeroLeaf : KeepsLeaves unsignedZeroLeaf := by
  intro e h
  cases e with
  | literal | var | subscript => rfl
  | binary | logical | sequence => cases h

theorem chain_cons (op : LogicalOp) (first e : Expr) (es : List Expr) :
    chain op first (e :: es) = chain op (logical op [first, e]) es := rfl

/-- With two operands a logical node is its own chain. -/
theorem chained_eq_conjoin (e : Expr)
    (h : e.Meets ⟨fun _ => True, fun n => n = 2, fun _ => True⟩) : e.chained = e.conjoin := by
  induction e using Expr.induction with
  | literal | var | subscript => simp only [chained, conjoin]
  | binary left op right ihl ihr => rw [chained, conjoin, ihl h.1, ihr h.2]
  | logical op operands ih =>
    obtain ⟨a, b, rfl⟩ : ∃ a b, operands = [a, b] := List.length_eq_two.mp h.1
    have hall := allMeet_iff.mp h.2
    have ha := ih a List.mem_cons_self (hall a List.mem_cons_self)
    have hb := ih b (List.mem_cons_of_mem _ List.mem_cons_self)
      (hall b (List.mem_cons_of_mem _ List.mem_cons_self))
    rw [chained, conjoin, chainedAll_eq, conjoinAll_eq, ha]
    simp only [List.map_cons, List.map_nil, hb, chain, List.foldl_cons, List.foldl_nil]
  | sequence items ih =>
    cases items with
    | nil => rw [chained, conjoin]
    | cons item items =>
      have hall := allMeet_iff.mp h.2
      have hitem := ih item List.mem_cons_self (hall item List.mem_cons_self)
      have hitems : items.map chained = items.map conjoin :=
        List.map_congr_left fun e he =>
          ih e (List.mem_cons_of_mem _ he) (hall e (List.mem_cons_of_mem _ he))
      rw [chained, conjoin, chainedAll_eq, conjoinAll_eq, hitem, hitems]

theorem mapLeaves_chain (f : Expr → Expr) (op : LogicalOp) (first : Expr) (rest : List Expr) :
    (chain op first rest).mapLeaves f = chain op (first.mapLeaves f) (rest.map (mapLeaves f)) := by
  induction rest generalizing first with
  | nil => rfl
  | cons e es ih =>
    rw [chain_cons, ih, List.map_cons, chain_cons]
    simp only [mapLeaves, mapAllLeaves_eq, List.map_cons, List.map_nil]

theorem chained_mapLeaves {f : Expr → Expr} (hf : KeepsLeaves f) (e : Expr) :
    (e.mapLeaves f).chained = e.chained.mapLeaves f := by
  have hleaf : ∀ e : Expr, e.isLeaf = true → e.chained = e := by
    intro e h
    cases e with
    | literal | var | subscript => simp only [chained]
    | binary | logical | sequence => cases h
  have hall : ∀ es : List Expr, (∀ x ∈ es, (x.mapLeaves f).chained = x.chained.mapLeaves f) →
      (es.map (mapLeaves f)).map chained = (es.map chained).map (mapLeaves f) := by
    intro es h
    simp only [List.map_map]
    exact List.map_congr_left h
  induction e using Expr.induction_cons with
  | literal | var | subscript =>
    simp only [mapLeaves, chained]
    exact hleaf _ (hf _ rfl)
  | binary left op right ihl ihr => simp only [mapLeaves, chained, ihl, ihr]
  | none | empty => simp only [mapLeaves, mapAllLeaves, chained]
  | logical op e es ih | sequence e es ih =>
    have hes := hall es fun x hx => ih x (List.mem_cons_of_mem _ hx)
    simp only [mapLeaves, mapAllLeaves, chained, chainedAll_eq, mapAllLeaves_eq,
      mapLeaves_chain, ih e List.mem_cons_self, hes]

/-- A chain of conditions grows by one level for every further operand. -/
theorem height_chain (op : LogicalOp) (first : Expr) (rest : List Expr) {n : Nat}
    (hfirst : first.height ≤ n) (hrest : ∀ e ∈ rest, e.height ≤ n) :
    (chain op first rest).height ≤ n + rest.length := by
  induction rest generalizing first n with
  | nil => exact hfirst
  | cons e es ih =>
    have he := hrest e List.mem_cons_self
    have hpair : (logical op [first, e]).height ≤ n + 1 := by
      simp only [height, tallest]
      omega
    have hes := ih (logical op [first, e]) hpair fun x hx =>
      Nat.le_succ_of_le (hrest x (List.mem_cons_of_mem _ hx))
    rw [chain_cons, List.length_cons]
    omega

theorem height_chained_le (e : Expr) : e.chained.height ≤ e.chainHeight := by
  have hlist : ∀ (op : LogicalOp) (e : Expr) (es : List Expr),
      (∀ x ∈ e :: es, x.chained.height ≤ x.chainHeight) →
      (chain op e.chained (chainedAll es)).height ≤
        tallestChain (e :: es) + max 1 ((e :: es).length - 1) := by
    intro op e es h
    have hle : ∀ x ∈ e :: es, x.chained.height ≤ tallestChain (e :: es) := fun x hx =>
      Nat.le_trans (h x hx) (chainHeight_le_tallestChain hx)
    have hchain := height_chain op e.chained (chainedAll es) (hle e List.mem_cons_self) (by
      rw [chainedAll_eq, List.forall_mem_map]
      exact fun x hx => hle x (List.mem_cons_of_mem _ hx))
    rw [chainedAll_eq, List.length_map] at hchain
    rw [chainedAll_eq, List.length_cons]
    omega
  induction e using Expr.induction_cons with
  | literal | var | subscript => simp only [chained, height, chainHeight, Nat.le_refl]
  | binary left op right ihl ihr =>
    simp only [chained, height, chainHeight]
    omega
  | none | empty => simp [chained, height, tallest, chainHeight, tallestChain]
  | logical op e es ih =>
    simp only [chained, chainHeight]
    exact hlist op e es ih
  | sequence e es ih =>
    simp only [chained, chainHeight]
    exact hlist .and e es ih

theorem comparesValues_chain {op : LogicalOp} {first : Expr} {rest : List Expr}
    (hfirst : first.comparesValues = true) (hrest : ∀ e ∈ rest, e.comparesValues = true) :
    (chain op first rest).comparesValues = true := by
  induction rest generalizing first with
  | nil => exact hfirst
  | cons e es ih =>
    have he := hrest e List.mem_cons_self
    rw [chain_cons]
    refine ih ?_ fun x hx => hrest x (List.mem_cons_of_mem _ hx)
    simp [comparesValues, allCompareValues, hfirst, he]

/-- A value stays a value: only lists become chains. -/
theorem isCondition_chained_of_value {e : Expr} (h : e.isCondition = false) :
    e.chained.isCondition = false := by
  cases e with
  | literal | var | subscript => simp only [chained, isCondition]
  | binary => simpa only [chained, isCondition] using h
  | logical | sequence => cases h

theorem comparesValues_chained {e : Expr} (h : e.comparesValues = true) :
    e.chained.comparesValues = true := by
  have hlist : ∀ (op : LogicalOp) (e : Expr) (es : List Expr),
      allCompareValues (e :: es) = true →
      (∀ x ∈ e :: es, x.comparesValues = true → x.chained.comparesValues = true) →
      (chain op e.chained (chainedAll es)).comparesValues = true := by
    intro op e es h ih
    have hall := allCompareValues_iff.mp h
    apply comparesValues_chain (ih e List.mem_cons_self (hall e List.mem_cons_self))
    rw [chainedAll_eq, List.forall_mem_map]
    exact fun x hx => ih x (List.mem_cons_of_mem _ hx) (hall x (List.mem_cons_of_mem _ hx))
  induction e using Expr.induction_cons with
  | literal | var | subscript => simp only [chained, comparesValues]
  | binary left op right ihl ihr =>
    simp only [comparesValues, Bool.and_eq_true, Bool.not_eq_true', Bool.and_eq_false_iff,
      Bool.or_eq_false_iff] at h
    obtain ⟨hop, hl, hr⟩ := h
    simp only [chained, comparesValues, ihl hl, ihr hr, Bool.and_true]
    rcases hop with hop | ⟨hcl, hcr⟩
    · simp [hop]
    · simp [isCondition_chained_of_value hcl, isCondition_chained_of_value hcr]
  | none | empty =>
    rw [chained]
    rfl
  | logical op e es ih =>
    rw [chained]
    exact hlist op e es h ih
  | sequence e es ih =>
    rw [chained]
    exact hlist .and e es h ih

theorem meets_chained {leaf : Expr → Prop} {e : Expr}
    (h : e.Meets ⟨leaf, fun _ => True, fun _ => True⟩) :
    e.chained.Meets ⟨leaf, fun _ => True, fun _ => True⟩ := by
  have hchain : ∀ (op : LogicalOp) (first : Expr) (rest : List Expr),
      first.Meets ⟨leaf, fun _ => True, fun _ => True⟩ →
      (∀ e ∈ rest, e.Meets ⟨leaf, fun _ => True, fun _ => True⟩) →
      (chain op first rest).Meets ⟨leaf, fun _ => True, fun _ => True⟩ := by
    intro op first rest hfirst hrest
    induction rest generalizing first with
    | nil => exact hfirst
    | cons e es ih =>
      rw [chain_cons]
      refine ih _ ?_ fun x hx => hrest x (List.mem_cons_of_mem _ hx)
      exact ⟨trivial, hfirst, hrest e List.mem_cons_self, trivial⟩
  have hlist : ∀ (op : LogicalOp) (e : Expr) (es : List Expr),
      AllMeet ⟨leaf, fun _ => True, fun _ => True⟩ (e :: es) →
      (∀ x ∈ e :: es, x.Meets ⟨leaf, fun _ => True, fun _ => True⟩ →
        x.chained.Meets ⟨leaf, fun _ => True, fun _ => True⟩) →
      (chain op e.chained (chainedAll es)).Meets ⟨leaf, fun _ => True, fun _ => True⟩ := by
    intro op e es h ih
    have hall := allMeet_iff.mp h
    apply hchain op _ _ (ih e List.mem_cons_self (hall e List.mem_cons_self))
    rw [chainedAll_eq, List.forall_mem_map]
    exact fun x hx => ih x (List.mem_cons_of_mem _ hx) (hall x (List.mem_cons_of_mem _ hx))
  induction e using Expr.induction_cons with
  | literal | var | subscript | none | empty => simpa only [chained] using h
  | binary left op right ihl ihr =>
    rw [chained]
    exact ⟨ihl h.1, ihr h.2⟩
  | logical op e es ih =>
    rw [chained]
    exact hlist op e es h.2 ih
  | sequence e es ih =>
    rw [chained]
    exact hlist .and e es h.2 ih

/-- Both infinities and NaN have no text that is read back. -/
def finiteLiterals : Demand where
  leaf
    | literal x => x.isFinite = true
    | _ => True
  operands _ := True
  items _ := True

theorem sameValue_unsignedZeros {e : Expr} (h : e.Meets finiteLiterals) :
    e.unsignedZeros.sameValue e = true := by
  have hall : ∀ es : List Expr,
      (∀ e ∈ es, (e.mapLeaves unsignedZeroLeaf).sameValue e = true) →
      sameValues (mapAllLeaves unsignedZeroLeaf es) es = true := by
    intro es h
    induction es with
    | nil => rfl
    | cons e es ih =>
      rw [mapAllLeaves, sameValues, h e List.mem_cons_self,
        ih fun x hx => h x (List.mem_cons_of_mem _ hx)]
      rfl
  unfold unsignedZeros
  induction e using Expr.induction with
  | literal x => exact Binary64.sameValue_shown h
  | var | subscript => simp [mapLeaves, unsignedZeroLeaf, sameValue]
  | binary left op right ihl ihr => simp [mapLeaves, sameValue, ihl h.1, ihr h.2]
  | logical op operands ih =>
    have hmeet := allMeet_iff.mp h.2
    simp [mapLeaves, sameValue, hall operands fun e he => ih e he (hmeet e he)]
  | sequence items ih =>
    have hmeet := allMeet_iff.mp h.2
    simp [mapLeaves, sameValue, hall items fun e he => ih e he (hmeet e he)]

theorem chained_chain (op : LogicalOp) (first : Expr) (rest : List Expr) :
    (chain op first rest).chained = chain op first.chained (rest.map chained) := by
  induction rest generalizing first with
  | nil => rfl
  | cons e es ih =>
    rw [chain_cons, ih, List.map_cons, chain_cons]
    simp only [chained, chainedAll, chain, List.foldl_cons, List.foldl_nil]

theorem chained_chained (e : Expr) : e.chained.chained = e.chained := by
  have hlist : ∀ (op : LogicalOp) (e : Expr) (es : List Expr),
      (∀ x ∈ e :: es, x.chained.chained = x.chained) →
      (chain op e.chained (chainedAll es)).chained = chain op e.chained (chainedAll es) := by
    intro op e es h
    have hes : (es.map chained).map chained = es.map chained := by
      rw [List.map_map]
      exact List.map_congr_left fun x hx => h x (List.mem_cons_of_mem _ hx)
    rw [chained_chain, chainedAll_eq, hes, h e List.mem_cons_self]
  induction e using Expr.induction_cons with
  | literal | var | subscript | none | empty => simp only [chained]
  | binary left op right ihl ihr => simp only [chained, ihl, ihr]
  | logical op e es ih =>
    simp only [chained]
    exact hlist op e es ih
  | sequence e es ih =>
    simp only [chained]
    exact hlist .and e es ih

theorem varList_chained (e : Expr) : e.chained.varList = e.varList := by
  have hchain : ∀ (op : LogicalOp) (first : Expr) (rest : List Expr),
      (chain op first rest).varList = first.varList ++ rest.flatMap varList := by
    intro op first rest
    induction rest generalizing first with
    | nil => simp [chain]
    | cons e es ih =>
      rw [chain_cons, ih]
      simp [varList, varLists]
  have hlist : ∀ (op : LogicalOp) (e : Expr) (es : List Expr),
      (∀ x ∈ e :: es, x.chained.varList = x.varList) →
      (chain op e.chained (chainedAll es)).varList = varLists (e :: es) := by
    intro op e es h
    rw [hchain, chainedAll_eq, List.flatMap_map, varLists, varLists_eq, h e List.mem_cons_self,
      List.flatMap_congr fun x hx => h x (List.mem_cons_of_mem _ hx)]
  induction e using Expr.induction_cons with
  | literal | var | subscript | none | empty => simp only [chained]
  | binary left op right ihl ihr => simp only [chained, varList, ihl, ihr]
  | logical op e es ih =>
    simp only [chained, varList]
    exact hlist op e es ih
  | sequence e es ih =>
    simp only [chained, varList]
    exact hlist .and e es ih

theorem chained_ne_empty {leaf : Expr → Prop} {e : Expr}
    (h : e.Meets ⟨leaf, fun n => 0 < n, fun n => 0 < n⟩) : e.chained ≠ sequence [] := by
  have hchain : ∀ (op : LogicalOp) (first : Expr) (rest : List Expr),
      first ≠ sequence [] → chain op first rest ≠ sequence [] := by
    intro op first rest hfirst
    induction rest generalizing first with
    | nil => exact hfirst
    | cons e es ih =>
      rw [chain_cons]
      exact ih _ nofun
  induction e using Expr.induction_cons with
  | literal | var | subscript | binary =>
    simp only [chained]
    exact nofun
  | none | empty => exact absurd h.1 (Nat.lt_irrefl 0)
  | logical op e es ih =>
    rw [chained]
    exact hchain op _ _ (ih e List.mem_cons_self h.2.1)
  | sequence e es ih =>
    rw [chained]
    exact hchain .and _ _ (ih e List.mem_cons_self h.2.1)

theorem unsignedZeros_unsignedZeros (e : Expr) :
    e.unsignedZeros.unsignedZeros = e.unsignedZeros := by
  have hleaf : (fun e => unsignedZeroLeaf (unsignedZeroLeaf e)) = unsignedZeroLeaf := by
    funext e
    cases e with
    | literal x => simp only [unsignedZeroLeaf, Binary64.shown_shown]
    | var | subscript | binary | logical | sequence => rfl
  rw [unsignedZeros, unsignedZeros, mapLeaves_mapLeaves keepsLeaves_unsignedZeroLeaf, hleaf]

theorem chained_unsignedZeros (e : Expr) : e.unsignedZeros.chained = e.chained.unsignedZeros :=
  chained_mapLeaves keepsLeaves_unsignedZeroLeaf e

theorem chained_unsignedZeros_stable (e : Expr) :
    e.chained.unsignedZeros.chained.unsignedZeros = e.chained.unsignedZeros := by
  rw [chained_unsignedZeros, chained_chained, unsignedZeros_unsignedZeros]

theorem varList_unsignedZeros (e : Expr) : e.unsignedZeros.varList = e.varList := by
  apply varList_mapLeaves
  intro e he
  cases e with
  | literal | var | subscript => rfl
  | binary | logical | sequence => cases he

end ColumnRules.Expr
