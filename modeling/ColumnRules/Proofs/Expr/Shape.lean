import ColumnRules.Expr.Basic
import Mathlib.Data.List.Basic

/-!
# Shapes of expressions

Conditions and values, two measures of height, demands on the nodes of an expression and changes
of its leaves. A change of leaves that leaves them leaves touches none of the rest.
-/

set_option autoImplicit false

namespace ColumnRules.Expr

/-- Induction on an expression, with the statement at hand for all operands of a list. -/
@[elab_as_elim]
theorem induction {motive : Expr → Prop} (literal : ∀ x, motive (.literal x))
    (var : ∀ name, motive (.var name)) (subscript : ∀ base index, motive (.subscript base index))
    (binary : ∀ left op right, motive left → motive right → motive (.binary left op right))
    (logical : ∀ op operands, (∀ e ∈ operands, motive e) → motive (.logical op operands))
    (sequence : ∀ items, (∀ e ∈ items, motive e) → motive (.sequence items)) (e : Expr) :
    motive e :=
  @Expr.rec motive (fun es => ∀ e ∈ es, motive e) literal var subscript
    (fun left op right => binary left op right) logical sequence
    (fun _ h => absurd h List.not_mem_nil) (fun _ _ h hs => List.forall_mem_cons.mpr ⟨h, hs⟩) e

/-- Induction that tells the empty lists from those with a first item. -/
@[elab_as_elim]
theorem induction_cons {motive : Expr → Prop} (literal : ∀ x, motive (.literal x))
    (var : ∀ name, motive (.var name)) (subscript : ∀ base index, motive (.subscript base index))
    (binary : ∀ left op right, motive left → motive right → motive (.binary left op right))
    (none : ∀ op, motive (.logical op [])) (empty : motive (.sequence []))
    (logical : ∀ op e es, (∀ x ∈ e :: es, motive x) → motive (.logical op (e :: es)))
    (sequence : ∀ e es, (∀ x ∈ e :: es, motive x) → motive (.sequence (e :: es))) (e : Expr) :
    motive e := by
  induction e using Expr.induction with
  | literal x => exact literal x
  | var name => exact var name
  | subscript base index => exact subscript base index
  | binary left op right ihl ihr => exact binary left op right ihl ihr
  | logical op operands ih =>
    cases operands with
    | nil => exact none op
    | cons e es => exact logical op e es ih
  | sequence items ih =>
    cases items with
    | nil => exact empty
    | cons e es => exact sequence e es ih

def isLeaf : Expr → Bool
  | literal _ | var _ | subscript _ _ => true
  | _ => false

/-- Nodes that yield a truth value: comparisons, joined conditions and sequences. -/
def isCondition : Expr → Bool
  | binary _ op _ => op.isComparison
  | logical _ _ | sequence _ => true
  | _ => false

mutual

/-- No comparison has a condition as an operand. -/
def comparesValues : Expr → Bool
  | binary left op right =>
    !(op.isComparison && (left.isCondition || right.isCondition)) &&
      (left.comparesValues && right.comparesValues)
  | logical _ operands => allCompareValues operands
  | sequence items => allCompareValues items
  | _ => true

def allCompareValues : List Expr → Bool
  | [] => true
  | e :: es => e.comparesValues && allCompareValues es

end

mutual

/-- The height of an expression. A sequence counts one more level for every further item. -/
def height : Expr → Nat
  | binary left _ right => max left.height right.height + 1
  | logical _ operands => tallest operands + 1
  | sequence items => tallest items + (items.length - 1) + 1
  | _ => 1

def tallest : List Expr → Nat
  | [] => 0
  | e :: es => max e.height (tallest es)

end

mutual

/-- The height of the chains that the lists of an expression are shown as. A list of one item
adds no node to a chain, only parentheses, and still counts a level. -/
def chainHeight : Expr → Nat
  | binary left _ right => max left.chainHeight right.chainHeight + 1
  | logical _ operands => tallestChain operands + max 1 (operands.length - 1)
  | sequence items => tallestChain items + max 1 (items.length - 1)
  | _ => 1

def tallestChain : List Expr → Nat
  | [] => 0
  | e :: es => max e.chainHeight (tallestChain es)

end

/-- What is asked of the nodes of an expression: of every leaf, and of the number of operands of
every logical node and of every sequence. -/
structure Demand where
  leaf : Expr → Prop
  operands : Nat → Prop
  items : Nat → Prop

mutual

def Meets (d : Demand) : Expr → Prop
  | binary left _ right => left.Meets d ∧ right.Meets d
  | logical _ operands => d.operands operands.length ∧ AllMeet d operands
  | sequence items => d.items items.length ∧ AllMeet d items
  | e => d.leaf e

def AllMeet (d : Demand) : List Expr → Prop
  | [] => True
  | e :: es => e.Meets d ∧ AllMeet d es

end

mutual

def mapLeaves (f : Expr → Expr) : Expr → Expr
  | binary left op right => binary (left.mapLeaves f) op (right.mapLeaves f)
  | logical op operands => logical op (mapAllLeaves f operands)
  | sequence items => sequence (mapAllLeaves f items)
  | e => f e

def mapAllLeaves (f : Expr → Expr) : List Expr → List Expr
  | [] => []
  | e :: es => e.mapLeaves f :: mapAllLeaves f es

end

def KeepsLeaves (f : Expr → Expr) : Prop := ∀ e : Expr, e.isLeaf = true → (f e).isLeaf = true

attribute [local simp] comparesValues allCompareValues height tallest chainHeight tallestChain
  Meets AllMeet mapLeaves mapAllLeaves

theorem allCompareValues_iff {es : List Expr} :
    allCompareValues es = true ↔ ∀ e ∈ es, e.comparesValues = true := by
  induction es with
  | nil => simp [allCompareValues]
  | cons e es ih => simp [allCompareValues, ih]

theorem allMeet_iff {d : Demand} {es : List Expr} : AllMeet d es ↔ ∀ e ∈ es, e.Meets d := by
  induction es with
  | nil => simp [AllMeet]
  | cons e es ih => simp [AllMeet, ih]

theorem mapAllLeaves_eq (f : Expr → Expr) (es : List Expr) :
    mapAllLeaves f es = es.map (mapLeaves f) := by
  induction es with
  | nil => rfl
  | cons e es ih => rw [mapAllLeaves, ih, List.map_cons]

theorem tallest_le_iff {es : List Expr} {n : Nat} :
    tallest es ≤ n ↔ ∀ e ∈ es, e.height ≤ n := by
  induction es with
  | nil => simp [tallest]
  | cons e es ih => rw [tallest, Nat.max_le, ih, List.forall_mem_cons]

theorem tallestChain_le_iff {es : List Expr} {n : Nat} :
    tallestChain es ≤ n ↔ ∀ e ∈ es, e.chainHeight ≤ n := by
  induction es with
  | nil => simp [tallestChain]
  | cons e es ih => rw [tallestChain, Nat.max_le, ih, List.forall_mem_cons]

theorem height_le_tallest {e : Expr} {es : List Expr} (h : e ∈ es) : e.height ≤ tallest es :=
  tallest_le_iff.mp (Nat.le_refl _) e h

theorem chainHeight_le_tallestChain {e : Expr} {es : List Expr} (h : e ∈ es) :
    e.chainHeight ≤ tallestChain es :=
  tallestChain_le_iff.mp (Nat.le_refl _) e h

/-- A list stands at least as high as its chain. -/
theorem chainHeight_le_height (e : Expr)
    (h : e.Meets ⟨fun _ => True, fun n => n ≤ 2, fun _ => True⟩) : e.chainHeight ≤ e.height := by
  induction e using Expr.induction with
  | literal | var | subscript => exact Nat.le_refl 1
  | binary left op right ihl ihr =>
    have hl := ihl h.1
    have hr := ihr h.2
    simp only [chainHeight, height]
    omega
  | logical op operands ih =>
    have hle : tallestChain operands ≤ tallest operands :=
      tallestChain_le_iff.mpr fun e he =>
        Nat.le_trans (ih e he (allMeet_iff.mp h.2 e he)) (height_le_tallest he)
    have hlength : operands.length ≤ 2 := h.1
    simp only [chainHeight, height]
    omega
  | sequence items ih =>
    have hle : tallestChain items ≤ tallest items :=
      tallestChain_le_iff.mpr fun e he =>
        Nat.le_trans (ih e he (allMeet_iff.mp h.2 e he)) (height_le_tallest he)
    simp only [chainHeight, height]
    omega

theorem Meets.mono {d d' : Demand} {e : Expr} (h : e.Meets d)
    (hleaf : ∀ e, e.isLeaf = true → d.leaf e → d'.leaf e)
    (hoperands : ∀ n, d.operands n → d'.operands n) (hitems : ∀ n, d.items n → d'.items n) :
    e.Meets d' := by
  induction e using Expr.induction with
  | literal | var | subscript => exact hleaf _ rfl h
  | binary left op right ihl ihr => exact ⟨ihl h.1, ihr h.2⟩
  | logical op operands ih =>
    exact ⟨hoperands _ h.1, allMeet_iff.mpr fun e he => ih e he (allMeet_iff.mp h.2 e he)⟩
  | sequence items ih =>
    exact ⟨hitems _ h.1, allMeet_iff.mpr fun e he => ih e he (allMeet_iff.mp h.2 e he)⟩

section MapLeaves

variable {f : Expr → Expr}

theorem KeepsLeaves.comp {g : Expr → Expr} (hf : KeepsLeaves f) (hg : KeepsLeaves g) :
    KeepsLeaves fun e => f (g e) :=
  fun e he => hf (g e) (hg e he)

theorem length_mapAllLeaves (es : List Expr) : (mapAllLeaves f es).length = es.length := by
  rw [mapAllLeaves_eq, List.length_map]

theorem isCondition_of_isLeaf {e : Expr} (h : e.isLeaf = true) : e.isCondition = false := by
  cases e with
  | literal | var | subscript => rfl
  | binary | logical | sequence => cases h

theorem comparesValues_of_isLeaf {e : Expr} (h : e.isLeaf = true) : e.comparesValues = true := by
  cases e with
  | literal | var | subscript => rfl
  | binary | logical | sequence => cases h

theorem chainHeight_of_isLeaf {e : Expr} (h : e.isLeaf = true) : e.chainHeight = 1 := by
  cases e with
  | literal | var | subscript => rfl
  | binary | logical | sequence => cases h

theorem meets_of_isLeaf {d : Demand} {e : Expr} (h : e.isLeaf = true) : e.Meets d ↔ d.leaf e := by
  cases e with
  | literal | var | subscript => exact Iff.rfl
  | binary | logical | sequence => cases h

variable (hf : KeepsLeaves f)
include hf

theorem isCondition_mapLeaves (e : Expr) : (e.mapLeaves f).isCondition = e.isCondition := by
  cases e with
  | literal | var | subscript => exact isCondition_of_isLeaf (hf _ rfl)
  | binary | logical | sequence => rfl

theorem comparesValues_mapLeaves (e : Expr) :
    (e.mapLeaves f).comparesValues = e.comparesValues := by
  have hall : ∀ es : List Expr,
      (∀ e ∈ es, (e.mapLeaves f).comparesValues = e.comparesValues) →
      allCompareValues (mapAllLeaves f es) = allCompareValues es := by
    intro es h
    induction es with
    | nil => rfl
    | cons e es ih =>
      rw [mapAllLeaves, allCompareValues, allCompareValues, h e List.mem_cons_self,
        ih fun e he => h e (List.mem_cons_of_mem _ he)]
  induction e using Expr.induction with
  | literal | var | subscript => exact comparesValues_of_isLeaf (hf _ rfl)
  | binary left op right ihl ihr =>
    simp only [mapLeaves, comparesValues, ihl, ihr, isCondition_mapLeaves hf]
  | logical op operands ih => exact hall operands ih
  | sequence items ih => exact hall items ih

theorem chainHeight_mapLeaves (e : Expr) : (e.mapLeaves f).chainHeight = e.chainHeight := by
  have hall : ∀ es : List Expr, (∀ e ∈ es, (e.mapLeaves f).chainHeight = e.chainHeight) →
      tallestChain (mapAllLeaves f es) = tallestChain es := by
    intro es h
    induction es with
    | nil => rfl
    | cons e es ih =>
      rw [mapAllLeaves, tallestChain, tallestChain, h e List.mem_cons_self,
        ih fun e he => h e (List.mem_cons_of_mem _ he)]
  induction e using Expr.induction with
  | literal | var | subscript => exact chainHeight_of_isLeaf (hf _ rfl)
  | binary left op right ihl ihr => simp only [mapLeaves, chainHeight, ihl, ihr]
  | logical op operands ih =>
    simp only [mapLeaves, chainHeight, hall operands ih, length_mapAllLeaves]
  | sequence items ih => simp only [mapLeaves, chainHeight, hall items ih, length_mapAllLeaves]

theorem mapLeaves_ne_empty {e : Expr} (h : e ≠ sequence []) : e.mapLeaves f ≠ sequence [] := by
  have hleaf : ∀ e : Expr, e.isLeaf = true → f e ≠ sequence [] := by
    intro e he heq
    have := hf e he
    rw [heq] at this
    cases this
  cases e with
  | literal | var | subscript => exact hleaf _ rfl
  | binary | logical => exact nofun
  | sequence items =>
    cases items with
    | nil => exact absurd rfl h
    | cons => exact nofun

theorem meets_mapLeaves {d : Demand} (e : Expr) :
    (e.mapLeaves f).Meets d ↔ e.Meets ⟨fun e => d.leaf (f e), d.operands, d.items⟩ := by
  have hall : ∀ es : List Expr,
      (∀ e ∈ es, (e.mapLeaves f).Meets d ↔ e.Meets ⟨fun e => d.leaf (f e), d.operands, d.items⟩) →
      (AllMeet d (mapAllLeaves f es) ↔
        AllMeet ⟨fun e => d.leaf (f e), d.operands, d.items⟩ es) := by
    intro es h
    rw [allMeet_iff, allMeet_iff, mapAllLeaves_eq, List.forall_mem_map]
    exact ⟨fun hs e he => (h e he).mp (hs e he), fun hs e he => (h e he).mpr (hs e he)⟩
  induction e using Expr.induction with
  | literal | var | subscript => exact meets_of_isLeaf (hf _ rfl)
  | binary left op right ihl ihr => exact and_congr ihl ihr
  | logical op operands ih =>
    simp only [mapLeaves, Meets, length_mapAllLeaves, hall operands ih]
  | sequence items ih => simp only [mapLeaves, Meets, length_mapAllLeaves, hall items ih]

end MapLeaves

theorem mapLeaves_mapLeaves {f g : Expr → Expr} (hg : KeepsLeaves g) (e : Expr) :
    (e.mapLeaves g).mapLeaves f = e.mapLeaves fun e => f (g e) := by
  have hleaf : ∀ e : Expr, e.isLeaf = true → e.mapLeaves f = f e := by
    intro e h
    cases e with
    | literal | var | subscript => rfl
    | binary | logical | sequence => cases h
  induction e using Expr.induction with
  | literal | var | subscript => exact hleaf _ (hg _ rfl)
  | binary left op right ihl ihr => simp only [mapLeaves, ihl, ihr]
  | logical op operands ih =>
    simp only [mapLeaves, mapAllLeaves_eq, List.map_map, logical.injEq, true_and]
    exact List.map_congr_left ih
  | sequence items ih =>
    simp only [mapLeaves, mapAllLeaves_eq, List.map_map, sequence.injEq]
    exact List.map_congr_left ih

theorem mapLeaves_eq_self {d : Demand} {f : Expr → Expr} {e : Expr} (h : e.Meets d)
    (hf : ∀ e : Expr, e.isLeaf = true → d.leaf e → f e = e) : e.mapLeaves f = e := by
  induction e using Expr.induction with
  | literal | var | subscript => exact hf _ rfl h
  | binary left op right ihl ihr => rw [mapLeaves, ihl h.1, ihr h.2]
  | logical op operands ih =>
    have hall := allMeet_iff.mp h.2
    rw [mapLeaves, mapAllLeaves_eq, List.map_congr_left fun e he => ih e he (hall e he),
      List.map_id']
  | sequence items ih =>
    have hall := allMeet_iff.mp h.2
    rw [mapLeaves, mapAllLeaves_eq, List.map_congr_left fun e he => ih e he (hall e he),
      List.map_id']

theorem varLists_eq (es : List Expr) : varLists es = es.flatMap varList := by
  induction es with
  | nil => rfl
  | cons e es ih => rw [varLists, ih, List.flatMap_cons]

theorem varList_mapLeaves {f : Expr → Expr}
    (hf : ∀ e : Expr, e.isLeaf = true → (f e).varList = e.varList) (e : Expr) :
    (e.mapLeaves f).varList = e.varList := by
  have hall : ∀ es : List Expr, (∀ e ∈ es, (e.mapLeaves f).varList = e.varList) →
      varLists (mapAllLeaves f es) = varLists es := by
    intro es h
    rw [varLists_eq, varLists_eq, mapAllLeaves_eq, List.flatMap_map]
    exact List.flatMap_congr h
  induction e using Expr.induction with
  | literal | var | subscript => exact hf _ rfl
  | binary left op right ihl ihr => simp only [mapLeaves, varList, ihl, ihr]
  | logical op operands ih => simpa only [mapLeaves, varList] using hall operands ih
  | sequence items ih => simpa only [mapLeaves, varList] using hall items ih

end ColumnRules.Expr
