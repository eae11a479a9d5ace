import ColumnRules.Proofs.Expr.Shape
import ColumnRules.Proofs.Grammar.Derivation
import ColumnRules.Proofs.Token.Splits

/-!
# What accepted text may name

Every column that is cut off was declared under a name, and every number is finite. So are the
leaves of an expression that the tokens derive.
-/

set_option autoImplicit false

namespace ColumnRules

def Token.Declared (columns : List String) : Token → Prop
  | column word => word ∈ columns ∧ word ≠ ""
  | number x => x.isFinite = true
  | _ => True

theorem Spells.declared {columns : List String} {last : Option Token} {token : Token}
    {text rest : List Char} (h : Spells columns last token text rest) : token.Declared columns := by
  cases h with
  | column hword hne => exact ⟨hword, hne⟩
  | number _ _ hx => exact hx
  | name | quotation | symbol => trivial
  | punctuation hmark =>
    unfold Token.ofPunctuation? at hmark
    split at hmark <;> cases hmark <;> trivial

theorem Scanned.declared {columns : List String} {before : Option Char} {last : Option Token}
    {offset : Nat} {s : List Char} {lexemes : List Lexeme}
    (h : Scanned columns before last offset s lexemes) :
    ∀ l ∈ lexemes, l.token.Declared columns := by
  induction h with
  | done => exact List.forall_mem_nil _
  | blank _ _ ih => exact ih
  | token hspells _ _ ih => exact List.forall_mem_cons.mpr ⟨hspells.declared, ih⟩

theorem declared_of_tokenize {source : String} {columns : List String} {lexemes : List Lexeme}
    (h : tokenize source columns = .ok lexemes) :
    ∀ t ∈ lexemes.map Lexeme.token, t.Declared columns := by
  intro t ht
  obtain ⟨l, hl, rfl⟩ := List.mem_map.mp ht
  exact (scanned_of_tokenize h).declared l hl

def Expr.IsDeclared (columns : List String) : Expr → Prop
  | literal x => x.isFinite = true
  | var name => name ∈ columns ∧ name ≠ ""
  | _ => False

mutual

/-- Derived from declared tokens: declared leaves, and two operands to each logical node. -/
theorem Derives.meets {columns : List String} {level : Level} {ts : List Token} {e : Expr} :
    Derives level ts e → (∀ t ∈ ts, t.Declared columns) →
    e.Meets ⟨Expr.IsDeclared columns, fun n => n = 2, fun _ => True⟩
  | .number x, h => h (.number x) List.mem_cons_self
  | .column word, h => h (.column word) List.mem_cons_self
  | .group hinside, h =>
    hinside.meets fun t ht => h t (List.mem_cons_of_mem _ (List.mem_append_left _ ht))
  | .list hitems, h => ⟨trivial, hitems.meets fun t ht => h t (List.mem_cons_of_mem _ ht)⟩
  | .chain c hl hr, h => by
    have hleft := hl.meets fun t ht => h t (List.mem_append_left _ ht)
    have hright := hr.meets fun t ht =>
      h t (List.mem_append_right _ (List.mem_cons_of_mem _ ht))
    cases c with
    | binary op => exact ⟨hleft, hright⟩
    | logical op => exact ⟨rfl, hleft, hright, trivial⟩
  | .operand hinside, h => hinside.meets h

theorem DerivesItems.meets {columns : List String} {ts : List Token} {es : List Expr} :
    DerivesItems ts es → (∀ t ∈ ts, t.Declared columns) →
    Expr.AllMeet ⟨Expr.IsDeclared columns, fun n => n = 2, fun _ => True⟩ es
  | .none, _ => trivial
  | .one hitem, h => ⟨hitem.meets fun t ht => h t (List.mem_append_left _ ht), trivial⟩
  | .more hitem hitems, h =>
    ⟨hitem.meets fun t ht => h t (List.mem_append_left _ ht),
      hitems.meets fun t ht => h t (List.mem_append_right _ (List.mem_cons_of_mem _ ht))⟩

end

theorem DerivesStatement.meets {columns : List String} {ts : List Token} {e : Expr}
    (h : DerivesStatement ts e) (hts : ∀ t ∈ ts, t.Declared columns) :
    e.Meets ⟨Expr.IsDeclared columns, fun n => n = 2, fun _ => True⟩ := by
  cases h with
  | bare h => exact h.meets hts
  | closed h => exact h.meets fun t ht => hts t (List.mem_append_left _ ht)

end ColumnRules
