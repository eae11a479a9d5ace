import ColumnRules.Proofs.Token.Scanning
import Mathlib.Data.List.Chain

/-!
# Where a declared name is no column

A number does not end at the end of a word, so a name directly behind it is cut off inside a word
and is a plain name even if it is declared. Everywhere else a declared name is a column.
-/

set_option autoImplicit false

namespace ColumnRules

def Token.Undeclared (columns : List String) (t : Token) : Prop :=
  ∀ word ∈ columns, t ≠ .name word

/-- The second token may stand directly behind the first: only behind a number may a declared name
be a plain one. -/
def Token.Behind (columns : List String) (t u : Token) : Prop :=
  (∃ x, t = .number x) ∨ u.Undeclared columns

/-- No word goes on over this place, unless it is a number that ends here. -/
def Unsevered (before : Option Char) (last : Option Token) (s : List Char) : Prop :=
  (∃ x, last = some (.number x)) ∨ (∀ c ∈ before, isNameChar c = false) ∨ EndsWord s

theorem Token.not_isNameChar_of_ofPunctuation? {c : Char} {token : Token}
    (h : Token.ofPunctuation? c = some token) : isNameChar c = false := by
  apply not_isNameChar_of_isAsciiMark
  unfold Token.ofPunctuation? at h
  split at h <;> cases h <;> rfl

theorem Symbol.not_isNameChar (op : Symbol) :
    ∀ c ∈ op.text.toList.getLast?, isNameChar c = false := by
  have hall : (Symbol.all.all fun op => op.text.toList.getLast?.all isAsciiMark) = true := by
    decide +kernel
  intro c hc
  have hlast := List.all_eq_true.mp hall op op.mem_all
  rw [Option.mem_def.mp hc] at hlast
  exact not_isNameChar_of_isAsciiMark hlast

theorem Spells.unsevered {columns : List String} {last : Option Token} {token : Token}
    {text rest : List Char} (h : Spells columns last token text rest) :
    Unsevered text.getLast? (some token) rest := by
  cases h with
  | column _ _ hrest | name _ _ hrest => exact .inr (.inr hrest)
  | number => exact .inl ⟨_, rfl⟩
  | @quotation quote body _ hquote =>
    refine .inr (.inl ?_)
    intro c hc
    rw [← List.cons_append, List.getLast?_concat] at hc
    cases hc
    rcases hquote with rfl | rfl <;> exact not_isNameChar_of_isAsciiMark rfl
  | punctuation hmark =>
    refine .inr (.inl ?_)
    intro c hc
    cases hc
    exact Token.not_isNameChar_of_ofPunctuation? hmark
  | symbol => exact .inr (.inl (Symbol.not_isNameChar _))

/-- Where no word is cut apart, a declared name is a column and not a plain name. -/
theorem Spells.behind {columns : List String} {before : Option Char} {last : Option Token}
    {token : Token} {text rest : List Char} (h : Spells columns last token text rest)
    (hcolumn : Recognised columns before (text ++ rest) token)
    (hwhole : Unsevered before last (text ++ rest)) :
    (∃ x, last = some (.number x)) ∨ token.Undeclared columns := by
  refine hwhole.imp_right ?_
  rintro hword word hmem rfl
  cases h with
  | @name c t _ hc _ hrest =>
    have hbefore : ∀ d ∈ before, isNameChar d = false := by
      apply hword.resolve_right
      intro hends
      have hhead := hends c rfl
      rw [isNameChar_of_isNameStart hc] at hhead
      cases hhead
    have hne : String.ofList (c :: t) ≠ "" := by simp
    have hstands : Stands (c :: t ++ rest) (String.ofList (c :: t)) :=
      ⟨rest, by rw [String.toList_ofList], hrest⟩
    obtain ⟨_, hfound⟩ := hcolumn.found.mpr ⟨hbefore, _, hmem, hne, hstands⟩
    cases hfound
  | punctuation hmark =>
    unfold Token.ofPunctuation? at hmark
    split at hmark <;> cases hmark

theorem Scanned.behind {columns : List String} {before : Option Char} {last : Option Token}
    {offset : Nat} {s : List Char} {lexemes : List Lexeme}
    (h : Scanned columns before last offset s lexemes) (hwhole : Unsevered before last s) :
    (∀ t ∈ (lexemes.map Lexeme.token).head?,
      (∃ x, last = some (.number x)) ∨ t.Undeclared columns) ∧
    (lexemes.map Lexeme.token).IsChain (Token.Behind columns) := by
  induction h with
  | done => exact ⟨nofun, .nil⟩
  | @blank _ _ _ c s _ hblank _ ih =>
    apply ih
    refine hwhole.imp_right fun _ => .inl ?_
    intro d hd
    cases hd
    apply Bool.eq_false_iff.mpr
    intro hname
    rw [not_isBlank_of_isNameChar hname] at hblank
    cases hblank
  | token hspells hcolumn _ ih =>
    obtain ⟨hhead, hchain⟩ := ih hspells.unsevered
    constructor
    · intro t ht
      cases ht
      exact hspells.behind hcolumn hwhole
    · rw [List.map_cons, List.isChain_cons]
      refine ⟨?_, hchain⟩
      intro t ht
      exact (hhead t ht).imp_left fun ⟨x, hx⟩ => ⟨x, Option.some.inj hx⟩

example : tokenize "5age" ["age"] = .ok [⟨.number (.ofInt 5), 0⟩, ⟨.name "age", 1⟩] := by
  decide +kernel

end ColumnRules
