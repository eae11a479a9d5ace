import ColumnRules.Proofs.Grammar.Soundness
import Mathlib.Data.List.Basic

/-!
# The parser implements the grammar

The tokens of a text that is accepted derive its expression, and what the tokens derive is the
answer, unless it compares conditions or is given up as too deep.
-/

set_option autoImplicit false

namespace ColumnRules

open Phrase

def Closing (ls : List Lexeme) : Prop := ls = [] ∨ ∃ offset, ls = [⟨.semicolon, offset⟩]

theorem Closing.follows {ls : List Lexeme} (h : Closing ls) : Follows 0 ls := by
  rcases h with rfl | ⟨offset, rfl⟩ <;> trivial

theorem Closing.skipSemicolon {ls : List Lexeme} (h : Closing ls) : skipSemicolon ls = [] := by
  rcases h with rfl | ⟨offset, rfl⟩ <;> rfl

theorem closing_of_skipSemicolon {ls : List Lexeme} (h : Phrase.skipSemicolon ls = []) :
    Closing ls := by
  unfold Phrase.skipSemicolon at h
  split at h
  · subst h
    exact .inr ⟨_, rfl⟩
  · exact .inl h

theorem startsStatement?_of_starts {ls rest : List Lexeme} (h : Starts (ls.map Lexeme.token)) :
    startsStatement? (ls ++ rest) = none := by
  obtain ⟨t, us, hls, ht⟩ := h
  obtain ⟨⟨token, offset⟩, ls', rfl, rfl, -⟩ := List.map_eq_cons_iff.mp hls
  cases token with
  | number | column | leftParen | leftBracket => rfl
  | _ => cases ht

/-- Tokens that are read as an expression make up its phrase, if there is room for the readings
and the expression is not too high. -/
theorem ofTokens_of_reads {ls closing : List Lexeme} {e : Expr} {need : Nat}
    (h : Reads .or (ls.map Lexeme.token) e need) (hclosing : Closing closing) :
    (ofTokens (ls ++ closing) = .error tooDeep ∧ (maxNesting < need ∨ maxHeight < e.height)) ∨
      ∃ phrase, Lowers phrase e ∧ ofTokens (ls ++ closing) = .ok phrase := by
  obtain ⟨hstart, phrase, hlowers, hresumes⟩ := h
  have hempty : (ls ++ closing).isEmpty = false := by
    obtain ⟨t, us, hls, -⟩ := hstart
    obtain ⟨l, ls', rfl, -, -⟩ := List.map_eq_cons_iff.mp hls
    rfl
  have hassignment : (Readers.within (maxNesting + 1)).assignment =
      readAssignment (Readers.within maxNesting) := rfl
  simp only [ofTokens, hempty, startsStatement?_of_starts hstart, hassignment, if_false,
    Bool.false_eq_true]
  rcases hresumes.assignment maxNesting _ rfl hclosing.follows with ⟨herror, hwhy⟩ | hread
  · exact .inl ⟨by simp only [herror], hwhy⟩
  · exact .inr ⟨phrase, hlowers, by simp only [hread, hclosing.skipSemicolon]⟩

/-- The expression of a phrase that tokens make up is derived from them and is not too high. -/
theorem derives_of_ofTokens {tokens : List Lexeme} {phrase : Phrase} {e : Expr}
    (h : ofTokens tokens = .ok phrase) (he : Expr.ofPhrase phrase = .ok e) :
    DerivesStatement (tokens.map Lexeme.token) e ∧ e.height ≤ maxHeight := by
  unfold ofTokens at h
  split at h
  · cases h
  split at h
  · cases h
  split at h
  · cases h
  rename_i node rest hread
  split at h
  · rename_i hskip
    cases h
    obtain ⟨⟨used, rfl, hderives⟩, -, hbounded⟩ :=
      (SoundReaders.within _).assignment _ _ _ _ hread he
    refine ⟨?_, hbounded⟩
    rcases closing_of_skipSemicolon hskip with rfl | ⟨offset, rfl⟩
    · rw [List.append_nil]
      exact .bare hderives
    · rw [List.map_append]
      exact .closed hderives
  · cases h

theorem DerivesStatement.ofTokens {tokens : List Lexeme} {e : Expr}
    (h : DerivesStatement (tokens.map Lexeme.token) e) :
    (Phrase.ofTokens tokens = .error tooDeep ∧
      (maxNesting < tokens.length ∨ maxHeight < e.height)) ∨
      ∃ phrase, Lowers phrase e ∧ Phrase.ofTokens tokens = .ok phrase := by
  have hstatement : ∃ ls closing, tokens = ls ++ closing ∧ Closing closing ∧
      Derives .or (ls.map Lexeme.token) e := by
    generalize hts : tokens.map Lexeme.token = ts at h
    cases h with
    | bare h => exact ⟨tokens, [], (List.append_nil _).symm, .inl rfl, hts ▸ h⟩
    | closed h =>
      obtain ⟨ls, closing, rfl, rfl, hclosing⟩ := List.map_eq_append_iff.mp hts
      obtain ⟨⟨token, offset⟩, rest, rfl, rfl, hnil⟩ := List.map_eq_cons_iff.mp hclosing
      obtain rfl := List.map_eq_nil_iff.mp hnil
      exact ⟨ls, _, rfl, .inr ⟨offset, rfl⟩, h⟩
  obtain ⟨ls, closing, rfl, hclosing, hderives⟩ := hstatement
  obtain ⟨need, hneed, hreads⟩ := hderives.reads
  rw [List.length_map] at hneed
  rcases ofTokens_of_reads hreads hclosing with ⟨herror, hwhy⟩ | hread
  · refine .inl ⟨herror, hwhy.imp_left ?_⟩
    intro hroom
    rw [List.length_append]
    omega
  · exact .inr hread

theorem parse_eq_of_lowers {source : String} {columns : List String} {lexemes : List Lexeme}
    {phrase : Phrase} {e : Expr} (h : tokenize source columns = .ok lexemes)
    (hphrase : ofTokens lexemes = .ok phrase) (hlowers : Lowers phrase e) :
    parse source columns =
      if e.comparesValues = true then .ok e else .error .chainedComparison := by
  simp only [parse, h, hphrase, hlowers.value]

theorem tokenize_of_parse {source : String} {columns : List String} {e : Expr}
    (h : parse source columns = .ok e) : ∃ lexemes, tokenize source columns = .ok lexemes := by
  unfold parse at h
  split at h
  · cases h
  · rename_i lexemes htokenize
    exact ⟨lexemes, htokenize⟩

theorem derives_of_parse {source : String} {columns : List String} {lexemes : List Lexeme}
    {e : Expr} (h : tokenize source columns = .ok lexemes) (he : parse source columns = .ok e) :
    DerivesStatement (lexemes.map Lexeme.token) e ∧ e.height ≤ maxHeight ∧
      e.comparesValues = true := by
  have hparse := he
  simp only [parse, h] at he
  split at he
  · cases he
  rename_i phrase hphrase
  obtain ⟨hderives, hbounded⟩ := derives_of_ofTokens hphrase he
  refine ⟨hderives, hbounded, ?_⟩
  rcases hderives.ofTokens with ⟨herror, -⟩ | ⟨phrase', hlowers, hread⟩
  · rw [hphrase] at herror
    cases herror
  · rw [parse_eq_of_lowers h hread hlowers] at hparse
    split at hparse
    · assumption
    · cases hparse

/-- The parser answers what the grammar derives. It refuses derived text only because a condition
is compared, or as too deep: that takes more tokens than readings may nest or too high a tree. -/
theorem parse_implements_grammar {source : String} {columns : List String} {lexemes : List Lexeme}
    (h : tokenize source columns = .ok lexemes) :
    (∀ e, parse source columns = .ok e →
      DerivesStatement (lexemes.map Lexeme.token) e ∧ e.comparesValues = true) ∧
    (∀ e, DerivesStatement (lexemes.map Lexeme.token) e →
      parse source columns =
        (if e.comparesValues = true then .ok e else .error .chainedComparison) ∨
      parse source columns = .error tooDeep ∧
        (maxNesting < lexemes.length ∨ maxHeight < e.height)) ∧
    tooDeep.message = "input is not a single expression statement: " ++
      "expression nests deeper than 128 levels" := by
  refine ⟨?_, ?_, rfl⟩
  · intro e he
    obtain ⟨hderives, -, hvalues⟩ := derives_of_parse h he
    exact ⟨hderives, hvalues⟩
  · intro e hderives
    rcases hderives.ofTokens with ⟨herror, hwhy⟩ | ⟨phrase, hlowers, hphrase⟩
    · exact .inr ⟨by simp only [parse, h, herror], hwhy⟩
    · exact .inl (parse_eq_of_lowers h hphrase hlowers)

theorem parse_implements_grammar_shifted :
    ∃ lexemes, tokenize "a < (b + -1);" ["a", "b"] = .ok lexemes ∧
      (∀ e, parse "a < (b + -1);" ["a", "b"] = .ok e →
        DerivesStatement (lexemes.map Lexeme.token) e ∧ e.comparesValues = true) ∧
      (∀ e, DerivesStatement (lexemes.map Lexeme.token) e →
        parse "a < (b + -1);" ["a", "b"] =
          (if e.comparesValues = true then .ok e else .error .chainedComparison) ∨
        parse "a < (b + -1);" ["a", "b"] = .error tooDeep ∧
          (maxNesting < lexemes.length ∨ maxHeight < e.height)) ∧
      tooDeep.message = "input is not a single expression statement: " ++
        "expression nests deeper than 128 levels" := by
  have h : tokenize "a < (b + -1);" ["a", "b"] =
      .ok [⟨.column "a", 0⟩, ⟨.symbol .lt, 2⟩, ⟨.leftParen, 4⟩, ⟨.column "b", 5⟩,
        ⟨.symbol .add, 7⟩, ⟨.number (.ofInt (-1)), 9⟩, ⟨.rightParen, 11⟩, ⟨.semicolon, 12⟩] := by
    decide +kernel
  exact ⟨_, h, parse_implements_grammar h⟩

end ColumnRules
