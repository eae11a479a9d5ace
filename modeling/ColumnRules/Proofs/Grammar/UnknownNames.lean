import ColumnRules.Proofs.Grammar.Neighbours
import ColumnRules.Proofs.Grammar.Parse
import ColumnRules.Proofs.Token.Junctions

/-!
# Unknown names

A name is reported as unknown only if the text has it as a plain name and it is not declared. The
lexer alone does not ensure this: directly behind a number it makes a plain name of a declared
one. But no reading takes a name directly behind a number.
-/

set_option autoImplicit false

namespace ColumnRules

open Phrase

namespace Lexer

variable {names : List (List Char)} {before : Option Char} {last : Option Token} {offset : Nat}
  {s : List Char} {e : ParseError}

theorem malformed_of_numberCut {width : Nat} (h : numberCut width s = .error e) :
    ∃ cause, e = .malformed cause := by
  unfold numberCut at h
  split at h
  · split at h <;> cases h
    exact ⟨_, rfl⟩
  · cases h
    exact ⟨_, rfl⟩

theorem malformed_of_cutAt {c : Char} (h : cutAt names before last offset c s = .error e) :
    ∃ cause, e = .malformed cause := by
  unfold cutAt at h
  split at h
  · cases h
  split at h
  · exact malformed_of_numberCut h
  split at h
  · exact malformed_of_numberCut h
  split at h
  · cases h
  split at h
  · unfold quotationCut at h
    split at h <;> cases h
    exact ⟨_, rfl⟩
  · unfold symbolCut at h
    split at h
    · cases h
    · split at h <;> cases h
      exact ⟨_, rfl⟩

theorem malformed_of_scan {inside : Nat} (h : scan names inside before last offset s = .error e) :
    ∃ cause, e = .malformed cause := by
  induction s generalizing inside before last offset with
  | nil => cases inside <;> cases h
  | cons c s ih =>
    cases inside with
    | succ inside => exact ih h
    | zero =>
      unfold scan at h
      split at h
      · exact ih h
      split at h
      · cases h
        exact malformed_of_cutAt ‹_›
      split at h
      · cases h
        exact ih ‹_›
      · cases h

end Lexer

mutual

/-- A name that no expression is made of is one of the phrase. -/
theorem mem_names_of_ofPhrase {word : String} : ∀ {phrase : Phrase},
    Expr.ofPhrase phrase = .error (.unknownIdentifier word) → word ∈ phrase.names
  | .number _, h | .column _, h | .foreign _, h => by cases h
  | .name _, h => by
    cases h
    exact List.mem_singleton_self _
  | .list items, h => by
    unfold Expr.ofPhrase at h
    split at h
    · cases h
      exact mem_namesOf_of_ofPhrases ‹_›
    · cases h
  | .binary _ left right, h => by
    unfold Expr.ofPhrase at h
    split at h
    · cases h
    split at h
    · cases h
    split at h
    · cases h
      exact List.mem_append_left _ (mem_names_of_ofPhrase ‹_›)
    split at h
    · cases h
      exact List.mem_append_right _ (mem_names_of_ofPhrase ‹_›)
    · cases h
  | .logical _ left right, h => by
    unfold Expr.ofPhrase at h
    split at h
    · cases h
    split at h
    · cases h
      exact List.mem_append_left _ (mem_names_of_ofPhrase ‹_›)
    split at h
    · cases h
      exact List.mem_append_right _ (mem_names_of_ofPhrase ‹_›)
    · cases h

theorem mem_namesOf_of_ofPhrases {word : String} : ∀ {phrases : List Phrase},
    Expr.ofPhrases phrases = .error (.unknownIdentifier word) → word ∈ namesOf phrases
  | [], h => by cases h
  | _ :: _, h => by
    unfold Expr.ofPhrases at h
    split at h
    · cases h
      exact List.mem_append_left _ (mem_names_of_ofPhrase ‹_›)
    split at h
    · cases h
      exact List.mem_append_right _ (mem_namesOf_of_ofPhrases ‹_›)
    · cases h

end

theorem ofTokens_answers (tokens : List Lexeme) :
    Answers (fun phrase => Covers tokens [] phrase.names) (ofTokens tokens) := by
  unfold ofTokens
  split
  · exact ⟨_, rfl⟩
  split
  · exact ⟨_, rfl⟩
  split
  · exact ((CoveringReaders.within _).assignment _).malformed ‹_›
  rename_i node rest hread
  have hcovers := ((CoveringReaders.within _).assignment _).ok hread
  split
  · rename_i hskip
    rcases closing_of_skipSemicolon hskip with rfl | ⟨offset, rfl⟩
    · exact hcovers
    · exact hcovers.closing rfl
  · exact ⟨_, rfl⟩

/-- A declared name could be a plain one only behind a number, and there no name may stand. -/
theorem undeclared_of_apart {columns : List String} {ts : List Token}
    (hhead : ∀ t ∈ ts.head?, t.Undeclared columns)
    (hbehind : ts.IsChain (Token.Behind columns)) (hapart : ts.IsChain Token.Apart) :
    ∀ t ∈ ts, t.Undeclared columns := by
  induction ts with
  | nil => exact List.forall_mem_nil _
  | cons t ts ih =>
    obtain ⟨hbehind, hrest⟩ := List.isChain_cons.mp hbehind
    obtain ⟨hapart, hrest'⟩ := List.isChain_cons.mp hapart
    refine List.forall_mem_cons.mpr ⟨hhead t rfl, ih ?_ hrest hrest'⟩
    intro u hu
    rcases hbehind u hu with ⟨x, rfl⟩ | hundeclared
    · rintro word - rfl
      cases hapart _ hu rfl
    · exact hundeclared

/-- A name that is reported as unknown is a plain name of the text and is not declared. -/
theorem undeclared_of_unknownIdentifier {source : String} {columns : List String} {word : String}
    (h : parse source columns = .error (.unknownIdentifier word)) :
    word ∉ columns ∧ ∃ lexemes, tokenize source columns = .ok lexemes ∧
      ∃ l ∈ lexemes, l.token = .name word := by
  unfold parse at h
  split at h
  · cases h
    obtain ⟨cause, hcause⟩ := Lexer.malformed_of_scan ‹_›
    cases hcause
  rename_i lexemes htokenize
  split at h
  · cases h
    obtain ⟨cause, hcause⟩ := (ofTokens_answers lexemes).malformed ‹_›
    cases hcause
  rename_i phrase hphrase
  obtain ⟨used, hused, hapart, hnames⟩ := (ofTokens_answers lexemes).ok hphrase
  rw [List.append_nil] at hused
  subst hused
  have hname := hnames word (mem_names_of_ofPhrase h)
  obtain ⟨hhead, hbehind⟩ := (scanned_of_tokenize htokenize).behind (.inr (.inl nofun))
  have hhead' : ∀ t ∈ (lexemes.map Lexeme.token).head?, t.Undeclared columns := by
    intro t ht
    rcases hhead t ht with ⟨x, hx⟩ | hundeclared
    · cases hx
    · exact hundeclared
  refine ⟨?_, lexemes, htokenize, List.mem_map.mp hname⟩
  intro hword
  exact undeclared_of_apart hhead' hbehind hapart _ hname word hword rfl

/-- The column `age` begins the unknown name. -/
theorem undeclared_of_unknownIdentifier_ages :
    parse "age > 5 && 2 < ages" ["age", ""] = .error (.unknownIdentifier "ages") ∧
      "ages" ∉ ["age", ""] ∧ ∃ lexemes, tokenize "age > 5 && 2 < ages" ["age", ""] = .ok lexemes ∧
        ∃ l ∈ lexemes, l.token = .name "ages" := by
  have htokenize : tokenize "age > 5 && 2 < ages" ["age", ""] =
      .ok [⟨.column "age", 0⟩, ⟨.symbol .gt, 4⟩, ⟨.number (.ofInt 5), 6⟩, ⟨.symbol .and, 8⟩,
        ⟨.number (.ofInt 2), 11⟩, ⟨.symbol .lt, 13⟩, ⟨.name "ages", 15⟩] := by
    decide +kernel
  have hparse : parse "age > 5 && 2 < ages" ["age", ""] = .error (.unknownIdentifier "ages") := by
    rw [parse, htokenize]
    rfl
  exact ⟨hparse, undeclared_of_unknownIdentifier hparse⟩

end ColumnRules
