import ColumnRules.Proofs.Token.Spelling

/-!
# Text is split into blanks and tokens

The lexer goes over the whole text: every character is a skipped blank or belongs to the spelling
of one token, and every token is recorded with the byte at which its spelling starts.
-/

set_option autoImplicit false

namespace ColumnRules

/-- The course of the lexer over the text from the byte `offset` on, behind the character `before`
and the token `last`. -/
inductive Scanned (columns : List String) :
    Option Char → Option Token → Nat → List Char → List Lexeme → Prop where
  | done {before : Option Char} {last : Option Token} {offset : Nat} :
    Scanned columns before last offset [] []
  | blank {before : Option Char} {last : Option Token} {offset : Nat} {c : Char} {s : List Char}
    {lexemes : List Lexeme} (hblank : isBlank c = true)
    (hrest : Scanned columns (some c) last (offset + c.utf8Size) s lexemes) :
    Scanned columns before last offset (c :: s) lexemes
  | token {before : Option Char} {last : Option Token} {offset : Nat} {token : Token}
    {text rest : List Char} {lexemes : List Lexeme} (hspells : Spells columns last token text rest)
    (hcolumn : Recognised columns before (text ++ rest) token)
    (hrest : Scanned columns text.getLast? (some token)
      (offset + (String.ofList text).utf8ByteSize) rest lexemes) :
    Scanned columns before last offset (text ++ rest) (⟨token, offset⟩ :: lexemes)

theorem utf8ByteSize_cons (c : Char) (s : List Char) :
    (String.ofList (c :: s)).utf8ByteSize = c.utf8Size + (String.ofList s).utf8ByteSize := by
  rw [String.ofList_cons, String.utf8ByteSize_append, String.utf8ByteSize_singleton]

theorem getLast?_cons_or (c : Char) (t : List Char) (before : Option Char) :
    (c :: t).getLast?.or before = t.getLast?.or (some c) := by
  rw [List.getLast?_cons]
  cases t.getLast? <;> rfl

/-- The characters that still belong to the last token are passed over first. -/
theorem Lexer.scanned_of_scan {columns : List String} {inside : Nat} {before : Option Char}
    {last : Option Token} {offset : Nat} {s : List Char} {lexemes : List Lexeme}
    (h : scan (columns.map String.toList) inside before last offset s = .ok lexemes) :
    Scanned columns ((s.take inside).getLast?.or before) last
      (offset + (String.ofList (s.take inside)).utf8ByteSize) (s.drop inside) lexemes := by
  induction s generalizing inside before last offset lexemes with
  | nil =>
    cases inside <;> cases h <;> exact .done
  | cons c s ih =>
    cases inside with
    | succ inside =>
      rw [List.take_succ_cons, getLast?_cons_or, utf8ByteSize_cons, ← Nat.add_assoc]
      exact ih h
    | zero =>
      unfold scan at h
      split at h
      · rename_i hblank
        exact .blank hblank (ih h)
      split at h
      · cases h
      rename_i cut hcut
      split at h
      · cases h
      rename_i more hmore
      cases h
      obtain ⟨t, rest, rfl, hextra, hspells⟩ := cuts_of_cutAt hcut
      have hrest := ih hmore
      rw [← hextra, List.take_left, List.drop_left, ← getLast?_cons_or c t none, Option.or_none,
        Nat.add_assoc, ← utf8ByteSize_cons] at hrest
      exact .token hspells (recognised_of_cutAt hcut) hrest

theorem scanned_of_tokenize {source : String} {columns : List String} {lexemes : List Lexeme}
    (h : tokenize source columns = .ok lexemes) :
    Scanned columns none none 0 source.toList lexemes :=
  Lexer.scanned_of_scan h

/-- Blanks and spelled tokens in turn, with blanks at the end. Each token starts at the byte that
its lexeme tells. -/
inductive Splits (columns : List String) :
    Option Token → Nat → List Char → List Lexeme → Prop where
  | blanks {last : Option Token} {offset : Nat} {blanks : List Char}
    (hblanks : ∀ c ∈ blanks, isBlank c = true) : Splits columns last offset blanks []
  | token {last : Option Token} {offset : Nat} {blanks text rest : List Char} {token : Token}
    {lexemes : List Lexeme} (hblanks : ∀ c ∈ blanks, isBlank c = true) (hne : text ≠ [])
    (hspells : Spells columns last token text rest)
    (hrest : Splits columns (some token)
      (offset + (String.ofList blanks).utf8ByteSize + (String.ofList text).utf8ByteSize) rest
      lexemes) :
    Splits columns last offset (blanks ++ (text ++ rest))
      (⟨token, offset + (String.ofList blanks).utf8ByteSize⟩ :: lexemes)

theorem Splits.blank {columns : List String} {last : Option Token} {offset : Nat} {c : Char}
    {s : List Char} {lexemes : List Lexeme} (hc : isBlank c = true)
    (h : Splits columns last (offset + c.utf8Size) s lexemes) :
    Splits columns last offset (c :: s) lexemes := by
  cases h with
  | blanks hblanks => exact .blanks (List.forall_mem_cons.mpr ⟨hc, hblanks⟩)
  | @token _ _ blanks text rest _ _ hblanks hne hspells hrest =>
    rw [Nat.add_assoc offset, ← utf8ByteSize_cons] at hrest ⊢
    exact .token (List.forall_mem_cons.mpr ⟨hc, hblanks⟩) hne hspells hrest

theorem Scanned.splits {columns : List String} {before : Option Char} {last : Option Token}
    {offset : Nat} {s : List Char} {lexemes : List Lexeme}
    (h : Scanned columns before last offset s lexemes) : Splits columns last offset s lexemes := by
  induction h with
  | done => exact .blanks (List.forall_mem_nil _)
  | blank hblank _ ih => exact ih.blank hblank
  | token hspells _ _ ih => exact .token (List.forall_mem_nil _) hspells.ne_nil hspells ih

/-- Nothing of a text is lost when it is cut into tokens. -/
theorem splits_of_tokenize {source : String} {columns : List String} {lexemes : List Lexeme}
    (h : tokenize source columns = .ok lexemes) :
    Splits columns none 0 source.toList lexemes :=
  (scanned_of_tokenize h).splits

/-- Offsets count bytes, and a minus behind a column is no sign. -/
theorem splits_of_tokenize_umlaut :
    let lexemes := [⟨.column "größe m", 0⟩, ⟨.symbol .sub, 10⟩, ⟨.number (.ofInt 1), 11⟩,
      ⟨.symbol .ge, 13⟩, ⟨.number (.ofInt (-5)), 16⟩]
    tokenize "größe m -1 >= -.5e1" ["größe m", "größe"] = .ok lexemes ∧
      Splits ["größe m", "größe"] none 0 "größe m -1 >= -.5e1".toList lexemes := by
  intro lexemes
  have h : tokenize "größe m -1 >= -.5e1" ["größe m", "größe"] = .ok lexemes := by
    decide +kernel
  exact ⟨h, splits_of_tokenize h⟩

end ColumnRules
