import ColumnRules.Parse
import ColumnRules.Proofs.Token.Splits

/-!
# Columns are recognised by their names

Each token of a text is a column just where a declared name stands at a boundary, and then the
longest of these. Order and repetitions of the names, the empty name and names that do not occur
in the text change nothing, neither the expression nor the error.
-/

set_option autoImplicit false

namespace ColumnRules

theorem getLast?_append_or {text : List Char} (hne : text ≠ []) (front : List Char)
    (before : Option Char) :
    (text ++ front).getLast?.or before = front.getLast?.or text.getLast? := by
  rw [List.getLast?_append, Option.or_assoc, List.getLast?_eq_some_getLast hne, Option.some_or]

/-- Every lexeme stands at its offset, and there it is recognised. -/
theorem Scanned.recognised {columns : List String} {before : Option Char} {last : Option Token}
    {offset : Nat} {s : List Char} {lexemes : List Lexeme}
    (h : Scanned columns before last offset s lexemes) :
    ∀ l ∈ lexemes, ∃ front behind, s = front ++ behind ∧
      l.offset = offset + (String.ofList front).utf8ByteSize ∧
      Recognised columns (front.getLast?.or before) behind l.token := by
  induction h with
  | done => exact List.forall_mem_nil _
  | @blank _ _ _ c s _ _ _ ih =>
    intro l hl
    obtain ⟨front, behind, rfl, hoffset, hrecognised⟩ := ih l hl
    refine ⟨c :: front, behind, rfl, ?_, ?_⟩
    · rw [hoffset, utf8ByteSize_cons, Nat.add_assoc]
    · rwa [getLast?_cons_or]
  | @token _ _ _ _ text rest _ hspells hcolumn _ ih =>
    intro l hl
    rcases List.mem_cons.mp hl with rfl | hl
    · exact ⟨[], text ++ rest, rfl, rfl, hcolumn⟩
    · obtain ⟨front, behind, rfl, hoffset, hrecognised⟩ := ih l hl
      refine ⟨text ++ front, behind, (List.append_assoc ..).symm, ?_, ?_⟩
      · rw [hoffset, String.ofList_append, String.utf8ByteSize_append, Nat.add_assoc]
      · rwa [getLast?_append_or hspells.ne_nil]

/-- The same names that occur in the text are declared. The empty name does not count. -/
def SameNames (columns columns' : List String) (s : List Char) : Prop :=
  ∀ word : String, word ≠ "" → word.toList <:+: s → (word ∈ columns ↔ word ∈ columns')

theorem Stands.occurs {s : List Char} {word : String} (h : Stands s word) : word.toList <:+: s := by
  obtain ⟨rest, rfl, -⟩ := h
  exact (List.prefix_append _ _).isInfix

namespace SameNames

variable {columns columns' : List String} {s : List Char}

theorem tail {c : Char} (h : SameNames columns columns' (c :: s)) : SameNames columns columns' s :=
  fun word hne hoccurs => h word hne (hoccurs.trans (List.suffix_cons c s).isInfix)

variable (h : SameNames columns columns' s)
include h

theorem columnAt?_eq : Lexer.columnAt? (columns.map String.toList) s =
    Lexer.columnAt? (columns'.map String.toList) s := by
  cases hfound : Lexer.columnAt? (columns'.map String.toList) s with
  | none =>
    apply Lexer.columnAt?_eq_none_iff.mpr
    intro word hword hstands
    by_contra hne
    have hword' := (h word hne hstands.occurs).mp hword
    exact hne (Lexer.columnAt?_eq_none_iff.mp hfound word hword' hstands)
  | some name =>
    have hname : name = (String.ofList name).toList := String.toList_ofList.symm
    rw [hname] at hfound ⊢
    obtain ⟨hword, hne, hstands, hlongest⟩ := Lexer.columnAt?_eq_some_iff.mp hfound
    refine Lexer.columnAt?_eq_some_iff.mpr ⟨(h _ hne hstands.occurs).mpr hword, hne, hstands, ?_⟩
    intro other hother hstands'
    by_cases hempty : other = ""
    · rw [hempty]
      exact Nat.zero_le _
    · exact hlongest other ((h other hempty hstands'.occurs).mp hother) hstands'

theorem scan_eq (inside : Nat) (before : Option Char) (last : Option Token) (offset : Nat) :
    Lexer.scan (columns.map String.toList) inside before last offset s =
      Lexer.scan (columns'.map String.toList) inside before last offset s := by
  induction s generalizing inside before last offset with
  | nil => cases inside <;> rfl
  | cons c s ih =>
    have hrest := ih h.tail
    cases inside with
    | succ inside => exact hrest ..
    | zero => simp only [Lexer.scan, Lexer.cutAt, Lexer.boundaryColumn?, h.columnAt?_eq, hrest]

end SameNames

theorem SameNames.parse_eq {source : String} {columns columns' : List String}
    (h : SameNames columns columns' source.toList) : parse source columns = parse source columns' := by
  rw [parse, parse, tokenize, tokenize, h.scan_eq]

/-- Columns are the longest matches at boundaries, and only the names that occur in the text
matter. -/
theorem columns_recognised (source : String) (columns : List String) :
    (∀ lexemes, tokenize source columns = .ok lexemes → ∀ l ∈ lexemes, ∃ front behind,
      source.toList = front ++ behind ∧ l.offset = (String.ofList front).utf8ByteSize ∧
      Recognised columns front.getLast? behind l.token) ∧
    ∀ columns', SameNames columns columns' source.toList →
      parse source columns = parse source columns' := by
  constructor
  · intro lexemes h l hl
    obtain ⟨front, behind, hsource, hoffset, hrecognised⟩ := (scanned_of_tokenize h).recognised l hl
    rw [Nat.zero_add] at hoffset
    rw [Option.or_none] at hrecognised
    exact ⟨front, behind, hsource, hoffset, hrecognised⟩
  · exact fun _ hsame => hsame.parse_eq

/-- A repeated name, the empty name and one that does not occur change nothing. The word `ages` is
no column, although one of the names begins it. -/
theorem columns_recognised_group :
    let source := "age group > age && ages > 2"
    let columns := ["age", "", "age group", "age"]
    let columns' := ["age group", "unrelated", "age"]
    let lexemes := [⟨.column "age group", 0⟩, ⟨.symbol .gt, 10⟩, ⟨.column "age", 12⟩,
      ⟨.symbol .and, 16⟩, ⟨.name "ages", 19⟩, ⟨.symbol .gt, 24⟩, ⟨.number (.ofInt 2), 26⟩]
    tokenize source columns = .ok lexemes ∧
      (∀ l ∈ lexemes, ∃ front behind, source.toList = front ++ behind ∧
        l.offset = (String.ofList front).utf8ByteSize ∧
        Recognised columns front.getLast? behind l.token) ∧
      SameNames columns columns' source.toList ∧ parse source columns = parse source columns' := by
  intro source columns columns' lexemes
  have h : tokenize source columns = .ok lexemes := by decide +kernel
  have hunrelated : ¬ "unrelated".toList <:+: source.toList := by decide +kernel
  have hsame : SameNames columns columns' source.toList := by
    intro word hne hoccurs
    have hother : word ≠ "unrelated" := by
      rintro rfl
      exact hunrelated hoccurs
    simp only [columns, columns', List.mem_cons, hne, hother, List.not_mem_nil]
    tauto
  have hrecognised := columns_recognised source columns
  exact ⟨h, hrecognised.1 lexemes h, hsame, hrecognised.2 columns' hsame⟩

end ColumnRules
