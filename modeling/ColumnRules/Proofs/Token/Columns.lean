import ColumnRules.Proofs.Number.Numeral
import ColumnRules.Token.Lexer

/-!
# Columns that are found again

A column list is parted when its names start with name characters and none goes on behind another
one with what may stand behind an operand of shown text. Then the name that stands at a place is
the one found there, and none is found where no name starts. It is plain when its names start like
names, which no numeral does.
-/

set_option autoImplicit false

namespace ColumnRules

theorem inRanges_eq_false {ranges : List (Nat × Nat)} {point : Nat}
    (h : ∀ range ∈ ranges, point < range.1) : inRanges ranges point = false := by
  apply List.any_eq_false.mpr
  intro range hmem hrange
  rw [Bool.and_eq_true, decide_eq_true_eq] at hrange
  exact Nat.not_lt_of_le hrange.1 (h range hmem)

theorem isNameChar_ascii {c : Char} (h : c.toNat < 128) :
    isNameChar c = (c == '_' || c == '$' || c.isAlpha || c.isDigit) := by
  have hletters : ∀ range ∈ Letters.ranges, 128 ≤ range.1 := by decide +kernel
  have hnumerals : ∀ range ∈ Numerals.ranges, 128 ≤ range.1 := by decide +kernel
  have hletter := inRanges_eq_false fun range hrange => Nat.lt_of_lt_of_le h (hletters range hrange)
  have hnumeral :=
    inRanges_eq_false fun range hrange => Nat.lt_of_lt_of_le h (hnumerals range hrange)
  rw [isNameChar, isNameStart, isLetter, isNumeral, hletter, hnumeral, Bool.or_false, Bool.or_false]

/-- An ASCII character that is no name character: none of the tables is needed to see it. -/
def isAsciiMark (c : Char) : Bool :=
  decide (c.toNat < 128) && !(c == '_' || c == '$' || c.isAlpha || c.isDigit)

theorem not_isNameChar_of_isAsciiMark {c : Char} (h : isAsciiMark c = true) :
    isNameChar c = false := by
  rw [isAsciiMark, Bool.and_eq_true, decide_eq_true_eq, Bool.not_eq_true'] at h
  rw [isNameChar_ascii h.1, h.2]

/-- The first characters of the operators of the rule language. -/
def operatorChars : List Char := ['+', '-', '*', '/', '<', '>', '=', '!', '&', '|']

/-- What a name must not go on with behind another name. -/
def continuesOperand : List Char → Bool
  | [' '] => true
  | ')' :: _ => true
  | ' ' :: c :: _ => operatorChars.contains c
  | _ => false

structure Parted (columns : List String) : Prop where
  starts : ∀ name ∈ columns, ∀ c ∈ name.toList.head?, isNameChar c = true
  apart : ∀ name ∈ columns, ∀ other ∈ columns, other ≠ "" → ∀ x : List Char,
    name.toList = other.toList ++ x → continuesOperand x = false

structure Plain (columns : List String) : Prop where
  starts : ∀ name ∈ columns, ∀ c ∈ name.toList.head?, isNameStart c = true
  apart : ∀ name ∈ columns, ∀ other ∈ columns, other ≠ "" → ∀ x : List Char,
    name.toList = other.toList ++ x → continuesOperand x = false

theorem Plain.parted {columns : List String} (h : Plain columns) : Parted columns where
  starts name hname c hc := isNameChar_of_isNameStart (h.starts name hname c hc)
  apart := h.apart

theorem plain_iff {columns : List String} : Plain columns ↔
    (∀ name ∈ columns, name.toList.head?.all isNameStart = true) ∧
    ∀ name ∈ columns, ∀ other ∈ columns, other ≠ "" → other.toList <+: name.toList →
      continuesOperand (name.toList.drop other.toList.length) = false := by
  have hstart : ∀ name : String, name.toList.head?.all isNameStart = true ↔
      ∀ c ∈ name.toList.head?, isNameStart c = true := by
    intro name
    cases name.toList.head? <;> simp
  constructor
  · rintro ⟨hstarts, hapart⟩
    refine ⟨fun name hname => (hstart name).mpr (hstarts name hname), ?_⟩
    intro name hname other hother hne hprefix
    obtain ⟨x, hx⟩ := hprefix
    rw [← hx, List.drop_left]
    exact hapart name hname other hother hne x hx.symm
  · rintro ⟨hstarts, hapart⟩
    refine ⟨fun name hname => (hstart name).mp (hstarts name hname), ?_⟩
    intro name hname other hother hne x hx
    have h := hapart name hname other hother hne ⟨x, hx.symm⟩
    rwa [hx, List.drop_left] at h

instance (columns : List String) : Decidable (Plain columns) :=
  decidable_of_iff _ plain_iff.symm

/-- What stands behind an operand of shown text. -/
inductive Stops : List Char → Prop where
  | nil : Stops []
  | paren (s : List Char) : Stops (')' :: s)
  | operator {c : Char} (h : c ∈ operatorChars) (s : List Char) : Stops (' ' :: c :: s)

theorem Stops.head {P : Char → Prop} (hparen : P ')') (hblank : P ' ') {s : List Char}
    (h : Stops s) : ∀ c ∈ s.head?, P c := by
  intro c hc
  cases h with
  | nil => cases hc
  | paren => cases hc; exact hparen
  | operator => cases hc; exact hblank

theorem Stops.not_isNameChar {s : List Char} (h : Stops s) :
    ∀ c ∈ s.head?, isNameChar c = false :=
  h.head (not_isNameChar_of_isAsciiMark rfl) (not_isNameChar_of_isAsciiMark rfl)

theorem Stops.continues {s x y : List Char} (h : Stops s) (hs : s = x ++ y) (hx : x ≠ []) :
    continuesOperand x = true := by
  obtain ⟨c, x, rfl⟩ := List.exists_cons_of_ne_nil hx
  cases h with
  | nil => cases hs
  | paren => cases hs; rfl
  | operator h =>
    have hc := (List.cons.inj hs).1
    have htail := (List.cons.inj hs).2
    subst hc
    cases x with
    | nil => rfl
    | cons d x =>
      have hd := (List.cons.inj htail).1
      subst hd
      exact List.contains_iff_mem.mpr h

/-- The text ends a word: no name character stands here. -/
def EndsWord (s : List Char) : Prop := ∀ c ∈ s.head?, isNameChar c = false

namespace Lexer

theorem standsAt_iff {s name : List Char} :
    standsAt s name = true ↔ ∃ rest, s = name ++ rest ∧ EndsWord rest := by
  constructor
  · intro h
    simp only [standsAt, Bool.and_eq_true, List.isPrefixOf_iff_prefix] at h
    obtain ⟨⟨rest, rfl⟩, hrest⟩ := h
    rw [List.drop_left] at hrest
    refine ⟨rest, rfl, ?_⟩
    intro c hc
    simpa [Option.mem_def.mp hc] using hrest
  · rintro ⟨rest, rfl, hrest⟩
    have hboundary : rest.head?.any isNameChar = false := by
      cases rest with
      | nil => rfl
      | cons c rest => exact hrest c rfl
    simp [standsAt, hboundary]

/-- What a search among the names finds: the longest that stands at the start of the text, or
nothing where at most the empty one does. -/
def Longest (names : List (List Char)) (s : List Char) : Option (List Char) → Prop
  | none => ∀ name ∈ names, standsAt s name = true → name = []
  | some name => name ∈ names ∧ name ≠ [] ∧ standsAt s name = true ∧
    ∀ other ∈ names, standsAt s other = true → other.length ≤ name.length

variable {names : List (List Char)} {s : List Char}

/-- The names that were tried and one more: that one is found only if it is longer. -/
theorem Longest.append_singleton {best : Option (List Char)} (h : Longest names s best)
    (name : List Char) : Longest (names ++ [name]) s
      (if standsAt s name && (best.getD []).length < name.length then some name else best) := by
  split
  · rename_i hlonger
    rw [Bool.and_eq_true, decide_eq_true_eq] at hlonger
    obtain ⟨hstands, hlength⟩ := hlonger
    refine ⟨List.mem_append_right _ List.mem_cons_self, ?_, hstands, ?_⟩
    · rintro rfl
      exact absurd hlength (Nat.not_lt_zero _)
    · intro other hother hstands'
      rcases List.mem_append.mp hother with hother | hother
      · cases best with
        | none =>
          rw [h other hother hstands']
          exact Nat.zero_le _
        | some best => exact Nat.le_of_lt (Nat.lt_of_le_of_lt (h.2.2.2 other hother hstands') hlength)
      · exact Nat.le_of_eq (congrArg List.length (List.mem_singleton.mp hother))
  · rename_i hshorter
    rw [Bool.and_eq_true, decide_eq_true_eq, not_and, Nat.not_lt] at hshorter
    cases best with
    | none =>
      intro other hother hstands
      rcases List.mem_append.mp hother with hother | hother
      · exact h other hother hstands
      · obtain rfl := List.mem_singleton.mp hother
        exact List.eq_nil_of_length_eq_zero (Nat.le_zero.mp (hshorter hstands))
    | some best =>
      obtain ⟨hmem, hne, hbest, hlongest⟩ := h
      refine ⟨List.mem_append_left _ hmem, hne, hbest, ?_⟩
      intro other hother hstands
      rcases List.mem_append.mp hother with hother | hother
      · exact hlongest other hother hstands
      · obtain rfl := List.mem_singleton.mp hother
        exact hshorter hstands

theorem Longest.foldl {best : Option (List Char)} (h : Longest names s best)
    (more : List (List Char)) : Longest (names ++ more) s (more.foldl (fun best name =>
      if standsAt s name && (best.getD []).length < name.length then some name else best) best) := by
  induction more generalizing names best with
  | nil =>
    rw [List.append_nil]
    exact h
  | cons name more ih =>
    have hrest := ih (h.append_singleton name)
    rwa [List.append_assoc] at hrest

theorem Longest.nil (s : List Char) : Longest [] s none := fun _ h => nomatch h

theorem longest_columnAt? (names : List (List Char)) (s : List Char) :
    Longest names s (columnAt? names s) :=
  (Longest.nil s).foldl names

/-- Names of one length that stand at the same place are the same name. -/
theorem Longest.unique {found found' : Option (List Char)} (h : Longest names s found)
    (h' : Longest names s found') : found = found' := by
  cases found with
  | none =>
    cases found' with
    | none => rfl
    | some name => exact absurd (h name h'.1 h'.2.2.1) h'.2.1
  | some name =>
    cases found' with
    | none => exact absurd (h' name h.1 h.2.2.1) h.2.1
    | some name' =>
      obtain ⟨hmem, -, hstands, hlongest⟩ := h
      obtain ⟨hmem', -, hstands', hlongest'⟩ := h'
      obtain ⟨rest, hrest, -⟩ := standsAt_iff.mp hstands
      obtain ⟨rest', hrest', -⟩ := standsAt_iff.mp hstands'
      have hlength := Nat.le_antisymm (hlongest' name hmem hstands) (hlongest name' hmem' hstands')
      rw [(List.append_inj (hrest.symm.trans hrest') hlength).1]

theorem columnAt?_eq_iff {found : Option (List Char)} :
    columnAt? names s = found ↔ Longest names s found :=
  ⟨fun h => h ▸ longest_columnAt? names s, fun h => (longest_columnAt? names s).unique h⟩

end Lexer

namespace Lexer

/-- No name but the empty one stands where none of the names starts. -/
theorem columnAt?_of_head {columns : List String} {c : Char}
    (h : ∀ name ∈ columns, name.toList.head? ≠ some c) (s : List Char) :
    columnAt? (columns.map String.toList) (c :: s) = none := by
  apply columnAt?_eq_iff.mpr
  intro name hname hstands
  obtain ⟨word, hword, rfl⟩ := List.mem_map.mp hname
  obtain ⟨rest, hrest, -⟩ := standsAt_iff.mp hstands
  cases hcs : word.toList with
  | nil => rfl
  | cons d cs =>
    rw [hcs] at hrest
    obtain ⟨rfl, -⟩ := List.cons.inj hrest
    exact absurd (by rw [hcs]; rfl) (h word hword)

end Lexer

theorem Plain.columnAt?_none {columns : List String} (h : Plain columns) {c : Char}
    (hc : isNameStart c = false) (s : List Char) :
    Lexer.columnAt? (columns.map String.toList) (c :: s) = none := by
  apply Lexer.columnAt?_of_head
  intro name hname hhead
  have hstart := h.starts name hname c hhead
  rw [hc] at hstart
  cases hstart

namespace Parted

variable {columns : List String} (h : Parted columns)
include h

theorem columnAt?_none {c : Char} (hc : isNameChar c = false) (s : List Char) :
    Lexer.columnAt? (columns.map String.toList) (c :: s) = none := by
  apply Lexer.columnAt?_of_head
  intro name hname hhead
  have hstart := h.starts name hname c hhead
  rw [hc] at hstart
  cases hstart

theorem columnAt?_some {word : String} (hword : word ∈ columns) (hne : word ≠ "") {rest : List Char}
    (hrest : Stops rest) :
    Lexer.columnAt? (columns.map String.toList) (word.toList ++ rest) = some word.toList := by
  have hne' : word.toList ≠ [] := fun heq => hne (String.toList_eq_nil_iff.mp heq)
  refine Lexer.columnAt?_eq_iff.mpr ⟨List.mem_map_of_mem hword, hne',
    Lexer.standsAt_iff.mpr ⟨rest, rfl, hrest.not_isNameChar⟩, ?_⟩
  intro name hname hstands
  obtain ⟨other, hother, rfl⟩ := List.mem_map.mp hname
  obtain ⟨behind, hbehind, -⟩ := Lexer.standsAt_iff.mp hstands
  rcases List.append_eq_append_iff.mp hbehind with ⟨x, hx, hrest'⟩ | ⟨x, hx, -⟩
  · by_cases hxne : x = []
    · exact Nat.le_of_eq (by rw [hx, hxne, List.append_nil])
    -- A longer name would go on behind the shorter one.
    · have := hrest.continues hrest' hxne
      rw [h.apart other hother word hword hne x hx] at this
      cases this
  · rw [hx, List.length_append]
    exact Nat.le_add_right _ _

end Parted

end ColumnRules
