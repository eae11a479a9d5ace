import ColumnRules.Proofs.Token.Columns
import Mathlib.Data.List.TakeWhile

/-!
# How tokens are spelled

What the text of a token looks like, and what may stand in front of it and behind it. Whatever the
lexer cuts off is spelled like that.
-/

set_option autoImplicit false

namespace ColumnRules

/-- Digits, perhaps with a fraction, or a fraction alone. -/
inductive Mantissa : List Char → Prop where
  | numeral {s : List Char} (h : Numeral s) : Mantissa s
  | fraction {ds : List Char} (h : AllDigits ds) : Mantissa ('.' :: ds)

/-- A mark, perhaps a sign, and digits. -/
inductive PowerText : List Char → Prop where
  | unsigned {mark : Char} {ds : List Char} (hmark : mark = 'e' ∨ mark = 'E') (h : AllDigits ds) :
    PowerText (mark :: ds)
  | signed {mark sign : Char} {ds : List Char} (hmark : mark = 'e' ∨ mark = 'E')
    (hsign : sign = '+' ∨ sign = '-') (h : AllDigits ds) : PowerText (mark :: sign :: ds)

inductive NumberText : List Char → Prop where
  | plain {s : List Char} (h : Mantissa s) : NumberText s
  | scaled {s t : List Char} (h : Mantissa s) (ht : PowerText t) : NumberText (s ++ t)

theorem Mantissa.ne_nil {s : List Char} (h : Mantissa s) : s ≠ [] := by
  cases h with
  | numeral h =>
    obtain ⟨c, t, rfl, -⟩ := h.exists_cons
    exact List.cons_ne_nil c t
  | fraction => exact List.cons_ne_nil _ _

theorem NumberText.ne_nil {s : List Char} (h : NumberText s) : s ≠ [] := by
  cases h with
  | plain h => exact h.ne_nil
  | scaled h => exact List.append_ne_nil_of_left_ne_nil h.ne_nil _

/-- No quote stands unguarded in the body of a quotation. A backslash guards the next character. -/
inductive Guarded (quote : Char) : List Char → Prop where
  | nil : Guarded quote []
  | plain {c : Char} {s : List Char} (hquote : c ≠ quote) (hguard : c ≠ '\\')
    (h : Guarded quote s) : Guarded quote (c :: s)
  | escaped {c : Char} {s : List Char} (h : Guarded quote s) : Guarded quote ('\\' :: c :: s)

/-- The token is spelled by the text, behind the token `last` and in front of `rest`. -/
inductive Spells (columns : List String) (last : Option Token) :
    Token → List Char → List Char → Prop where
  | column {word : String} {rest : List Char} (hword : word ∈ columns) (hne : word ≠ "")
    (hrest : EndsWord rest) : Spells columns last (.column word) word.toList rest
  | name {c : Char} {t rest : List Char} (hc : isNameStart c = true)
    (ht : ∀ d ∈ t, isNameChar d = true) (hrest : EndsWord rest) :
    Spells columns last (.name (String.ofList (c :: t))) (c :: t) rest
  | number {negative : Bool} {x : Binary64} {s rest : List Char} (hs : NumberText s)
    (hread : Binary64.ofText? (Binary64.signed negative s) = some x) (hx : x.isFinite = true)
    (hsign : negative = true → ∀ t ∈ last, t.endsOperand = false) :
    Spells columns last (.number x) (Binary64.signed negative s) rest
  | quotation {quote : Char} {body rest : List Char} (hquote : quote = '\'' ∨ quote = '"')
    (hbody : Guarded quote body) :
    Spells columns last (.quotation (String.ofList body)) (quote :: (body ++ [quote])) rest
  | punctuation {c : Char} {token : Token} {rest : List Char}
    (h : Token.ofPunctuation? c = some token) : Spells columns last token [c] rest
  | symbol {op : Symbol} {rest : List Char} (hlongest : ∀ other : Symbol,
      other.text.toList <+: op.text.toList ++ rest → other.text.length ≤ op.text.length) :
    Spells columns last (.symbol op) op.text.toList rest

theorem Symbol.mem_all (op : Symbol) : op ∈ Symbol.all := by
  cases op <;> decide

theorem Symbol.text_ne_nil (op : Symbol) : op.text.toList ≠ [] := by
  cases op <;> decide

theorem Spells.ne_nil {columns : List String} {last : Option Token} {token : Token}
    {text rest : List Char} (h : Spells columns last token text rest) : text ≠ [] := by
  cases h with
  | column _ hne => exact fun heq => hne (String.toList_eq_nil_iff.mp heq)
  | @number negative _ _ _ hs =>
    cases negative with
    | false => exact hs.ne_nil
    | true => exact List.cons_ne_nil _ _
  | name | quotation | punctuation => exact List.cons_ne_nil _ _
  | symbol => exact Symbol.text_ne_nil _

/-- The word stands at the start of the text and is not the beginning of a longer one. -/
def Stands (s : List Char) (word : String) : Prop := ∃ rest, s = word.toList ++ rest ∧ EndsWord rest

/-- A column is taken where one stands and no word goes on: the longest of those that stand there. -/
structure Recognised (columns : List String) (before : Option Char) (s : List Char)
    (token : Token) : Prop where
  found : (∃ word, token = .column word) ↔
    (∀ c ∈ before, isNameChar c = false) ∧ ∃ word ∈ columns, word ≠ "" ∧ Stands s word
  longest : ∀ word, token = .column word → word ∈ columns ∧ word ≠ "" ∧ Stands s word ∧
    ∀ other ∈ columns, Stands s other → other.length ≤ word.length

theorem takeWhile_split (p : Char → Bool) (s : List Char) :
    ∃ t rest, s = t ++ rest ∧ t = s.takeWhile p ∧ (∀ c ∈ t, p c = true) ∧
      ∀ c ∈ rest.head?, p c = false := by
  refine ⟨s.takeWhile p, s.dropWhile p, List.takeWhile_append_dropWhile.symm, rfl, ?_, ?_⟩
  · exact fun c hc => List.mem_takeWhile_imp hc
  · intro c hc
    have hstop := List.head?_dropWhile_not p s
    rw [Option.mem_def.mp hc] at hstop
    exact hstop

namespace Lexer

theorem digits_split (s : List Char) :
    ∃ ds rest, s = ds ++ rest ∧ ds.length = digitCount s ∧ ∀ c ∈ ds, c.isDigit = true := by
  obtain ⟨ds, rest, hs, hds, hdigits, -⟩ := takeWhile_split Char.isDigit s
  exact ⟨ds, rest, hs, congrArg List.length hds, hdigits⟩

theorem fraction_split (s : List Char) : ∃ t rest, s = t ++ rest ∧ t.length = fractionWidth s ∧
    (t = [] ∨ ∃ es, AllDigits es ∧ t = '.' :: es) := by
  unfold fractionWidth
  split
  · rename_i s
    split
    · exact ⟨[], _, rfl, rfl, .inl rfl⟩
    · rename_i hcount
      obtain ⟨es, rest, hs, hlength, hdigits⟩ := digits_split s
      refine ⟨'.' :: es, rest, congrArg _ hs, congrArg _ hlength, .inr ⟨es, ⟨?_, hdigits⟩, rfl⟩⟩
      rintro rfl
      exact hcount hlength.symm
  · exact ⟨[], _, rfl, rfl, .inl rfl⟩

theorem power_split (mark : Char) {sign : List Char}
    (hsign : sign = [] ∨ sign = ['+'] ∨ sign = ['-']) (s : List Char) :
    ∃ t rest, mark :: (sign ++ s) = t ++ rest ∧
      (t.length = if (mark == 'e' || mark == 'E') && digitCount s != 0 then
        1 + sign.length + digitCount s else 0) ∧ (t = [] ∨ PowerText t) := by
  split
  · rename_i h
    rw [Bool.and_eq_true, Bool.or_eq_true, beq_iff_eq, beq_iff_eq, bne_iff_ne] at h
    obtain ⟨hmark, hcount⟩ := h
    obtain ⟨ds, rest, hs, hlength, hall⟩ := digits_split s
    have hds : AllDigits ds := by
      refine ⟨?_, hall⟩
      rintro rfl
      exact hcount hlength.symm
    refine ⟨mark :: (sign ++ ds), rest, ?_, ?_, .inr ?_⟩
    · rw [List.cons_append, List.append_assoc, ← hs]
    · rw [List.length_cons, List.length_append, hlength]
      omega
    · rcases hsign with rfl | rfl | rfl
      · exact .unsigned hmark hds
      · exact .signed hmark (.inl rfl) hds
      · exact .signed hmark (.inr rfl) hds
  · exact ⟨[], _, rfl, rfl, .inl rfl⟩

theorem exponent_split (s : List Char) : ∃ t rest, s = t ++ rest ∧ t.length = exponentWidth s ∧
    (t = [] ∨ PowerText t) := by
  cases s with
  | nil => exact ⟨[], [], rfl, rfl, .inl rfl⟩
  | cons mark s =>
    simp only [exponentWidth]
    split
    · exact power_split mark (.inr (.inl rfl)) _
    · exact power_split mark (.inr (.inr rfl)) _
    · exact power_split mark (.inl rfl) _

theorem Mantissa.of_digits {ds t : List Char} (hds : ∀ c ∈ ds, c.isDigit = true)
    (ht : t = [] ∨ ∃ es, AllDigits es ∧ t = '.' :: es) (hne : ds ++ t ≠ []) : Mantissa (ds ++ t) := by
  by_cases hnil : ds = []
  · subst hnil
    obtain ⟨es, hes, rfl⟩ := ht.resolve_left hne
    exact .fraction hes
  · rcases ht with rfl | ⟨es, hes, rfl⟩
    · rw [List.append_nil]
      exact .numeral (.whole ⟨hnil, hds⟩)
    · exact .numeral (.point ⟨hnil, hds⟩ hes)

theorem digitCount_pos {c : Char} (hc : c.isDigit = true) (s : List Char) : 0 < digitCount (c :: s) := by
  rw [digitCount, List.takeWhile_cons_of_pos hc]
  exact Nat.succ_pos _

/-- A digit, or a point and a digit, begin the digits or the fraction of a number. -/
theorem width_pos {s : List Char} (h : startsNumber s = true) :
    0 < digitCount s + fractionWidth (s.drop (digitCount s)) := by
  unfold startsNumber at h
  split at h
  · rename_i c s
    have hnone : digitCount ('.' :: c :: s) = 0 := rfl
    rw [hnone, List.drop_zero, fractionWidth, if_neg (Nat.ne_of_gt (digitCount_pos h s))]
    omega
  · exact Nat.add_pos_left (digitCount_pos h _) _
  · cases h

theorem number_split {s : List Char} (h : startsNumber s = true) :
    ∃ t rest, s = t ++ rest ∧ t.length = numberWidth s ∧ NumberText t := by
  have hpos := width_pos h
  obtain ⟨ds, s₁, rfl, hlength, hds⟩ := digits_split s
  obtain ⟨t, s₂, rfl, hlength', ht⟩ := fraction_split s₁
  obtain ⟨p, rest, rfl, hlength'', hp⟩ := exponent_split s₂
  rw [← hlength, List.drop_left, ← hlength', ← List.length_append] at hpos
  have hmantissa := Mantissa.of_digits hds ht (List.ne_nil_of_length_pos hpos)
  have hdrop : (ds ++ (t ++ (p ++ rest))).drop (ds.length + t.length) = p ++ rest := by
    rw [← List.drop_drop, List.drop_left, List.drop_left]
  refine ⟨ds ++ t ++ p, rest, by simp, ?_, ?_⟩
  · simp only [numberWidth]
    rw [← hlength, List.drop_left, ← hlength', hdrop, ← hlength'', List.length_append,
      List.length_append]
  · rcases hp with rfl | hp
    · rw [List.append_nil]
      exact .plain hmantissa
    · exact .scaled hmantissa hp

theorem quotation_split {quote : Char} {s : List Char} {width : Nat}
    (h : quotedWidth? quote s = some width) :
    ∃ body rest, s = body ++ quote :: rest ∧ body.length = width ∧ Guarded quote body := by
  fun_induction quotedWidth? quote s generalizing width with
  | case1 => cases h
  | case2 c s hquote =>
    cases h
    obtain rfl := beq_iff_eq.mp hquote
    exact ⟨[], s, rfl, rfl, .nil⟩
  | case3 c hquote hguard d s ih =>
    obtain ⟨width, hwidth, rfl⟩ := Option.map_eq_some_iff.mp h
    obtain rfl := beq_iff_eq.mp hguard
    obtain ⟨body, rest, rfl, hlength, hbody⟩ := ih hwidth
    exact ⟨'\\' :: d :: body, rest, rfl, congrArg (· + 2) hlength, .escaped hbody⟩
  | case4 => cases h
  | case5 c s hquote hguard ih =>
    obtain ⟨width, hwidth, rfl⟩ := Option.map_eq_some_iff.mp h
    rw [beq_iff_eq] at hquote hguard
    obtain ⟨body, rest, rfl, hlength, hbody⟩ := ih hwidth
    exact ⟨c :: body, rest, rfl, congrArg (· + 1) hlength, .plain hquote hguard hbody⟩

end Lexer

theorem Symbol.longest?_eq_some {s : List Char} {op : Symbol} (h : Symbol.longest? s = some op) :
    op.text.toList <+: s ∧
      ∀ other : Symbol, other.text.toList <+: s → other.text.length ≤ op.text.length := by
  have hsorted : Symbol.all.Pairwise fun a b => b.text.length ≤ a.text.length := by decide +kernel
  obtain ⟨hop, as, bs, heq, hfirst⟩ := List.find?_eq_some_iff_append.mp h
  refine ⟨List.isPrefixOf_iff_prefix.mp hop, ?_⟩
  intro other hother
  have hmem := other.mem_all
  rw [heq] at hmem hsorted
  rcases List.mem_append.mp hmem with hmem | hmem
  · have hnot := hfirst other hmem
    rw [List.isPrefixOf_iff_prefix.mpr hother] at hnot
    cases hnot
  · rcases List.mem_cons.mp hmem with rfl | hmem
    · exact Nat.le_refl _
    · exact List.rel_of_pairwise_cons (List.pairwise_append.mp hsorted).2.1 hmem

/-- The token of a cut is spelled by the first character and the ones that the cut takes. -/
def Cuts (columns : List String) (last : Option Token) (c : Char) (s : List Char)
    (cut : Lexer.Cut) : Prop :=
  ∃ t rest, s = t ++ rest ∧ t.length = cut.extra ∧ Spells columns last cut.token (c :: t) rest

theorem Spells.cuts {columns : List String} {last : Option Token} {token : Token}
    {text rest : List Char} {c : Char} {s : List Char} (h : Spells columns last token text rest)
    (heq : c :: s = text ++ rest) : Cuts columns last c s ⟨token, text.length - 1⟩ := by
  obtain ⟨d, t, rfl⟩ := List.exists_cons_of_ne_nil h.ne_nil
  obtain ⟨rfl, rfl⟩ := List.cons.inj heq
  exact ⟨t, rest, rfl, rfl, h⟩

namespace Lexer

section Cutting

variable {columns : List String} {before : Option Char} {last : Option Token} {offset : Nat}
  {c : Char} {s : List Char} {cut : Cut}

theorem cuts_column {name : List Char}
    (h : boundaryColumn? (columns.map String.toList) before (c :: s) = some name) :
    Cuts columns last c s ⟨.column (String.ofList name), name.length - 1⟩ := by
  unfold boundaryColumn? at h
  split at h
  · obtain ⟨hmem, hne, hstands, -⟩ := columnAt?_eq_iff.mp h
    obtain ⟨word, hword, rfl⟩ := List.mem_map.mp hmem
    obtain ⟨rest, hrest, hends⟩ := standsAt_iff.mp hstands
    have hwordne : word ≠ "" := fun heq => hne (String.toList_eq_nil_iff.mpr heq)
    rw [String.ofList_toList]
    exact (Spells.column hword hwordne hends).cuts hrest
  · cases h

theorem cuts_number {negative : Bool} {t rest : List Char} (ht : NumberText t)
    (hsign : negative = true → ∀ t ∈ last, t.endsOperand = false)
    (heq : c :: s = Binary64.signed negative t ++ rest)
    (h : numberCut (Binary64.signed negative t).length (c :: s) = .ok cut) :
    Cuts columns last c s cut := by
  have htake : (c :: s).take (Binary64.signed negative t).length = Binary64.signed negative t := by
    rw [heq, List.take_left]
  unfold numberCut at h
  rw [htake] at h
  split at h
  · rename_i x hread
    split at h
    · rename_i hx
      cases h
      exact (Spells.number ht hread hx hsign).cuts heq
    · cases h
  · cases h

theorem cuts_name (hc : isNameStart c = true) : Cuts columns last c s
    ⟨.name (String.ofList (c :: s.take (s.takeWhile isNameChar).length)),
      (s.takeWhile isNameChar).length⟩ := by
  obtain ⟨t, rest, hs, ht, hchars, hrest⟩ := takeWhile_split isNameChar s
  have htake : s.take t.length = t := by rw [hs, List.take_left]
  rw [← ht, htake]
  exact ⟨t, rest, hs, rfl, .name hc hchars hrest⟩

theorem cuts_quotation (hc : c = '\'' ∨ c = '"') (h : quotationCut c s = .ok cut) :
    Cuts columns last c s cut := by
  unfold quotationCut at h
  split at h
  · rename_i width hwidth
    cases h
    obtain ⟨body, rest, rfl, rfl, hbody⟩ := quotation_split hwidth
    rw [List.take_left]
    refine ⟨body ++ [c], rest, ?_, ?_, .quotation hc hbody⟩
    · rw [List.append_assoc, List.singleton_append]
    · rw [List.length_append, List.length_singleton]
  · cases h

theorem cuts_symbol (h : symbolCut offset c s = .ok cut) : Cuts columns last c s cut := by
  unfold symbolCut at h
  split at h
  · rename_i token htoken
    cases h
    exact ⟨[], s, rfl, rfl, .punctuation htoken⟩
  split at h
  · rename_i op hop
    cases h
    obtain ⟨⟨rest, hrest⟩, hlongest⟩ := Symbol.longest?_eq_some hop
    rw [← hrest] at hlongest
    exact (Spells.symbol hlongest).cuts hrest.symm
  · cases h

/-- The kinds of tokens are tried one after the other. -/
theorem cuts_of_cutAt
    (h : cutAt (columns.map String.toList) before last offset c s = .ok cut) :
    Cuts columns last c s cut := by
  unfold cutAt at h
  split at h
  · rename_i name hname
    cases h
    exact cuts_column hname
  split at h
  · rename_i hnumber
    obtain ⟨t, rest, ht, hlength, htext⟩ := number_split hnumber
    have hsplit : c :: s = Binary64.signed false t ++ rest := ht
    rw [← hlength] at h
    refine cuts_number htext ?_ hsplit h
    exact nofun
  split at h
  · rename_i hsign
    rw [Bool.and_eq_true, Bool.and_eq_true, beq_iff_eq] at hsign
    obtain ⟨⟨rfl, hlast⟩, hnumber⟩ := hsign
    obtain ⟨t, rest, rfl, hlength, htext⟩ := number_split hnumber
    have hsplit : '-' :: (t ++ rest) = Binary64.signed true t ++ rest := rfl
    rw [← hlength] at h
    refine cuts_number htext ?_ hsplit h
    intro _ t ht
    simpa [expectsOperand, Option.mem_def.mp ht] using hlast
  split at h
  · rename_i hc
    cases h
    exact cuts_name hc
  split at h
  · rename_i hquote
    rw [Bool.or_eq_true, beq_iff_eq, beq_iff_eq] at hquote
    exact cuts_quotation hquote h
  · exact cuts_symbol h

theorem not_column_of_numberCut {width : Nat} (h : numberCut width s = .ok cut) (word : String) :
    cut.token ≠ .column word := by
  unfold numberCut at h
  split at h
  · split at h <;> cases h
    exact nofun
  · cases h

theorem not_column_of_symbolCut (h : symbolCut offset c s = .ok cut) (word : String) :
    cut.token ≠ .column word := by
  unfold symbolCut at h
  split at h
  · rename_i token htoken
    cases h
    rintro rfl
    unfold Token.ofPunctuation? at htoken
    split at htoken <;> cases htoken
  · split at h <;> cases h
    exact nofun

/-- The token is a column just where one is found at a boundary. -/
theorem column_iff_of_cutAt {names : List (List Char)}
    (h : cutAt names before last offset c s = .ok cut) (word : String) :
    cut.token = .column word ↔ boundaryColumn? names before (c :: s) = some word.toList := by
  unfold cutAt at h
  split at h
  · rename_i name hname
    cases h
    rw [hname, Token.column.injEq, Option.some.injEq, ← String.toList_inj, String.toList_ofList]
  · rename_i hnone
    rw [hnone]
    refine iff_of_false ?_ nofun
    split at h
    · exact not_column_of_numberCut h word
    split at h
    · exact not_column_of_numberCut h word
    split at h
    · cases h
      exact nofun
    split at h
    · unfold quotationCut at h
      split at h <;> cases h
      exact nofun
    · exact not_column_of_symbolCut h word

theorem atBoundary_iff {before : Option Char} :
    atBoundary before = true ↔ ∀ c ∈ before, isNameChar c = false := by
  cases before <;> simp [atBoundary]

theorem columnAt?_eq_some_iff {word : String} :
    columnAt? (columns.map String.toList) s = some word.toList ↔
      word ∈ columns ∧ word ≠ "" ∧ Stands s word ∧
        ∀ other ∈ columns, Stands s other → other.length ≤ word.length := by
  have hmem : word.toList ∈ columns.map String.toList ↔ word ∈ columns := by
    simp [String.toList_inj]
  simp only [columnAt?_eq_iff, Longest, List.forall_mem_map, hmem, String.length_toList, ne_eq,
    String.toList_eq_nil_iff, standsAt_iff]
  rfl

theorem columnAt?_eq_none_iff :
    columnAt? (columns.map String.toList) s = none ↔ ∀ word ∈ columns, Stands s word → word = "" := by
  simp only [columnAt?_eq_iff, Longest, List.forall_mem_map, String.toList_eq_nil_iff, standsAt_iff]
  rfl

theorem recognised_of_cutAt
    (h : cutAt (columns.map String.toList) before last offset c s = .ok cut) :
    Recognised columns before (c :: s) cut.token := by
  have hcolumn (word : String) : cut.token = .column word ↔
      (∀ c ∈ before, isNameChar c = false) ∧
        columnAt? (columns.map String.toList) (c :: s) = some word.toList := by
    rw [column_iff_of_cutAt h, boundaryColumn?, Option.ite_none_right_eq_some, atBoundary_iff]
  constructor
  · constructor
    · rintro ⟨word, hword⟩
      obtain ⟨hbefore, hfound⟩ := (hcolumn word).mp hword
      obtain ⟨hmem, hne, hstands, -⟩ := columnAt?_eq_some_iff.mp hfound
      exact ⟨hbefore, word, hmem, hne, hstands⟩
    · rintro ⟨hbefore, word, hmem, hne, hstands⟩
      cases hfound : columnAt? (columns.map String.toList) (c :: s) with
      | none => exact absurd (columnAt?_eq_none_iff.mp hfound word hmem hstands) hne
      | some name =>
        refine ⟨String.ofList name, (hcolumn _).mpr ⟨hbefore, ?_⟩⟩
        rw [hfound, String.toList_ofList]
  · intro word hword
    exact columnAt?_eq_some_iff.mp ((hcolumn word).mp hword).2

end Cutting

end Lexer

end ColumnRules
