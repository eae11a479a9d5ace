import ColumnRules.Proofs.ColumnSet
import ColumnRules.Proofs.Expr.Nodes
import ColumnRules.Proofs.Grammar.Juxtaposition
import ColumnRules.Proofs.RoundTrip.Accepted
import ColumnRules.Proofs.Token.Words

/-!
# Numbers that are shown as columns

A column may be named by digits, and a number may be written in more than one way. So a number that
was read as one can be shown as text that a column has for its name. A whole number then comes back
as the column; a number with a point is split, and its two halves are no rule text. Shown text gives
the names of the expression back just when neither makes a difference.
-/

set_option autoImplicit false

namespace ColumnRules

namespace Expr

/-- What a shown leaf is read as: a number whose text is a column comes back as that column. -/
def rereadLeaf (columns : List String) : Expr → Expr
  | literal x =>
    if String.ofList x.ruleText ∈ columns then var (String.ofList x.ruleText)
    else literal x.shown
  | e => e

/-- A number of whose text a column takes the whole digits and not all. -/
def IsSplit (columns : List String) : Expr → Prop
  | literal x => ∃ word ∈ columns, word.toList = x.leadingDigits ∧ word.toList ≠ x.ruleText
  | _ => False

theorem keepsLeaves_rereadLeaf (columns : List String) : KeepsLeaves (rereadLeaf columns) := by
  intro e h
  cases e with
  | literal x =>
    rw [rereadLeaf]
    split <;> rfl
  | var | subscript => rfl
  | binary | logical | sequence => cases h

end Expr

namespace Words

variable {columns : List String} (h : Words columns)
include h

theorem shows_scans {e : Expr} (hdeclared : e.IsDeclared columns) (hsplit : ¬ e.IsSplit columns) :
    ScansOperand columns (e.nestedText (.identity columns)) (e.rereadLeaf columns).tokens ∧
      Expr.shownDemand.leaf (e.rereadLeaf columns) := by
  have hcolumn : ∀ {word : String}, word ∈ columns →
      ScansOperand columns word.toList [.column word] :=
    fun hword => .column h.parted hword (h _ hword).1
  cases e with
  | literal x =>
    rw [Expr.rereadLeaf, Expr.nestedText]
    by_cases htaken : String.ofList x.ruleText ∈ columns
    · have hscans := hcolumn htaken
      rw [String.toList_ofList] at hscans
      rw [if_pos htaken, Expr.tokens]
      exact ⟨hscans, trivial⟩
    · rw [if_neg htaken, Expr.tokens]
      refine ⟨?_, trivial⟩
      -- A column of its whole digits would be all of its text, which is taken by no column.
      have hread := Binary64.ofText?_ruleText hdeclared
      have hfree : ∀ word ∈ columns, word.toList ≠ x.leadingDigits := by
        intro word hword hlead
        by_cases htext : word.toList = x.ruleText
        · rw [← htext, String.ofList_toList] at htaken
          exact htaken hword
        · exact hsplit ⟨word, hword, hlead, htext⟩
      obtain ⟨negative, s, htext, hs⟩ := Binary64.numeral_ruleText hdeclared
      rw [Binary64.leadingDigits, htext] at hfree
      rw [htext] at hread ⊢
      refine .number h.parted hs hread ((Binary64.isFinite_shown x).trans hdeclared) ?_
      rintro rfl rest hstops
      exact h.columnAt?_numeral hs hfree hstops
  | var name =>
    have htext : Expr.nestedText (.identity columns) (.var name) = name.toList := by
      simp only [Expr.nestedText, Expr.nameText, Bindings.get?_identity hdeclared.1,
        Json.displayText]
    rw [htext]
    exact ⟨hcolumn hdeclared.1, trivial⟩
  | subscript | binary | logical | sequence => exact hdeclared.elim

/-- The halves of a split number stand side by side, as no two operands may. -/
theorem split_scans {x : Binary64} (hx : x.isFinite = true)
    (hsplit : (Expr.literal x).IsSplit columns) :
    ∃ ts, ScansOperand columns x.ruleText ts ∧ ¬ ts.IsChain Token.Joins := by
  obtain ⟨word, hword, hlead, htext⟩ := hsplit
  rcases Binary64.ruleText_cases hx with ⟨hnone, -⟩ | hall | ⟨es, hd, he, hpoint⟩
  · rw [hnone] at hlead
    exact absurd (String.toList_eq_nil_iff.mp hlead) (h word hword).1
  · exact absurd (hlead.trans hall) htext
  · rw [← hlead] at hd hpoint
    obtain ⟨y, hscans⟩ := ScansOperand.split h hword hd he
    rw [hpoint]
    refine ⟨_, hscans, ?_⟩
    intro hchain
    cases (List.isChain_cons.mp hchain).1 _ rfl rfl

end Words

/-- The text is cut into tokens, and if `split` holds two operands stand side by side there. -/
def ScansSplit (columns : List String) (s : List Char) (split : Prop) : Prop :=
  ∃ ts, ScansOperand columns s ts ∧ (split → ¬ ts.IsChain Token.Joins)

namespace ScansSplit

variable {columns : List String} {s t : List Char} {p q : Prop}

theorem mono (h : ScansSplit columns s p) (himp : q → p) : ScansSplit columns s q := by
  obtain ⟨ts, hscans, hsplit⟩ := h
  exact ⟨ts, hscans, fun hq => hsplit (himp hq)⟩

theorem group (h : ScansSplit columns s p) (hparted : Parted columns) :
    ScansSplit columns ('(' :: (s ++ [')'])) p := by
  obtain ⟨ts, hscans, hsplit⟩ := h
  refine ⟨_, hscans.group hparted, ?_⟩
  intro hp hchain
  exact hsplit hp (List.isChain_cons.mp hchain).2.left_of_append

theorem chain (h : ScansSplit columns s p) (ht : ScansSplit columns t q)
    (hparted : Parted columns) (c : Connective) :
    ScansSplit columns (s ++ (Expr.spaced c.symbol.text ++ t)) (p ∨ q) := by
  obtain ⟨ts, hscans, hsplit⟩ := h
  obtain ⟨us, hscans', hsplit'⟩ := ht
  refine ⟨_, hscans.chain hparted c hscans', ?_⟩
  rintro (hp | hq) hchain
  · exact hsplit hp hchain.left_of_append
  · exact hsplit' hq (List.isChain_cons.mp hchain.right_of_append).2

variable {bindings : Bindings}

theorem joined (hparted : Parted columns) (op : LogicalOp) {e : Expr} {es : List Expr}
    (h : ∀ x ∈ e :: es,
      ScansSplit columns (x.nestedText bindings) (∃ leaf ∈ x.leaves, leaf.IsSplit columns)) :
    ScansSplit columns (Expr.joinedText bindings op.surface (e :: es))
      (∃ leaf ∈ (e :: es).flatMap Expr.leaves, leaf.IsSplit columns) := by
  induction es generalizing e with
  | nil =>
    apply (h e List.mem_cons_self).mono
    simp
  | cons e' es ih =>
    have hrest := ih fun x hx => h x (List.mem_cons_of_mem _ hx)
    have hchain := (h e List.mem_cons_self).chain hrest hparted (.logical op)
    rw [Connective.text_symbol_logical] at hchain
    apply hchain.mono
    rw [List.flatMap_cons]
    rintro ⟨leaf, hleaf, hsplit⟩
    rcases List.mem_append.mp hleaf with hleaf | hleaf
    · exact .inl ⟨leaf, hleaf, hsplit⟩
    · exact .inr ⟨leaf, hleaf, hsplit⟩

/-- A split number anywhere in an expression stays split in the text of the whole. -/
theorem nested (hparted : Parted columns) {e : Expr}
    (h : e.Meets ⟨fun leaf => ScansSplit columns (leaf.nestedText bindings) (leaf.IsSplit columns),
      fun n => 0 < n, fun _ => True⟩) :
    ScansSplit columns (e.nestedText bindings) (∃ leaf ∈ e.leaves, leaf.IsSplit columns) := by
  induction e using Expr.induction_cons with
  | literal | var | subscript =>
    rw [Expr.leaves_of_isLeaf rfl]
    apply ScansSplit.mono h
    simp
  | binary left op right ihl ihr =>
    have hchain := ((ihl h.1).chain (ihr h.2) hparted (.binary op)).group hparted
    rw [Connective.text_symbol_binary] at hchain
    rw [Expr.leaves_binary]
    simpa [Expr.nestedText, or_and_right, exists_or] using hchain
  | none op => exact absurd h.1 (Nat.lt_irrefl 0)
  | empty =>
    refine ⟨_, .empty hparted, ?_⟩
    rintro ⟨leaf, hleaf, -⟩
    cases hleaf
  | logical op e es ih =>
    have hall := Expr.allMeet_iff.mp h.2
    have hjoined := (joined hparted op fun x hx => ih x hx (hall x hx)).group hparted
    rw [Expr.leaves_logical]
    simpa [Expr.nestedText] using hjoined
  | sequence e es ih =>
    have hall := Expr.allMeet_iff.mp h.2
    have hjoined := (joined hparted .and fun x hx => ih x hx (hall x hx)).group hparted
    rw [Expr.leaves_sequence]
    simpa [Expr.nestedText, LogicalOp.surface] using hjoined

theorem rule (hparted : Parted columns) {e : Expr}
    (h : e.Meets ⟨fun leaf => ScansSplit columns (leaf.nestedText bindings) (leaf.IsSplit columns),
      fun n => 0 < n, fun _ => True⟩) (hne : e ≠ .sequence []) :
    ScansSplit columns (e.ruleText bindings) (∃ leaf ∈ e.leaves, leaf.IsSplit columns) := by
  have hnested := nested hparted h
  cases e with
  | sequence items =>
    cases items with
    | nil => exact absurd rfl hne
    | cons e es =>
      have hall := Expr.allMeet_iff.mp h.2
      rw [Expr.leaves_sequence]
      exact joined hparted .and fun x hx => nested hparted (hall x hx)
  | literal | var | subscript | binary | logical => exact hnested

end ScansSplit

section Reread

variable {columns : List String} (hwords : Words columns) {e : Expr} (h : Accepted columns e)
  (hne : e ≠ .sequence [])
include hwords h hne

theorem parse_render_reread (hsplit : ∀ leaf ∈ e.leaves, ¬ leaf.IsSplit columns) :
    parse (e.render (.identity columns)) columns =
      .ok (e.mapLeaves (Expr.rereadLeaf columns)).chained := by
  have hcut : e.Meets (cutAs columns (.identity columns) (Expr.rereadLeaf columns)) := by
    refine (h.leaves.and_leaves hsplit).mono ?_ (fun n hn => hn ▸ Nat.two_pos) (fun _ => id)
    exact fun leaf _ hleaf => hwords.shows_scans hleaf.1 hleaf.2
  exact parse_render_of_cut hwords.parted hcut (Expr.keepsLeaves_rereadLeaf columns) hne h.values
    h.height

/-- Text with a split number in it is not accepted. -/
theorem not_isSplit_of_parse_render {f : Expr}
    (hparse : parse (e.render (.identity columns)) columns = .ok f) :
    ∀ leaf ∈ e.leaves, ¬ leaf.IsSplit columns := by
  have hleaves : e.Meets ⟨fun leaf => ScansSplit columns (leaf.nestedText (.identity columns))
      (leaf.IsSplit columns), fun n => 0 < n, fun _ => True⟩ := by
    refine h.leaves.mono ?_ (fun n hn => hn ▸ Nat.two_pos) (fun _ => id)
    intro leaf _ hdeclared
    by_cases hsplit : leaf.IsSplit columns
    · cases leaf with
      | literal x =>
        obtain ⟨ts, hscans, hjoins⟩ := hwords.split_scans hdeclared hsplit
        exact ⟨ts, hscans, fun _ => hjoins⟩
      | var | subscript | binary | logical | sequence => exact hsplit.elim
    · exact ⟨_, (hwords.shows_scans hdeclared hsplit).1, fun hyes => absurd hyes hsplit⟩
  obtain ⟨ts, hscans, hjoins⟩ := ScansSplit.rule hwords.parted hleaves hne
  obtain ⟨lexemes, htokenize, htokens⟩ := hscans.tokenize
  obtain ⟨hderives, -⟩ := derives_of_parse htokenize hparse
  rw [htokens] at hderives
  -- The tokens derive the expression that was read, so none of their neighbours are operands.
  exact fun leaf hleaf hsplit => hjoins ⟨leaf, hleaf, hsplit⟩ hderives.isChain

omit hwords h hne in
/-- Besides the names of the expression those of the columns that its numbers are shown as. -/
theorem mem_varNames_reread {name : String} :
    name ∈ (e.mapLeaves (Expr.rereadLeaf columns)).chained.varNames.names ↔
      name ∈ e.varNames.names ∨
        name ∈ columns ∧ ∃ x, .literal x ∈ e.leaves ∧ name.toList = x.ruleText := by
  rw [Expr.varNames, Expr.varNames, ColumnSet.mem_ofList, ColumnSet.mem_ofList,
    Expr.varList_chained, Expr.mem_varList, Expr.mem_varList,
    Expr.leaves_mapLeaves (Expr.keepsLeaves_rereadLeaf columns), List.mem_map]
  constructor
  · rintro ⟨leaf, hleaf, hname⟩
    cases leaf with
    | literal x =>
      rw [Expr.rereadLeaf] at hname
      split at hname
      · rename_i htaken
        cases hname
        exact .inr ⟨htaken, x, hleaf, String.toList_ofList⟩
      · cases hname
    | var other =>
      cases hname
      exact .inl hleaf
    | subscript | binary | logical | sequence => cases hname
  · rintro (hname | ⟨hcolumn, x, hleaf, htext⟩)
    · exact ⟨_, hname, rfl⟩
    · have hback : String.ofList x.ruleText = name := by rw [← htext, String.ofList_toList]
      refine ⟨_, hleaf, ?_⟩
      rw [Expr.rereadLeaf, hback, if_pos hcolumn]

end Reread

/-- A word has neither sign nor point, so a number with its text is all digits. -/
theorem Words.leadingDigits_eq {columns : List String} (h : Words columns) {word : String}
    (hword : word ∈ columns) {x : Binary64} (hx : x.isFinite = true)
    (htext : word.toList = x.ruleText) : x.leadingDigits = x.ruleText := by
  have hchars := (h word hword).2
  rw [htext] at hchars
  have hminus : isNameChar '-' = false := by decide +kernel
  have hmark : isNameChar '.' = false := by decide +kernel
  rcases Binary64.ruleText_cases hx with ⟨-, s, hsigned⟩ | hall | ⟨es, -, -, hpoint⟩
  · rw [hsigned] at hchars
    have hsign := hchars '-' List.mem_cons_self
    rw [hminus] at hsign
    cases hsign
  · exact hall
  · rw [hpoint] at hchars
    have hinside := hchars '.' (List.mem_append_right _ List.mem_cons_self)
    rw [hmark] at hinside
    cases hinside

/-- Over columns named by words, the names of shown text are those of the expression just when
every number whose whole digits are a column is all of it, and names a column of the expression. -/
theorem varNames_parse_render_iff {source : String} {columns : List String} {e : Expr}
    (hwords : Words columns) (h : parse source columns = .ok e) (hne : e ≠ .sequence []) :
    (∃ f, parse (e.render (.identity columns)) columns = .ok f ∧ f.varNames = e.varNames) ↔
      ∀ x, .literal x ∈ e.nodes → ∀ word ∈ columns, word.toList = x.leadingDigits →
        word.toList = x.ruleText ∧ word ∈ e.varNames.names := by
  have haccepted := accepted_of_parse h
  constructor
  · rintro ⟨f, hparse, hnames⟩ x hnode word hword hlead
    have hleaf : .literal x ∈ e.leaves := Expr.mem_leaves.mpr ⟨hnode, rfl⟩
    have hsplit := not_isSplit_of_parse_render hwords haccepted hne hparse
    have htext : word.toList = x.ruleText :=
      Classical.byContradiction fun hdiff => hsplit _ hleaf ⟨word, hword, hlead, hdiff⟩
    refine ⟨htext, ?_⟩
    rw [parse_render_reread hwords haccepted hne hsplit] at hparse
    cases hparse
    rw [← hnames]
    exact mem_varNames_reread.mpr (.inr ⟨hword, x, hleaf, htext⟩)
  · intro hnumbers
    have hsplit : ∀ leaf ∈ e.leaves, ¬ leaf.IsSplit columns := by
      intro leaf hleaf hsplit
      cases leaf with
      | literal x =>
        obtain ⟨word, hword, hlead, hdiff⟩ := hsplit
        exact hdiff (hnumbers x (Expr.mem_leaves.mp hleaf).1 word hword hlead).1
      | var | subscript | binary | logical | sequence => exact hsplit
    refine ⟨_, parse_render_reread hwords haccepted hne hsplit, ?_⟩
    apply ColumnSet.ext_mem
    intro name
    rw [mem_varNames_reread]
    refine ⟨?_, .inl⟩
    rintro (hname | ⟨hcolumn, x, hleaf, htext⟩)
    · exact hname
    · have hfinite : x.isFinite = true := haccepted.leaves.leaf hleaf
      have hlead := hwords.leadingDigits_eq hcolumn hfinite htext
      exact (hnumbers x (Expr.mem_leaves.mp hleaf).1 name hcolumn (htext.trans hlead.symm)).2

theorem varNames_parse_render_iff_named :
    parse "1 + 01 > 2.5" ["1"] = .ok (.binary (.binary (.var "1") (.arith .add)
      (.literal (.ofInt 1))) (.compare .gt) (.literal ((Decimal.mk 25 (-1)).toBinary64 false))) ∧
    ∃ f, parse ((Expr.binary (.binary (.var "1") (.arith .add) (.literal (.ofInt 1)))
        (.compare .gt) (.literal ((Decimal.mk 25 (-1)).toBinary64 false))).render
          (.identity ["1"])) ["1"] = .ok f ∧ f.varNames = .ofList ["1"] := by
  have htokenize : tokenize "1 + 01 > 2.5" ["1"] =
      .ok [⟨.column "1", 0⟩, ⟨.symbol .add, 2⟩, ⟨.number (.ofInt 1), 4⟩, ⟨.symbol .gt, 7⟩,
        ⟨.number ((Decimal.mk 25 (-1)).toBinary64 false), 9⟩] := by
    decide +kernel
  have hparse : parse "1 + 01 > 2.5" ["1"] = .ok (.binary (.binary (.var "1") (.arith .add)
      (.literal (.ofInt 1))) (.compare .gt)
      (.literal ((Decimal.mk 25 (-1)).toBinary64 false))) := by
    rw [parse, htokenize]
    rfl
  have hone : (Binary64.ofInt 1).ruleText = ['1'] := by decide +kernel
  have hhalf : ((Decimal.mk 25 (-1)).toBinary64 false).leadingDigits = ['2'] := by decide +kernel
  have hwords : Words ["1"] := by decide +kernel
  refine ⟨hparse, (varNames_parse_render_iff hwords hparse nofun).mpr ?_⟩
  intro x hnode word hword hlead
  obtain rfl := List.mem_singleton.mp hword
  simp only [Expr.nodes, List.cons_append, List.nil_append, List.mem_cons, List.not_mem_nil,
    reduceCtorEq, false_or, or_false, Expr.literal.injEq] at hnode
  rcases hnode with hx | hx
  · rw [hx, hone]
    exact ⟨rfl, ColumnSet.mem_ofList.mpr List.mem_cons_self⟩
  · rw [hx, hhalf] at hlead
    cases hlead

/-- With a column `1` the number `01` is shown as that column. -/
theorem not_forall_varNames_parse_render :
    ¬ ∀ (source : String) (columns : List String) (e : Expr), Words columns →
      parse source columns = .ok e → e ≠ .sequence [] →
      ∃ f, parse (e.render (.identity columns)) columns = .ok f ∧ f.varNames = e.varNames := by
  intro h
  have htokenize : tokenize "01 > 2" ["1"] =
      .ok [⟨.number (.ofInt 1), 0⟩, ⟨.symbol .gt, 3⟩, ⟨.number (.ofInt 2), 5⟩] := by
    decide +kernel
  have hparse : parse "01 > 2" ["1"] =
      .ok (.binary (.literal (.ofInt 1)) (.compare .gt) (.literal (.ofInt 2))) := by
    rw [parse, htokenize]
    rfl
  have hrender : (Expr.binary (.literal (.ofInt 1)) (.compare .gt) (.literal (.ofInt 2))).render
      (.identity ["1"]) = "(1 > 2)" := by
    decide +kernel
  have hagain : tokenize "(1 > 2)" ["1"] =
      .ok [⟨.leftParen, 0⟩, ⟨.column "1", 1⟩, ⟨.symbol .gt, 3⟩, ⟨.number (.ofInt 2), 5⟩,
        ⟨.rightParen, 6⟩] := by
    decide +kernel
  have hreparse : parse "(1 > 2)" ["1"] =
      .ok (.binary (.var "1") (.compare .gt) (.literal (.ofInt 2))) := by
    rw [parse, hagain]
    rfl
  obtain ⟨f, hf, hnames⟩ := h _ _ _ (by decide +kernel) hparse nofun
  rw [hrender, hreparse] at hf
  cases hf
  have hempty := congrArg ColumnSet.names hnames
  revert hempty
  decide

end ColumnRules
