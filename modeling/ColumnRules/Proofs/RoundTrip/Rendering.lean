import ColumnRules.Proofs.Grammar.Parse
import ColumnRules.Proofs.Grammar.Shown
import ColumnRules.Proofs.Token.Scanning

/-!
# Shown text is read back

When the text of every leaf is cut into a number or a declared name, the text of an expression is
cut into its tokens, and those are read as the chains of the expression. Twice the height that a
chain may have is the room there is for nested readings, so neither limit refuses the text.
-/

set_option autoImplicit false

namespace ColumnRules

/-- The text shows a leaf: a numeral its number, a declared name itself. -/
inductive Shows (columns : List String) : List Char → Expr → Prop where
  | number {negative : Bool} {s : List Char} {x : Binary64} :
      Numeral s → Binary64.ofText? (Binary64.signed negative s) = some x → x.isFinite = true →
      Shows columns (Binary64.signed negative s) (.literal x)
  | column {word : String} : word ∈ columns → word ≠ "" → Shows columns word.toList (.var word)

/-- Under the bindings the texts of the leaves show what `f` makes of them, and every logical node
has an operand. -/
def shownAs (columns : List String) (bindings : Bindings) (f : Expr → Expr) : Expr.Demand where
  leaf e := Shows columns (e.nestedText bindings) (f e)
  operands n := 0 < n
  items _ := True

/-- Under the bindings the texts of the leaves are cut into what `f` makes of them, and every
logical node has an operand. -/
def cutAs (columns : List String) (bindings : Bindings) (f : Expr → Expr) : Expr.Demand where
  leaf e := ScansOperand columns (e.nestedText bindings) (f e).tokens ∧
    Expr.shownDemand.leaf (f e)
  operands n := 0 < n
  items _ := True

theorem Expr.ruleTokens_of_shown {e : Expr} (h : shownDemand.leaf e) : e.ruleTokens = e.tokens := by
  cases e with
  | literal | var => rfl
  | subscript | binary | logical | sequence => exact h.elim

theorem Shows.shownDemand {columns : List String} {s : List Char} {e : Expr}
    (h : Shows columns s e) : Expr.shownDemand.leaf e := by
  cases h <;> trivial

theorem Shows.scans {columns : List String} (hplain : Plain columns) {s : List Char} {e : Expr}
    (h : Shows columns s e) : ScansOperand columns s e.tokens := by
  cases h with
  | number hs hread hx =>
    rw [Expr.tokens]
    refine .number hplain.parted hs hread hx fun _ rest _ => ?_
    obtain ⟨c, t, rfl, hc⟩ := hs.exists_cons
    exact hplain.columnAt?_none (digit_spec hc).2.1 _
  | column hword hne =>
    rw [Expr.tokens]
    exact .column hplain.parted hword hne

section Rendering

variable {columns : List String} (hparted : Parted columns) {bindings : Bindings} {f : Expr → Expr}
include hparted

theorem ScansOperand.joined (op : LogicalOp) {e : Expr} {es : List Expr}
    (h : ∀ x ∈ e :: es, ScansOperand columns (x.nestedText bindings) (x.mapLeaves f).tokens) :
    ScansOperand columns (Expr.joinedText bindings op.surface (e :: es))
      (Expr.joinedTokens op (Expr.mapAllLeaves f (e :: es))) := by
  induction es generalizing e with
  | nil => exact h e List.mem_cons_self
  | cons e' es ih =>
    have hrest := ih fun x hx => h x (List.mem_cons_of_mem _ hx)
    have hchain := (h e List.mem_cons_self).chain hparted (.logical op) hrest
    rw [Connective.text_symbol_logical] at hchain
    exact hchain

theorem ScansOperand.nested (e : Expr) (h : e.Meets (cutAs columns bindings f)) :
    ScansOperand columns (e.nestedText bindings) (e.mapLeaves f).tokens := by
  induction e using Expr.induction_cons with
  | literal | var | subscript => exact h.1
  | binary left op right ihl ihr =>
    have hchain := ((ihl h.1).chain hparted (.binary op) (ihr h.2)).group hparted
    rw [Connective.text_symbol_binary] at hchain
    simpa [Expr.nestedText, Expr.mapLeaves, Expr.tokens] using hchain
  | none op => exact absurd h.1 (Nat.lt_irrefl 0)
  | empty => exact .empty hparted
  | logical op e es ih =>
    have hall := Expr.allMeet_iff.mp h.2
    have hjoined := ScansOperand.joined hparted op fun x hx => ih x hx (hall x hx)
    simpa [Expr.nestedText, Expr.mapLeaves, Expr.tokens] using hjoined.group hparted
  | sequence e es ih =>
    have hall := Expr.allMeet_iff.mp h.2
    have hjoined := ScansOperand.joined hparted .and fun x hx => ih x hx (hall x hx)
    simpa [Expr.nestedText, Expr.mapLeaves, Expr.mapAllLeaves, Expr.tokens, LogicalOp.surface]
      using hjoined.group hparted

theorem ScansOperand.rule {e : Expr} (h : e.Meets (cutAs columns bindings f))
    (hne : e ≠ .sequence []) :
    ScansOperand columns (e.ruleText bindings) (e.mapLeaves f).ruleTokens := by
  have hnested := ScansOperand.nested hparted e h
  cases e with
  | sequence items =>
    cases items with
    | nil => exact absurd rfl hne
    | cons e es =>
      have hall := Expr.allMeet_iff.mp h.2
      exact ScansOperand.joined hparted .and fun x hx => ScansOperand.nested hparted x (hall x hx)
  | literal | var | subscript =>
    simp only [Expr.mapLeaves, Expr.ruleTokens_of_shown h.2]
    exact h.1
  | binary | logical => exact hnested

/-- Text is read as the chains of an expression, up to what its leaves are cut into. -/
theorem parse_render_of_cut {e : Expr} (h : e.Meets (cutAs columns bindings f))
    (hf : Expr.KeepsLeaves f) (hne : e ≠ .sequence []) (hvalues : e.comparesValues = true)
    (hheight : e.chainHeight ≤ maxHeight) :
    parse (e.render bindings) columns = .ok (e.mapLeaves f).chained := by
  obtain ⟨lexemes, htokenize, htokens⟩ := (ScansOperand.rule hparted h hne).tokenize
  rw [← Expr.render] at htokenize
  have hshown : (e.mapLeaves f).Meets Expr.shownDemand :=
    (Expr.meets_mapLeaves hf e).mpr
      (h.mono (fun _ _ hleaf => hleaf.2) (fun _ => id) (fun _ _ => trivial))
  have hreads := Reads.ruleTokens hshown (Expr.mapLeaves_ne_empty hf hne)
  have hchained := Expr.height_chained_le (e.mapLeaves f)
  rw [Expr.chainHeight_mapLeaves hf] at hreads hchained
  rw [← htokens] at hreads
  rcases ofTokens_of_reads hreads (.inl rfl) with ⟨-, hwhy⟩ | ⟨phrase, hlowers, hphrase⟩
  · exfalso
    unfold Phrase.maxNesting at hwhy
    omega
  · rw [List.append_nil] at hphrase
    rw [parse_eq_of_lowers htokenize hphrase hlowers, if_pos]
    apply Expr.comparesValues_chained
    rw [Expr.comparesValues_mapLeaves hf, hvalues]

end Rendering

/-- Text that shows an expression is read as its chains, up to what the leaves show. -/
theorem parse_render {columns : List String} (hplain : Plain columns) {bindings : Bindings}
    {f : Expr → Expr} {e : Expr} (h : e.Meets (shownAs columns bindings f))
    (hf : Expr.KeepsLeaves f) (hne : e ≠ .sequence []) (hvalues : e.comparesValues = true)
    (hheight : e.chainHeight ≤ maxHeight) :
    parse (e.render bindings) columns = .ok (e.mapLeaves f).chained := by
  have hcut : e.Meets (cutAs columns bindings f) :=
    h.mono (fun _ _ hleaf => ⟨hleaf.scans hplain, hleaf.shownDemand⟩) (fun _ => id) (fun _ => id)
  exact parse_render_of_cut hplain.parted hcut hf hne hvalues hheight

end ColumnRules
