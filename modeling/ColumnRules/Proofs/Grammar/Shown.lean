import ColumnRules.Proofs.Expr.Chain
import ColumnRules.Proofs.Grammar.Completeness

/-!
# The tokens of shown expressions

Parentheses stand around every node and lists are joined by their operator. The tokens are read
back as the chains of the expression, and parentheses cost at most twice its height in room.
-/

set_option autoImplicit false

namespace ColumnRules

namespace Expr

mutual

/-- The tokens of an expression inside another one. Subscripts are not shown. -/
def tokens : Expr → List Token
  | literal x => [.number x]
  | var name => [.column name]
  | subscript _ _ => []
  | binary left op right =>
    .leftParen :: (left.tokens ++ .symbol (Connective.binary op).symbol ::
      (right.tokens ++ [.rightParen]))
  | logical op operands => .leftParen :: (joinedTokens op operands ++ [.rightParen])
  | sequence [] => [.leftBracket, .rightBracket]
  | sequence (item :: items) => .leftParen :: (joinedTokens .and (item :: items) ++ [.rightParen])

def joinedTokens (op : LogicalOp) : List Expr → List Token
  | [] => []
  | [e] => e.tokens
  | e :: es => e.tokens ++ .symbol (Connective.logical op).symbol :: joinedTokens op es

end

def ruleTokens : Expr → List Token
  | sequence items => joinedTokens .and items
  | e => e.tokens

theorem joinedTokens_cons (op : LogicalOp) (e : Expr) (es : List Expr) :
    joinedTokens op (e :: es) = e.tokens ++
      es.flatMap fun e => .symbol (Connective.logical op).symbol :: e.tokens := by
  induction es generalizing e with
  | nil => simp [joinedTokens]
  | cons e' es ih =>
    rw [joinedTokens, ih, List.flatMap_cons, List.cons_append]
    exact nofun

def shownDemand : Demand where
  leaf
    | literal _ | var _ => True
    | _ => False
  operands n := 0 < n
  items _ := True

end Expr

theorem Reads.mono {level : Level} {ts : List Token} {e : Expr} {m n : Nat}
    (h : Reads level ts e m) (hle : m ≤ n) : Reads level ts e n := by
  obtain ⟨hstart, phrase, hlowers, hresumes⟩ := h
  refine ⟨hstart, phrase, hlowers, ?_⟩
  intro room floor ls rest hls hfloor hrest
  exact (hresumes room floor ls rest hls hfloor hrest).imp_left
    fun ⟨herror, hwhy⟩ => ⟨herror, hwhy.imp_left fun hroom => Nat.lt_of_lt_of_le hroom hle⟩

theorem Reads.loosen {level loose : Level} {ts : List Token} {e : Expr} {need : Nat}
    (h : Reads level ts e need) (hle : loose.precedence ≤ level.precedence) :
    Reads loose ts e need :=
  Level.loosen (P := fun level => Reads level ts e need) (fun _ => Reads.operand) h hle

theorem Reads.joined (op : LogicalOp) {ts : List Token} {first : Expr} {n : Nat} (es : List Expr)
    (hfirst : Reads (Connective.logical op).level ts first n)
    (hes : ∀ e ∈ es, ∃ need, Reads .atom e.tokens e.chained need ∧ need + 1 ≤ n) :
    Reads (Connective.logical op).level
      (ts ++ es.flatMap fun e => .symbol (Connective.logical op).symbol :: e.tokens)
      (Expr.chain op first (es.map Expr.chained)) n := by
  induction es generalizing ts first with
  | nil => simpa [Expr.chain] using hfirst
  | cons e es ih =>
    obtain ⟨need, hreads, hneed⟩ := hes e List.mem_cons_self
    have hpair : Reads _ _ (.logical op [first, e.chained]) n :=
      (Reads.chain _ hfirst (hreads.loosen (Level.le_atom _))).mono
        (Nat.max_le.mpr ⟨Nat.le_refl n, hneed⟩)
    have hrest := ih hpair fun x hx => hes x (List.mem_cons_of_mem _ hx)
    rw [List.flatMap_cons, List.map_cons, Expr.chain_cons]
    simpa using hrest

/-- A joined list is read within twice the height of its chains. -/
theorem Reads.joinedTokens (op : LogicalOp) {e : Expr} {es : List Expr}
    (h : ∀ x ∈ e :: es, ∃ need, Reads .atom x.tokens x.chained need ∧
      need + 1 ≤ 2 * x.chainHeight) :
    Reads (Connective.logical op).level (Expr.joinedTokens op (e :: es))
      (Expr.chain op e.chained (Expr.chainedAll es)) (2 * Expr.tallestChain (e :: es)) := by
  have hall : ∀ x ∈ e :: es, ∃ need, Reads .atom x.tokens x.chained need ∧
      need + 1 ≤ 2 * Expr.tallestChain (e :: es) := by
    intro x hx
    obtain ⟨need, hreads, hneed⟩ := h x hx
    have hle := Expr.chainHeight_le_tallestChain hx
    exact ⟨need, hreads, by omega⟩
  obtain ⟨need, hreads, hneed⟩ := hall e List.mem_cons_self
  rw [Expr.joinedTokens_cons, Expr.chainedAll_eq]
  exact Reads.joined op es ((hreads.loosen (Level.le_atom _)).mono (by omega))
    fun x hx => hall x (List.mem_cons_of_mem _ hx)

theorem Reads.tokens (e : Expr) (h : e.Meets Expr.shownDemand) :
    ∃ need, Reads .atom e.tokens e.chained need ∧ need + 1 ≤ 2 * e.chainHeight := by
  have hgroup : ∀ (op : LogicalOp) (x : Expr) (xs : List Expr),
      (∀ y ∈ x :: xs, ∃ need, Reads .atom y.tokens y.chained need ∧
        need + 1 ≤ 2 * y.chainHeight) →
      ∃ need, Reads .atom (.leftParen :: (Expr.joinedTokens op (x :: xs) ++ [.rightParen]))
        (Expr.chain op x.chained (Expr.chainedAll xs)) need ∧
        need + 1 ≤ 2 * (Expr.tallestChain (x :: xs) + max 1 ((x :: xs).length - 1)) := by
    intro op x xs hall
    exact ⟨_, ((Reads.joinedTokens op hall).loosen (Level.or_le _)).group, by omega⟩
  induction e using Expr.induction_cons with
  | literal x =>
    simp only [Expr.tokens, Expr.chained]
    exact ⟨1, Reads.number x, Nat.le_refl _⟩
  | var name =>
    simp only [Expr.tokens, Expr.chained]
    exact ⟨1, Reads.column name, Nat.le_refl _⟩
  | subscript => exact h.elim
  | binary left op right ihl ihr =>
    obtain ⟨m, hl, hm⟩ := ihl h.1
    obtain ⟨n, hr, hn⟩ := ihr h.2
    have hchain := Reads.chain (.binary op) (hl.loosen (Level.le_atom _))
      (hr.loosen (Level.le_atom _))
    refine ⟨max m (n + 1) + 1, ?_, ?_⟩
    · simpa [Expr.tokens, Expr.chained, Connective.join] using
        (hchain.loosen (Level.or_le _)).group
    · simp only [Expr.chainHeight]
      omega
  | none op => exact absurd h.1 (Nat.lt_irrefl 0)
  | empty =>
    simp only [Expr.tokens, Expr.chained]
    exact ⟨1, Reads.list ReadsItems.none, Nat.le_refl _⟩
  | logical op x xs ih =>
    have hall := Expr.allMeet_iff.mp h.2
    simp only [Expr.tokens, Expr.chained, Expr.chainHeight]
    exact hgroup op x xs fun y hy => ih y hy (hall y hy)
  | sequence x xs ih =>
    have hall := Expr.allMeet_iff.mp h.2
    simp only [Expr.tokens, Expr.chained, Expr.chainHeight]
    exact hgroup .and x xs fun y hy => ih y hy (hall y hy)

/-- The tokens of a whole condition are read back within twice its height. -/
theorem Reads.ruleTokens {e : Expr} (h : e.Meets Expr.shownDemand) (hne : e ≠ .sequence []) :
    Reads .or e.ruleTokens e.chained (2 * e.chainHeight) := by
  have hnested : Reads .or e.tokens e.chained (2 * e.chainHeight) := by
    obtain ⟨need, hreads, hneed⟩ := Reads.tokens e h
    exact (hreads.loosen (Level.or_le _)).mono (by omega)
  cases e with
  | sequence items =>
    cases items with
    | nil => exact absurd rfl hne
    | cons x xs =>
      have hall := Expr.allMeet_iff.mp h.2
      have hjoined := (Reads.joinedTokens .and fun y hy => Reads.tokens y (hall y hy)).loosen
        (Level.or_le _)
      simp only [Expr.ruleTokens, Expr.chained, Expr.chainHeight]
      exact hjoined.mono (by omega)
  | literal | var | subscript | binary | logical => exact hnested

end ColumnRules
