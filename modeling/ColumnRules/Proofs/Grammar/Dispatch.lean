import ColumnRules.Proofs.Grammar.Neighbours

/-!
# Readers by the token in front of them

What stands in front of a reader decides how it goes on. A list behind its bracket, the arguments of
a call and the name of a property are read by readers of their own here, of which the readers of an
operand and of what stands behind it are made up.
-/

set_option autoImplicit false

namespace ColumnRules

open Phrase

theorem frontSymbol?_accepts {accepts : Symbol → Bool} {op : Symbol} {rest behind : List Lexeme}
    (h : frontSymbol? accepts rest = some (op, behind)) : accepts op = true := by
  obtain ⟨offset, rfl⟩ := frontSymbol?_eq_some h
  by_contra hrefuses
  simp [frontSymbol?, hrefuses] at h

theorem exists_of_head? {token : Token} {rest : List Lexeme}
    (h : rest.head?.map Lexeme.token = some token) :
    ∃ offset behind, rest = ⟨token, offset⟩ :: behind := by
  obtain ⟨⟨token, offset⟩, hhead, rfl⟩ := Option.map_eq_some_iff.mp h
  obtain ⟨behind, rfl⟩ := List.head?_eq_some_iff.mp hhead
  exact ⟨offset, behind, rfl⟩

/-- The list that the items behind its bracket make up with those that are read already. -/
def Phrase.readListBehind (expression : Reader Node) (items : List Node) (rounds : Nat) :
    Reader Node := fun tokens =>
  match readItems expression rounds tokens with
  | .error e => .error e
  | .ok (further, rest) =>
    match Node.ofList (items ++ further) with
    | .error e => .error e
    | .ok node => .ok (node, rest)

/-- A list behind its opening bracket. -/
def Phrase.readList (expression : Reader Node) : Reader Node := fun tokens =>
  readListBehind expression [] (tokens.length + 1) tokens

section List

variable {expression : Reader Node} {items : List Node} {rounds : Nat} {rest : List Lexeme}

theorem readItems_item (hbracket : rest.head?.map Lexeme.token ≠ some .rightBracket)
    (hcomma : rest.head?.map Lexeme.token ≠ some .comma) :
    readItems expression (rounds + 1) rest =
      match expression rest with
      | .error e => .error e
      | .ok (item, ⟨.comma, _⟩ :: rest) =>
        match readItems expression rounds rest with
        | .error e => .error e
        | .ok (items, rest) => .ok (item :: items, rest)
      | .ok (item, rest) =>
        match expect .rightBracket rest with
        | .error e => .error e
        | .ok rest => .ok ([item], rest) := by
  cases rest with
  | nil => rfl
  | cons l behind =>
    obtain ⟨token, offset⟩ := l
    cases token with
    | rightBracket => exact absurd rfl hbracket
    | comma => exact absurd rfl hcomma
    | _ => rfl

theorem readListBehind_comma {item : Node} {offset : Nat} {behind : List Lexeme}
    (hbracket : rest.head?.map Lexeme.token ≠ some .rightBracket)
    (hcomma : rest.head?.map Lexeme.token ≠ some .comma)
    (hitem : expression rest = .ok (item, ⟨.comma, offset⟩ :: behind)) :
    readListBehind expression items (rounds + 1) rest =
      readListBehind expression (items ++ [item]) rounds behind := by
  simp only [readListBehind, readItems_item hbracket hcomma, hitem]
  cases readItems expression rounds behind with
  | error e => rfl
  | ok answer => simp only [List.append_assoc, List.cons_append, List.nil_append]

theorem readListBehind_last {item : Node} {behind : List Lexeme}
    (hbracket : rest.head?.map Lexeme.token ≠ some .rightBracket)
    (hcomma : rest.head?.map Lexeme.token ≠ some .comma)
    (hitem : expression rest = .ok (item, behind))
    (hlast : behind.head?.map Lexeme.token ≠ some .comma) :
    readListBehind expression items (rounds + 1) rest =
      match expect .rightBracket behind with
      | .error e => .error e
      | .ok behind =>
        match Node.ofList (items ++ [item]) with
        | .error e => .error e
        | .ok node => .ok (node, behind) := by
  have hitems : readItems expression (rounds + 1) rest =
      match expect .rightBracket behind with
      | .error e => .error e
      | .ok behind => .ok ([item], behind) := by
    rw [readItems_item hbracket hcomma, hitem]
    cases behind with
    | nil => rfl
    | cons l behind =>
      obtain ⟨token, offset⟩ := l
      cases token with
      | comma => exact absurd rfl hlast
      | _ => rfl
  rw [readListBehind, hitems]
  cases expect .rightBracket behind <;> rfl

end List

/-- The arguments of a call behind its opening parenthesis. -/
def Phrase.readCall (expression : Reader Node) : Reader Unit
  | ⟨.rightParen, _⟩ :: rest => .ok ((), rest)
  | tokens => (readArguments expression (tokens.length + 1) tokens).map ((), ·)

theorem readCall_arguments {expression : Reader Node} {rest : List Lexeme}
    (h : rest.head?.map Lexeme.token ≠ some .rightParen) :
    readCall expression rest =
      (readArguments expression (rest.length + 1) rest).map ((), ·) := by
  cases rest with
  | nil => rfl
  | cons l behind =>
    obtain ⟨token, offset⟩ := l
    cases token with
    | rightParen => exact absurd rfl h
    | _ => rfl

theorem readSuffixes_call {expression : Reader Node} {rounds offset : Nat} {node : Node}
    {rest : List Lexeme} :
    readSuffixes expression (rounds + 1) node (⟨.leftParen, offset⟩ :: rest) =
      match readCall expression rest with
      | .error e => .error e
      | .ok (_, rest) => readSuffixes expression rounds (.leaf (.foreign .call)) rest := by
  by_cases hclosed : rest.head?.map Lexeme.token = some .rightParen
  · obtain ⟨offset', behind, rfl⟩ := exists_of_head? hclosed
    rfl
  have hread : readSuffixes expression (rounds + 1) node (⟨.leftParen, offset⟩ :: rest) =
      match readArguments expression (rest.length + 1) rest with
      | .error e => .error e
      | .ok rest => readSuffixes expression rounds (.leaf (.foreign .call)) rest := by
    cases rest with
    | nil => rfl
    | cons l behind =>
      obtain ⟨token, offset'⟩ := l
      cases token with
      | rightParen => exact absurd rfl hclosed
      | _ => rfl
  rw [hread, readCall_arguments hclosed]
  cases readArguments expression (rest.length + 1) rest <;> rfl

/-- The name of a property behind its dot. -/
def Phrase.readProperty : Reader Unit
  | ⟨.name _, _⟩ :: rest | ⟨.column _, _⟩ :: rest => .ok ((), rest)
  | tokens => .error (.malformed (.missing .property tokens.head?))

theorem readSuffixes_dot {expression : Reader Node} {rounds offset : Nat} {node : Node}
    {rest : List Lexeme} :
    readSuffixes expression (rounds + 1) node (⟨.symbol .dot, offset⟩ :: rest) =
      match readProperty rest with
      | .error e => .error e
      | .ok (_, rest) => readSuffixes expression rounds (.leaf (.foreign .member)) rest := by
  cases rest with
  | nil => rfl
  | cons l behind =>
    obtain ⟨token, offset'⟩ := l
    cases token <;> rfl

theorem readSuffixes_update {expression : Reader Node} {rounds offset : Nat} {node : Node}
    {op : Symbol} {rest : List Lexeme} (hop : op.isUpdate = true) :
    readSuffixes expression (rounds + 1) node (⟨.symbol op, offset⟩ :: rest) =
      readSuffixes expression rounds (.leaf (.foreign .update)) rest := by
  cases op with
  | increment | decrement => rfl
  | _ => cases hop

theorem readSuffixes_symbol {expression : Reader Node} {rounds offset : Nat} {node : Node}
    {op : Symbol} {rest : List Lexeme} (hdot : op ≠ .dot) (hupdate : ¬ op.isUpdate = true) :
    readSuffixes expression (rounds + 1) node (⟨.symbol op, offset⟩ :: rest) =
      .ok (node, ⟨.symbol op, offset⟩ :: rest) := by
  cases op with
  | dot => exact absurd rfl hdot
  | increment | decrement => exact absurd rfl hupdate
  | _ => rfl

section Operand

variable {inner : Readers} {rest behind : List Lexeme} {op : Symbol}

theorem readOperand_unary (h : frontSymbol? Symbol.isUnary rest = some (op, behind)) :
    readOperand inner rest =
      match inner.operand behind with
      | .error e => .error e
      | .ok (_, rest) => .ok (.leaf (.foreign .unary), rest) := by
  have hop := frontSymbol?_accepts h
  obtain ⟨offset, rfl⟩ := frontSymbol?_eq_some h
  cases op with
  | not | sub | add | complement => rfl
  | _ => cases hop

theorem readOperand_update (h : frontSymbol? Symbol.isUpdate rest = some (op, behind)) :
    readOperand inner rest =
      match inner.operand behind with
      | .error e => .error e
      | .ok (_, rest) => .ok (.leaf (.foreign .update), rest) := by
  have hop := frontSymbol?_accepts h
  obtain ⟨offset, rfl⟩ := frontSymbol?_eq_some h
  cases op with
  | increment | decrement => rfl
  | _ => cases hop

theorem readOperand_suffixed (hunary : frontSymbol? Symbol.isUnary rest = none)
    (hupdate : frontSymbol? Symbol.isUpdate rest = none) :
    readOperand inner rest = readPostfix (readAssignment inner) rest := by
  cases rest with
  | nil => rfl
  | cons l behind =>
    obtain ⟨token, offset⟩ := l
    cases token with
    | symbol op =>
      cases op with
      | not | sub | add | complement => cases hunary
      | increment | decrement => cases hupdate
      | _ => rfl
    | _ => rfl

end Operand

end ColumnRules
