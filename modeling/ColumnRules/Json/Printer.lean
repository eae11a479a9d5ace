import ColumnRules.Json.Basic
import ColumnRules.Number.Layout

/-!
# Writing JSON text

The compact form has no blanks; the pretty form puts every item on a line of its own. Strings
escape the quote, the backslash and the control characters below U+0020, and nothing else.
-/

set_option autoImplicit false

namespace ColumnRules

namespace Json

def hexChar (n : Nat) : Char := (Nat.toDigits 16 n).headD '0'

def escapeChar : Char → List Char
  | '"' => ['\\', '"']
  | '\\' => ['\\', '\\']
  | '\x08' => ['\\', 'b']
  | '\x0c' => ['\\', 'f']
  | '\n' => ['\\', 'n']
  | '\r' => ['\\', 'r']
  | '\t' => ['\\', 't']
  | c =>
    if c.toNat < 0x20 then ['\\', 'u', '0', '0', hexChar (c.toNat / 16), hexChar (c.toNat % 16)]
    else [c]

def quoted (s : String) : List Char := '"' :: (s.toList.flatMap escapeChar ++ ['"'])

def intText (n : Int) : List Char := Binary64.signed (n < 0) (Nat.toDigits 10 n.natAbs)

/-- The text of a value that is no container. Containers are written item by item below. -/
def scalarText : Json → List Char
  | null => ['n', 'u', 'l', 'l']
  | bool true => ['t', 'r', 'u', 'e']
  | bool false => ['f', 'a', 'l', 's', 'e']
  | int n => intText n
  | float x => x.jsonText
  | string s => quoted s
  | array _ => []
  | object _ => []

mutual

def compactText : Json → List Char
  | array items => '[' :: (compactItems items ++ [']'])
  | object fields => '\x7b' :: (compactFields fields ++ ['\x7d'])
  | json => json.scalarText

def compactItems : List Json → List Char
  | [] => []
  | [item] => item.compactText
  | item :: items => item.compactText ++ ',' :: compactItems items

def compactFields : List (String × Json) → List Char
  | [] => []
  | [(name, value)] => quoted name ++ ':' :: value.compactText
  | (name, value) :: fields => quoted name ++ ':' :: (value.compactText ++ ',' :: compactFields fields)

end

/-- A new line indented by two blanks a level. -/
def newLine (level : Nat) : List Char := '\n' :: List.replicate (2 * level) ' '

mutual

/-- The pretty form of a value that starts on a line of the given level. -/
def prettyText (level : Nat) : Json → List Char
  | array [] => ['[', ']']
  | array (item :: items) =>
    '[' :: (prettyItems (level + 1) (item :: items) ++ (newLine level ++ [']']))
  | object [] => ['\x7b', '\x7d']
  | object (field :: fields) =>
    '\x7b' :: (prettyFields (level + 1) (field :: fields) ++ (newLine level ++ ['\x7d']))
  | json => json.scalarText

def prettyItems (level : Nat) : List Json → List Char
  | [] => []
  | [item] => newLine level ++ item.prettyText level
  | item :: items => newLine level ++ (item.prettyText level ++ ',' :: prettyItems level items)

def prettyFields (level : Nat) : List (String × Json) → List Char
  | [] => []
  | [(name, value)] => newLine level ++ (quoted name ++ ':' :: ' ' :: value.prettyText level)
  | (name, value) :: fields =>
    newLine level ++ (quoted name ++ ':' :: ' ' ::
      (value.prettyText level ++ ',' :: prettyFields level fields))

end

def compact (json : Json) : String := String.ofList json.compactText

def pretty (json : Json) : String := String.ofList (json.prettyText 0)

end Json

end ColumnRules
