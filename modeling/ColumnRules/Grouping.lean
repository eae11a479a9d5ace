import ColumnRules.ColumnSet

/-!
# Grouping rules by their columns

The key of a column set is its members in order, joined by a separator. A member that could be
mistaken for joined members, or that starts with a quote, is quoted. Rules with the same key form
a group; groups stand in the order in which they first appear.
-/

set_option autoImplicit false

namespace ColumnRules

/-- The text occurs in the other one. The empty text occurs everywhere. -/
def occursIn (text : List Char) : List Char → Bool
  | [] => text.isEmpty
  | c :: s => text.isPrefixOf (c :: s) || occursIn text s

def doubleQuotes : List Char → List Char
  | [] => []
  | c :: s => if c = '"' then '"' :: '"' :: doubleQuotes s else c :: doubleQuotes s

namespace ColumnSet

/-- Members that need quotes in a key. -/
def needsQuotes (separator member : List Char) : Bool :=
  occursIn separator member || member.head? == some '"'

def keyMember (separator member : List Char) : List Char :=
  if needsQuotes separator member then '"' :: (doubleQuotes member ++ ['"']) else member

/-- The members of a key with the separator between each two. -/
def joinMembers (separator : List Char) : List (List Char) → List Char
  | [] => []
  | [member] => keyMember separator member
  | member :: members =>
    keyMember separator member ++ (separator ++ joinMembers separator members)

/-- The grouping key of a column set. The empty set has none. -/
def groupKey (columns : ColumnSet) (separator : String) : Option String :=
  if columns.isEmpty then none
  else some (String.ofList (joinMembers separator.toList (columns.names.map String.toList)))

end ColumnSet

/-- The positions of the rules of one key, ascending. -/
structure RuleGroup where
  key : String
  members : List Nat
  deriving DecidableEq

/-- Groups in the order of their first members, and the positions of rules without columns. -/
structure RuleGroups where
  groups : List RuleGroup
  unindexed : List Nat
  deriving DecidableEq

/-- Adds a position to the group of a key; a new key opens a group at the end. -/
def RuleGroup.place (key : String) (position : Nat) : List RuleGroup → List RuleGroup
  | [] => [⟨key, [position]⟩]
  | group :: groups =>
    if group.key = key then ⟨group.key, group.members ++ [position]⟩ :: groups
    else group :: place key position groups

namespace RuleGroups

def empty : RuleGroups := ⟨[], []⟩

def add (gs : RuleGroups) (position : Nat) : Option String → RuleGroups
  | none => ⟨gs.groups, gs.unindexed ++ [position]⟩
  | some key => ⟨RuleGroup.place key position gs.groups, gs.unindexed⟩

def addAll (gs : RuleGroups) (position : Nat) : List (Option String) → RuleGroups
  | [] => gs
  | key :: keys => addAll (gs.add position key) (position + 1) keys

def find? (gs : RuleGroups) (key : String) : Option RuleGroup :=
  gs.groups.find? fun group => group.key == key

end RuleGroups

def groupRules (sets : List ColumnSet) (separator : String) : RuleGroups :=
  RuleGroups.empty.addAll 0 (sets.map fun columns => columns.groupKey separator)

end ColumnRules
