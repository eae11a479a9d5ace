import ColumnRules.Json.Fields
import ColumnRules.Json.Reader
import ColumnRules.Rule

/-!
# Rule sets

What the rule generator answers: rules, each a condition with its bindings, with masses and labels
paired to them by position, and the codes of the categories of encoded columns. Rules past the end
of either list have no mass or no label.
-/

set_option autoImplicit false

namespace ColumnRules

structure RuleSet where
  rules : List Rule
  columnsEncoder : Dictionary (Dictionary Json)

namespace RuleSet

def empty : RuleSet := ⟨[], .empty⟩

def assemble (base : String) :
    List (Json × Bindings) → List (List Binary64) → List String → List Rule
  | [], _, _ => []
  | (condition, bindings) :: rules, masses, labels =>
    ⟨.ofJson base condition, bindings, masses.headD [], labels.head?⟩
      :: assemble base rules masses.tail labels.tail

def pair? : Json → Option (Json × Bindings)
  | .array [condition, bindings] => bindings.bindings?.map fun b => (condition, b)
  | _ => none

def rules? : Json → Option (List (Json × Bindings)) := Json.listOf? pair?

def masses? : Json → Option (List (List Binary64)) := Json.listOf? (Json.listOf? Json.toBinary64?)

def labels? : Json → Option (List String) := Json.listOf? Json.string?

def encoder? : Json → Option (Dictionary (Dictionary Json)) := Json.dictionaryOf? Json.bindings?

/-- Reads a rule set, as an object or as the list of its parts. The rules must be there. -/
def ofJson? (base : String) : Json → Option RuleSet
  | .object fields => do
    let rules ← (Json.sole? "rules" fields).bind rules?
    let masses ← Json.optional "masses" masses? [] fields
    let labels ← Json.optional "labels" labels? [] fields
    let encoder ← Json.optional "columnsEncoder" encoder? .empty fields
    some ⟨assemble base rules masses labels, encoder⟩
  | .array (first :: items) =>
    if 3 < items.length then none
    else do
      let rules ← rules? first
      let masses ← Json.positional 0 masses? [] items
      let labels ← Json.positional 1 labels? [] items
      let encoder ← Json.positional 2 encoder? .empty items
      some ⟨assemble base rules masses labels, encoder⟩
  | _ => none

def ofText? (base text : String) : Option RuleSet := (Json.settledOfText? text).bind (ofJson? base)

def displayTexts (set : RuleSet) : Except TemplateError (List String) :=
  set.rules.mapM Rule.displayText

def groups (set : RuleSet) (separator : String) : RuleGroups :=
  groupRules (set.rules.map Rule.indices) separator

/-- The codes with the columns and their categories in order. -/
def encoderJson (set : RuleSet) : Json :=
  Json.ofDictionary (Json.ofDictionary id) set.columnsEncoder

end RuleSet

end ColumnRules
