import ColumnRules.RuleSet.Basic

/-!
# Editing rule sets

An edit adds, changes or removes one rule. An edit that fails changes nothing.
-/

set_option autoImplicit false

namespace ColumnRules

inductive Edit where
  | push (condition : Json) (bindings : Bindings)
  | withText (index : Nat) (text : String) (columns : List String)
  | bind (index : Nat) (bindings : Bindings)
  | unbind (index : Nat) (name : String)
  | settle (index : Nat)
  | remove (index : Nat)

inductive EditError where
  | noRule (index : Nat)
  | parse (error : ParseError)

namespace RuleSet

def change (set : RuleSet) (index : Nat) (change : Rule → Except EditError Rule) :
    Except EditError RuleSet :=
  match set.rules[index]? with
  | none => .error (.noRule index)
  | some rule =>
    match change rule with
    | .error e => .error e
    | .ok rule => .ok { set with rules := set.rules.set index rule }

/-- The rule set after an edit; `base` marks the subscripts of new conditions. -/
def apply (base : String) (set : RuleSet) : Edit → Except EditError RuleSet
  | .push condition bindings =>
    .ok { set with rules := set.rules ++ [⟨.ofJson base condition, bindings, [], none⟩] }
  | .withText index text columns =>
    set.change index fun rule => (rule.withText text columns base).mapError .parse
  | .bind index bindings => set.change index fun rule => .ok (rule.bind bindings)
  | .unbind index name => set.change index fun rule => .ok (rule.unbind name)
  | .settle index => set.change index fun rule => .ok rule.settle
  | .remove index =>
    if index < set.rules.length then .ok { set with rules := set.rules.eraseIdx index }
    else .error (.noRule index)

end RuleSet

end ColumnRules
