import ColumnRules.Json.Fields
import ColumnRules.Json.Printer
import ColumnRules.Json.Record

/-!
# Configuration

Three knobs: the base that marks subscripts, the separator of group keys and how far the masses of
a rule may miss one. Absent fields keep their defaults, unknown ones are skipped unread.
-/

set_option autoImplicit false

namespace ColumnRules

structure Config where
  subscriptBase : String
  separator : String
  massTolerance : Binary64

namespace Config

/-- The base `x`, the separator `-` and a millionth. -/
def standard : Config := ⟨"x", "-", (Decimal.mk 1 (-6)).toBinary64 false⟩

/-- What a configuration may not say. -/
inductive Fault where
  | tolerance (value : Binary64)
  | emptyBase
  | emptySeparator
  deriving DecidableEq

def Fault.message : Fault → String
  | tolerance value =>
    "invalid engine config: mass_tolerance must be a positive finite number, got "
      ++ String.ofList value.plainText
  | emptyBase => "invalid engine config: walker.subscript_base must not be empty"
  | emptySeparator => "invalid engine config: groupby.separator must not be empty"

def fault? (config : Config) : Option Fault :=
  if !config.massTolerance.isFinite || !(Binary64.zero false).less config.massTolerance then
    some (.tolerance config.massTolerance)
  else if config.subscriptBase.isEmpty then some .emptyBase
  else if config.separator.isEmpty then some .emptySeparator
  else none

/-- The layout of a configuration: two knobs stand in sections of their own, all are scalars. -/
def layout : Json.Layout := [
  ("walker", Json.record [("subscript_base", Json.scalarValue)]),
  ("groupby", Json.record [("separator", Json.scalarValue)]),
  ("mass_tolerance", Json.scalarValue)]

def knob? (name standard : String) : Json → Option String
  | .object fields => Json.optional name Json.string? standard fields
  | _ => none

def ofJson? : Json → Option Config
  | .object fields => do
    let base ← Json.optional "walker" (knob? "subscript_base" standard.subscriptBase)
      standard.subscriptBase fields
    let separator ← Json.optional "groupby" (knob? "separator" standard.separator)
      standard.separator fields
    let tolerance ← Json.optional "mass_tolerance" Json.toBinary64? standard.massTolerance fields
    some ⟨base, separator, tolerance⟩
  | _ => none

def toJson (config : Config) : Json :=
  .object [("walker", .object [("subscript_base", .string config.subscriptBase)]),
    ("groupby", .object [("separator", .string config.separator)]),
    ("mass_tolerance", .float config.massTolerance)]

inductive Error where
  | unreadable
  | faulty (fault : Fault)

def ofText (text : String) : Except Error Config :=
  match (Json.whole? (Json.record layout) text).bind ofJson? with
  | none => .error .unreadable
  | some config =>
    match config.fault? with
    | some fault => .error (.faulty fault)
    | none => .ok config

end Config

end ColumnRules
