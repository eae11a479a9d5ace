import ColumnRules.Command.Arguments
import ColumnRules.Command.Directory
import ColumnRules.Expr.Codec
import ColumnRules.Json.Printer
import ColumnRules.RuleSet.Basic
import ColumnRules.Validation

/-!
# Running commands

A command reads at most two files, its configuration first, and answers the text to print.
-/

set_option autoImplicit false

namespace ColumnRules

inductive CommandError where
  | file (path : String) (fault : FileFault)
  | json
  | config (fault : Config.Fault)
  | parse (error : ParseError)
  | template (error : TemplateError)

def CommandError.message : CommandError → String
  | file path fault => "failed to read " ++ path ++ ": " ++ fault.message
  | json => "invalid JSON"
  | config fault => fault.message
  | parse error => error.message
  | template error => error.message

namespace Invocation

def readFile (files : Files) (path : String) : Except CommandError String :=
  (files path).mapError (.file path)

def loadConfig (files : Files) : Option String → Except CommandError Config
  | none => .ok .standard
  | some path =>
    match readFile files path with
    | .error e => .error e
    | .ok text =>
      match Config.ofText text with
      | .ok config => .ok config
      | .error .unreadable => .error .json
      | .error (.faulty fault) => .error (.config fault)

def loadRules (files : Files) (config : Config) (path : String) : Except CommandError RuleSet :=
  match readFile files path with
  | .error e => .error e
  | .ok text =>
    match RuleSet.ofText? config.subscriptBase text with
    | some set => .ok set
    | none => .error .json

def helpLines : List String := [
  "rulex-cli",
  "Usage:",
  "\trulex-cli [--config engine.json] parse --columns a,b <expr>",
  "\trulex-cli [--config engine.json] validate --columns a,b --mass 0.5,0.5 <expr>",
  "\trulex-cli [--config engine.json] render <ruleset.json>",
  "\trulex-cli [--config engine.json] group <ruleset.json>",
  "Options:",
  "\t--config <path>      Engine config JSON (subscript base, separator, mass tolerance)",
  "\t--columns <list>     Comma-separated column names",
  "\t--column <name>      One column name; may repeat, allows commas",
  "\t--mass <list>        Comma-separated mass vector for validate",
  "\t-h, --help           Show this help"]

def helpText : String := "\n".intercalate helpLines

/-- The status, the sum with six places and what is wrong with the text. -/
def validationText (report : Validation) : String :=
  let head := "status=" ++ report.status.message ++ " mass_sum="
    ++ String.ofList report.massSum.fixedText
  match report.expression with
  | .ok _ => head
  | .error e => head ++ " error=\"" ++ e.message ++ "\""

def numberedLines (position : Nat) : List String → String
  | [] => ""
  | text :: texts =>
    toString position ++ ": " ++ text ++ "\n" ++ numberedLines (position + 1) texts

def positionsText (positions : List Nat) : String :=
  "[" ++ ", ".intercalate (positions.map toString) ++ "]"

def groupLines (groups : RuleGroups) : String :=
  let lines := groups.groups.map fun group =>
    group.key ++ ": " ++ positionsText group.members ++ "\n"
  let rest := if groups.unindexed.isEmpty then ""
    else "<unindexed>: " ++ positionsText groups.unindexed ++ "\n"
  "".intercalate lines ++ rest

def runCommand (files : Files) (config : Config) : Command → Except CommandError String
  | .help => .ok helpText
  | .parse columns source =>
    match ColumnRules.parse source columns with
    | .error e => .error (.parse e)
    | .ok e => .ok e.toJson.pretty
  | .validate columns mass source => .ok (validationText (validateRule source mass columns config))
  | .render path =>
    match loadRules files config path with
    | .error e => .error e
    | .ok set =>
      match set.displayTexts with
      | .error e => .error (.template e)
      | .ok texts => .ok (numberedLines 0 texts)
  | .group path =>
    match loadRules files config path with
    | .error e => .error e
    | .ok set => .ok (groupLines (set.groups config.separator))

/-- Runs an invocation; the configuration is read even where it is not used. -/
def run (files : Files) (invocation : Invocation) : Except CommandError String :=
  match loadConfig files invocation.configPath with
  | .error e => .error e
  | .ok config => runCommand files config invocation.command

/-- The files that a run may read. -/
def paths (invocation : Invocation) : List String :=
  invocation.configPath.toList ++
    match invocation.command with
    | .render path => [path]
    | .group path => [path]
    | _ => []

end Invocation

end ColumnRules
