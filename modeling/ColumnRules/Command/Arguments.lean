import ColumnRules.Number.Decimal
import ColumnRules.Text.CharClass

/-!
# Command line arguments

Options may stand anywhere between the positional arguments. Each takes the next argument as its
value, whatever it looks like; what columns and masses they give adds up.
-/

set_option autoImplicit false

namespace ColumnRules

inductive Command where
  | help
  | parse (columns : List String) (source : String)
  | validate (columns : List String) (mass : List Binary64) (source : String)
  | render (path : String)
  | group (path : String)
  deriving DecidableEq

structure Invocation where
  configPath : Option String
  command : Command
  deriving DecidableEq

inductive Setting where
  | config
  | columns
  | column
  | mass
  deriving DecidableEq

namespace Setting

def all : List Setting := [config, columns, column, mass]

def flag : Setting → String
  | config => "--config"
  | columns => "--columns"
  | column => "--column"
  | mass => "--mass"

def wants : Setting → String
  | config => "a path"
  | columns => "a comma-separated list"
  | column => "a column name"
  | mass => "a comma-separated list"

end Setting

inductive Verb where
  | parse
  | validate
  | render
  | group
  deriving DecidableEq

namespace Verb

def all : List Verb := [parse, validate, render, group]

def word : Verb → String
  | parse => "parse"
  | validate => "validate"
  | render => "render"
  | group => "group"

def wants : Verb → String
  | parse => "a rule expression"
  | validate => "a rule expression"
  | render => "a rule set file"
  | group => "a rule set file"

end Verb

inductive UsageError where
  | missingValue (setting : Setting)
  | badMass (part : String)
  | unknownOption (argument : String)
  | unknownCommand (word : String)
  | missingArgument (verb : Verb)
  | extraArgument (argument : String)
  deriving DecidableEq

def UsageError.message : UsageError → String
  | missingValue setting => setting.flag ++ " requires " ++ setting.wants
  | badMass part => "invalid mass value: " ++ part
  | unknownOption argument => "unknown argument: " ++ argument
  | unknownCommand word => "unknown command: " ++ word
  | missingArgument verb => verb.word ++ " requires " ++ verb.wants
  | extraArgument argument => "unexpected argument: " ++ argument

namespace Invocation

inductive Argument where
  | option (setting : Setting)
  | help
  | unknown
  | positional
  deriving DecidableEq

def Argument.of (s : String) : Argument :=
  match Setting.all.find? fun setting => setting.flag == s with
  | some setting => .option setting
  | none =>
    if s = "--help" ∨ s = "-h" then .help
    else if ['-', '-'].isPrefixOf s.toList then .unknown
    else .positional

/-- The parts between commas, without the blanks around them. -/
def commaParts (s : String) : List String :=
  (s.toList.splitOn ',').map fun part => String.ofList (trimBlanks part)

/-- The column names of a list; empty ones are dropped. -/
def columnsOfList (s : String) : List String := (commaParts s).filter fun name => !name.isEmpty

/-- The masses of a list, or the first part that is no number. -/
def massesOfParts : List String → Except UsageError (List Binary64)
  | [] => .ok []
  | part :: parts =>
    match Binary64.ofText? part.toList with
    | none => .error (.badMass part)
    | some x =>
      match massesOfParts parts with
      | .error e => .error e
      | .ok xs => .ok (x :: xs)

structure Gathered where
  configPath : Option String
  columns : List String
  mass : List Binary64
  positionals : List String
  help : Bool

namespace Gathered

def start : Gathered := ⟨none, [], [], [], false⟩

def apply (g : Gathered) (value : String) : Setting → Except UsageError Gathered
  | .config => .ok { g with configPath := some value }
  | .columns => .ok { g with columns := g.columns ++ columnsOfList value }
  | .column => .ok { g with columns := g.columns ++ [value] }
  | .mass =>
    match massesOfParts (commaParts value) with
    | .error e => .error e
    | .ok xs => .ok { g with mass := g.mass ++ xs }

end Gathered

/-- Reads arguments from left to right. A request for help ends the reading. -/
def gather (g : Gathered) : List String → Except UsageError Gathered
  | [] => .ok g
  | argument :: rest =>
    match Argument.of argument with
    | .positional => gather { g with positionals := g.positionals ++ [argument] } rest
    | .help => .ok { g with help := true }
    | .unknown => .error (.unknownOption argument)
    | .option setting =>
      match rest with
      | [] => .error (.missingValue setting)
      | value :: rest =>
        match g.apply value setting with
        | .error e => .error e
        | .ok g => gather g rest

def commandOf (g : Gathered) (argument : String) : Verb → Command
  | .parse => .parse g.columns argument
  | .validate => .validate g.columns g.mass argument
  | .render => .render argument
  | .group => .group argument

def positionalCommand (g : Gathered) : List String → Except UsageError Command
  | [] => .ok .help
  | word :: rest =>
    match Verb.all.find? fun verb => verb.word == word with
    | none => .error (.unknownCommand word)
    | some verb =>
      match rest with
      | [] => .error (.missingArgument verb)
      | [argument] => .ok (commandOf g argument verb)
      | _ :: extra :: _ => .error (.extraArgument extra)

/-- The invocation that the arguments behind the program's name ask for. -/
def ofArguments (arguments : List String) : Except UsageError Invocation :=
  match gather .start arguments with
  | .error e => .error e
  | .ok g =>
    if g.help then .ok ⟨g.configPath, .help⟩
    else
      match positionalCommand g g.positionals with
      | .error e => .error e
      | .ok command => .ok ⟨g.configPath, command⟩

end Invocation

end ColumnRules
