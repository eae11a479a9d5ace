import ColumnRules.Command.Arguments
import Mathlib.Data.List.Basic

/-!
# Interleaved arguments

An argument list is a sequence of items: options with their values, and positional arguments. What
is gathered from it depends on the positional arguments, the last configuration, the columns and
the masses, each in their order, and not on how they are interleaved.
-/

set_option autoImplicit false

namespace ColumnRules.Invocation

inductive Item where
  | option (setting : Setting) (value : String)
  | positional (argument : String)

namespace Item

def arguments : Item → List String
  | option setting value => [setting.flag, value]
  | positional argument => [argument]

/-- Any value will do for an option but for masses, which must be numbers. A positional argument
must not look like an option. -/
def IsProper : Item → Prop
  | option .mass value => ∀ part ∈ commaParts value, (Binary64.ofText? part.toList).isSome
  | option _ _ => True
  | positional argument => ¬ ['-', '-'] <+: argument.toList ∧ argument ≠ "-h"

instance (item : Item) : Decidable item.IsProper :=
  match item with
  | option .mass value => inferInstanceAs
      (Decidable (∀ part ∈ commaParts value, (Binary64.ofText? part.toList).isSome))
  | option .config _ | option .columns _ | option .column _ => isTrue trivial
  | positional argument =>
    inferInstanceAs (Decidable (¬ ['-', '-'] <+: argument.toList ∧ argument ≠ "-h"))

def positional? : Item → Option String
  | positional argument => some argument
  | _ => none

def config? : Item → Option String
  | option .config path => some path
  | _ => none

def namesColumns : Item → Bool
  | option .columns _ | option .column _ => true
  | _ => false

def givesMass : Item → Bool
  | option .mass _ => true
  | _ => false

/-- The columns of an item: a single name as it is, or the parts of a list between its commas
without the blanks around them, as far as anything is left. -/
def columns : Item → List String
  | option .columns value =>
    (((value.toList.splitOn ',').map trimBlanks).filter fun part => !part.isEmpty).map String.ofList
  | option .column value => [value]
  | _ => []

def mass : Item → List Binary64
  | option .mass value => (commaParts value).filterMap fun part => Binary64.ofText? part.toList
  | _ => []

end Item

/-- What is gathered once the items have been read too. -/
def Gathered.after (g : Gathered) (items : List Item) : Gathered where
  configPath := (items.filterMap Item.config?).getLast?.or g.configPath
  columns := g.columns ++ items.flatMap Item.columns
  mass := g.mass ++ items.flatMap Item.mass
  positionals := g.positionals ++ items.filterMap Item.positional?
  help := g.help

theorem columnsOfList_eq (value : String) :
    columnsOfList value = (Item.option .columns value).columns := by
  rw [columnsOfList, commaParts, Item.columns, List.filter_map, List.filter_map, List.map_map]
  have hempty : ∀ name : List Char, (String.ofList name).isEmpty = name.isEmpty := by
    intro name
    rw [Bool.eq_iff_iff, String.isEmpty_iff, List.isEmpty_iff]
    exact String.ofList_eq_empty_iff
  refine congrArg (List.map _) (List.filter_congr fun part _ => ?_)
  exact congrArg (!·) (hempty (trimBlanks part))

theorem massesOfParts_eq {parts : List String}
    (h : ∀ part ∈ parts, (Binary64.ofText? part.toList).isSome) :
    massesOfParts parts =
      .ok (parts.filterMap fun part => Binary64.ofText? part.toList) := by
  induction parts with
  | nil => rfl
  | cons part parts ih =>
    obtain ⟨hfirst, hrest⟩ := List.forall_mem_cons.mp h
    obtain ⟨x, hx⟩ := Option.isSome_iff_exists.mp hfirst
    simp only [massesOfParts, hx, ih hrest, List.filterMap_cons]

theorem argument_flag (setting : Setting) : Argument.of setting.flag = .option setting := by
  cases setting <;> rfl

theorem isPrefix_flag (setting : Setting) : ['-', '-'] <+: setting.flag.toList := by
  cases setting <;> decide

theorem argument_positional {argument : String} (hdashes : ¬ ['-', '-'] <+: argument.toList)
    (hhelp : argument ≠ "-h") : Argument.of argument = .positional := by
  have hflag : (Setting.all.find? fun setting => setting.flag == argument) = none := by
    rw [List.find?_eq_none]
    intro setting _ heq
    rw [← eq_of_beq heq] at hdashes
    exact hdashes (isPrefix_flag setting)
  have hhelp' : ¬ (argument = "--help" ∨ argument = "-h") := by
    rintro (rfl | rfl)
    · exact hdashes (by decide)
    · exact hhelp rfl
  have hunknown : ¬ ['-', '-'].isPrefixOf argument.toList = true :=
    fun h => hdashes (List.isPrefixOf_iff_prefix.mp h)
  rw [Argument.of, hflag]
  simp only [hhelp', hunknown, if_false, Bool.false_eq_true]

section One

attribute [local simp] Gathered.after Item.config? Item.positional? Item.columns Item.mass
  List.filterMap_cons

theorem Gathered.after_positional (g : Gathered) (argument : String) :
    g.after [.positional argument] = { g with positionals := g.positionals ++ [argument] } := by
  simp

theorem Gathered.apply_eq {setting : Setting} {value : String}
    (h : (Item.option setting value).IsProper) (g : Gathered) :
    g.apply value setting = .ok (g.after [.option setting value]) := by
  cases setting with
  | config | column => simp [apply]
  | columns => simp [apply, columnsOfList_eq]
  | mass => simp [apply, massesOfParts_eq h]

end One

/-- One item at the front of the arguments is read as what it is, whatever its value looks like and
whatever stands behind it. -/
theorem gather_item {item : Item} (h : item.IsProper) (g : Gathered) (rest : List String) :
    gather g (item.arguments ++ rest) = gather (g.after [item]) rest := by
  cases item with
  | positional argument =>
    rw [Item.arguments, List.singleton_append, gather, argument_positional h.1 h.2,
      Gathered.after_positional]
  | option setting value =>
    rw [Item.arguments, List.cons_append, List.singleton_append, gather, argument_flag]
    simp only [Gathered.apply_eq h]

theorem Gathered.after_cons (g : Gathered) (item : Item) (items : List Item) :
    (g.after [item]).after items = g.after (item :: items) := by
  -- A later configuration replaces an earlier one; all else is appended.
  have hconfig : ((item :: items).filterMap Item.config?).getLast? =
      (items.filterMap Item.config?).getLast?.or ([item].filterMap Item.config?).getLast? := by
    rw [← List.getLast?_append, ← List.filterMap_append]
    rfl
  have hpositionals : (item :: items).filterMap Item.positional? =
      [item].filterMap Item.positional? ++ items.filterMap Item.positional? := by
    rw [← List.filterMap_append]
    rfl
  simp only [Gathered.after, hconfig, hpositionals, Option.or_assoc, List.append_assoc,
    List.flatMap_cons, List.flatMap_nil, List.append_nil]

/-- All items are read, and nothing else is. -/
theorem gather_items {items : List Item} (h : ∀ item ∈ items, item.IsProper) (g : Gathered) :
    gather g (items.flatMap Item.arguments) = .ok (g.after items) := by
  induction items generalizing g with
  | nil =>
    simp only [List.flatMap_nil, gather, Gathered.after, List.filterMap_nil, List.getLast?_nil,
      Option.none_or, List.append_nil]
  | cons item items ih =>
    obtain ⟨hfirst, hrest⟩ := List.forall_mem_cons.mp h
    rw [List.flatMap_cons, gather_item hfirst, ih hrest, Gathered.after_cons]

/-- The same positional arguments, the same last configuration, the same columns and the same
masses, each in the same order but interleaved in whatever way. -/
structure Interleaved (items others : List Item) : Prop where
  positionals : items.filterMap Item.positional? = others.filterMap Item.positional?
  config : (items.filterMap Item.config?).getLast? = (others.filterMap Item.config?).getLast?
  columns : items.filter Item.namesColumns = others.filter Item.namesColumns
  mass : items.filter Item.givesMass = others.filter Item.givesMass

/-- Only the items that yield something count. -/
theorem flatMap_filter_eq {α β : Type} {p : α → Bool} {f : α → List β}
    (h : ∀ a, p a = false → f a = []) (as : List α) : as.flatMap f = (as.filter p).flatMap f := by
  induction as with
  | nil => rfl
  | cons a as ih =>
    rw [List.flatMap_cons, ih]
    cases hp : p a with
    | true => rw [List.filter_cons_of_pos hp, List.flatMap_cons]
    | false => rw [List.filter_cons_of_neg (by simp [hp]), h a hp, List.nil_append]

theorem Item.columns_eq_nil {item : Item} (h : item.namesColumns = false) : item.columns = [] := by
  cases item with
  | positional => rfl
  | option setting => cases setting <;> first | rfl | cases h

theorem Item.mass_eq_nil {item : Item} (h : item.givesMass = false) : item.mass = [] := by
  cases item with
  | positional => rfl
  | option setting => cases setting <;> first | rfl | cases h

theorem Interleaved.after_eq {items others : List Item} (h : Interleaved items others)
    (g : Gathered) : g.after items = g.after others := by
  have hcolumns : items.flatMap Item.columns = others.flatMap Item.columns := by
    rw [flatMap_filter_eq (fun _ => Item.columns_eq_nil) items, h.columns,
      ← flatMap_filter_eq (fun _ => Item.columns_eq_nil)]
  have hmass : items.flatMap Item.mass = others.flatMap Item.mass := by
    rw [flatMap_filter_eq (fun _ => Item.mass_eq_nil) items, h.mass,
      ← flatMap_filter_eq (fun _ => Item.mass_eq_nil)]
  rw [Gathered.after, Gathered.after, h.positionals, h.config, hcolumns, hmass]

theorem ofArguments_items {items : List Item} (h : ∀ item ∈ items, item.IsProper) :
    ofArguments (items.flatMap Item.arguments) =
      match positionalCommand (Gathered.start.after items) (Gathered.start.after items).positionals
        with
      | .error e => .error e
      | .ok command => .ok ⟨(Gathered.start.after items).configPath, command⟩ := by
  rw [ofArguments, gather_items h]
  rfl

/-- The columns that a command is given. -/
def commandColumns : Command → Option (List String)
  | .parse columns _ | .validate columns _ _ => some columns
  | _ => none

theorem columns_of_positionalCommand {g : Gathered} {words : List String} {command : Command}
    (h : positionalCommand g words = .ok command) {columns : List String}
    (hcolumns : commandColumns command = some columns) : columns = g.columns := by
  unfold positionalCommand at h
  split at h
  · cases h
    cases hcolumns
  split at h
  · cases h
  rename_i verb _
  split at h
  · cases h
  · cases h
    cases verb <;> cases hcolumns <;> rfl
  · cases h

/-- Options may stand anywhere between the positional arguments. The columns of a command are those
of the single names and of the lists in the order in which they stand. -/
theorem ofArguments_interleaved {items others : List Item} (hitems : ∀ item ∈ items, item.IsProper)
    (hothers : ∀ item ∈ others, item.IsProper) (h : Interleaved items others) :
    ofArguments (items.flatMap Item.arguments) = ofArguments (others.flatMap Item.arguments) ∧
      ∀ path command columns, ofArguments (items.flatMap Item.arguments) = .ok ⟨path, command⟩ →
        commandColumns command = some columns → columns = items.flatMap Item.columns := by
  constructor
  · rw [ofArguments_items hitems, ofArguments_items hothers, h.after_eq]
  · intro path command columns hresult hcolumns
    rw [ofArguments_items hitems] at hresult
    split at hresult
    · cases hresult
    · rename_i hcommand
      cases hresult
      exact columns_of_positionalCommand hcommand hcolumns

/-- Values that look like options are values. -/
theorem ofArguments_interleaved_validate :
    let lists : List Item := [.option .columns " b,, c ", .option .column "--help,-h"]
    let items : List Item := .option .mass "0, -0" :: .option .config "a" :: lists ++
      [.positional "validate", .positional "b > 0", .option .config "--mass"]
    let others : List Item := .positional "validate" :: .option .config "--mass" ::
      .positional "b > 0" :: lists ++ [.option .mass "0, -0"]
    (∀ item ∈ items, item.IsProper) ∧ (∀ item ∈ others, item.IsProper) ∧
      Interleaved items others ∧
      ofArguments (items.flatMap Item.arguments) = ofArguments (others.flatMap Item.arguments) ∧
      ofArguments (items.flatMap Item.arguments) = .ok ⟨some "--mass",
        .validate ["b", "c", "--help,-h"] [.zero false, .zero true] "b > 0"⟩ ∧
      ["b", "c", "--help,-h"] = items.flatMap Item.columns := by
  intro lists items others
  have hitems : ∀ item ∈ items, item.IsProper := by decide +kernel
  have hothers : ∀ item ∈ others, item.IsProper := by decide +kernel
  have hinterleaved : Interleaved items others := ⟨rfl, rfl, rfl, rfl⟩
  have hresult : ofArguments (items.flatMap Item.arguments) = .ok ⟨some "--mass",
      .validate ["b", "c", "--help,-h"] [.zero false, .zero true] "b > 0"⟩ := by decide +kernel
  obtain ⟨hsame, hcolumns⟩ := ofArguments_interleaved hitems hothers hinterleaved
  exact ⟨hitems, hothers, hinterleaved, hsame, hresult, hcolumns _ _ _ hresult rfl⟩

end ColumnRules.Invocation
