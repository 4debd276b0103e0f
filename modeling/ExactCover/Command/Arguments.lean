import ExactCover.Command.Options
import ExactCover.Text.Numeral
/-!
From arguments to a command. The name of a subcommand counts only in front; anything else there
makes the whole line one of options and at most one path. Arguments are taken from left to right,
and the first one that asks for help, or cannot be, settles the matter.
-/

namespace ExactCover

inductive UsageError
  | unknownOption (text : String)
  | missingValue (option : String)
  | unneededValue (option : String)
  | invalidValue (option value : String)
  | repeated (option : String)
  | surplus (text : String)
  | missing (option : String)
deriving DecidableEq, Repr

def UsageError.message : UsageError → String
  | unknownOption text => s!"unknown option {text}"
  | missingValue option => s!"{option} needs a value"
  | unneededValue option => s!"{option} takes no value"
  | invalidValue option value => s!"{option} cannot be {value}"
  | repeated option => s!"{option} is given twice"
  | surplus text => s!"nothing is expected at {text}"
  | missing option => s!"{option} is missing"

namespace Arguments

structure Settings where
  options : Options := {}
  params : Planted := {}
  path : Option String := none
  input : Option String := none
  shell : Option Shell := none
  /-- The names of what was set. -/
  given : List String := []

/-- What an option does: a flag stands alone, a value has to suit. -/
inductive Action
  | flag (set : Settings → Settings)
  | value (set : String → Settings → Option Settings)
  | help
  | version

structure Declaration where
  name : String
  letter : Option Char
  action : Action

structure Grammar where
  options : List Declaration
  operand : Option (String → Settings → Option Settings)

inductive Halt
  | usage (error : UsageError)
  | help
  | version
deriving DecidableEq, Repr

def refuse {α : Type} (error : UsageError) : Except Halt α := .error (.usage error)

def bool? (text : String) : Option Bool :=
  if text == "true" then some true else if text == "false" then some false else none

def path? (text : String) : Option String := if text.isEmpty then none else some text

def word? (text : String) : Option Nat := Text.word? text.toList

/-- An option whose value is read by `read?` and put into place by `set`. -/
def valued {α : Type} (name : String) (letter : Option Char) (read? : String → Option α)
    (set : α → Settings → Settings) : Declaration :=
  { name, letter, action := .value fun text s => (read? text).map fun value => set value s }

def helpOption : Declaration := { name := "help", letter := some 'h', action := .help }

def versionOption : Declaration := { name := "version", letter := some 'V', action := .version }

def commonOptions : List Declaration := [
  { name := "debug", letter := some 'd',
    action := .flag fun s => { s with options.debug := true } },
  valued "verify" (some 'v') bool? fun b s => { s with options.verify := b },
  valued "stats" (some 's') bool? fun b s => { s with options.stats := b },
  { name := "print-solution", letter := some 'p',
    action := .flag fun s => { s with options.printSolution := true } },
  { name := "sorted", letter := none,
    action := .flag fun s => { s with options.sorted := true } },
  valued "solver" none (Driver.ofName? · false) fun d s => { s with options.driver := d },
  valued "column-selection" none (Selector.ofName? · false) fun c s =>
    { s with options.selector := c }]

def pathOption : Declaration := valued "path" none path? fun p s => { s with path := some p }

def inputOption : Declaration := valued "input" (some 'i') some fun t s => { s with input := some t }

def randomOptions : List Declaration := [
  valued "columns" none word? fun n s => { s with params.columns := n },
  valued "rows" none word? fun n s => { s with params.extraRows := n },
  valued "density" none (Text.double? ·.toList) fun x s => { s with params.density := x },
  valued "max-group" none word? fun n s => { s with params.maxGroup := n },
  valued "seed" none word? fun n s => { s with params.seed := n.toUInt64 }]

def pathOperand (text : String) (s : Settings) : Option Settings :=
  (path? text).map fun p => { s with path := some p }

def shellOperand (text : String) (s : Settings) : Option Settings :=
  (Shell.ofName? text).map fun shell => { s with shell := some shell }

def note (name : String) (s : Settings) : Except Halt Settings :=
  if s.given.contains name then refuse (.repeated name)
  else .ok { s with given := name :: s.given }

def setValue (option : Declaration) (set : String → Settings → Option Settings) (value : String)
    (s : Settings) : Except Halt Settings :=
  match set value s with
  | some s => note option.name s
  | none => refuse (.invalidValue option.name value)

def takeOperand (g : Grammar) (s : Settings) (text : String) : Except Halt Settings :=
  match g.operand with
  | none => refuse (.surplus text)
  | some set =>
    if s.given.contains "" then refuse (.surplus text)
    else match set text s with
      | some s => .ok { s with given := "" :: s.given }
      | none => refuse (.invalidValue "argument" text)

/-- Takes letters behind one dash: flags, then perhaps an option, the rest being its value, with or
without an equals sign. An option at the end is handed back, for its value comes next. -/
def takeLetters (g : Grammar) : List Char → Settings →
    Except Halt (Settings × Option (Declaration × (String → Settings → Option Settings)))
  | [], s => .ok (s, none)
  | c :: rest, s =>
    match g.options.find? (·.letter == some c) with
    | none => refuse (.unknownOption (String.singleton c))
    | some option =>
      match option.action with
      | .help => .error .help
      | .version => .error .version
      | .flag set => do
        let s ← note option.name (set s)
        takeLetters g rest s
      | .value set =>
        match rest with
        | [] => .ok (s, some (option, set))
        | '=' :: value => do
          let s ← setValue option set (String.ofList value) s
          return (s, none)
        | value => do
          let s ← setValue option set (String.ofList value) s
          return (s, none)

inductive Shape
  /-- Two dashes alone: all that follows is without a dash. -/
  | separator
  | named (name : String) (value : Option String)
  | letters (letters : List Char)
  | operand

def shapeOf (text : String) : Shape :=
  match text.toList with
  | ['-', '-'] => .separator
  | '-' :: '-' :: rest =>
    let name := rest.takeWhile (· != '=')
    match rest.drop name.length with
    | [] => .named (String.ofList name) none
    | _ :: value => .named (String.ofList name) (some (String.ofList value))
  | ['-'] => .operand
  | '-' :: rest => .letters rest
  | _ => .operand

def isValue (text : String) : Bool :=
  match shapeOf text with
  | .operand => true
  | _ => false

def take (g : Grammar) : List String → Settings → Except Halt Settings
  | [], s => .ok s
  | arg :: rest, s =>
    match shapeOf arg with
    | .separator => rest.foldlM (takeOperand g) s
    | .operand => do
      let s ← takeOperand g s arg
      take g rest s
    | .letters letters => do
      let (s, pending) ← takeLetters g letters s
      match pending, rest with
      | none, rest => take g rest s
      | some (option, _), [] => refuse (.missingValue option.name)
      | some (option, set), value :: rest =>
        if isValue value then do
          let s ← setValue option set value s
          take g rest s
        else refuse (.missingValue option.name)
    | .named name attached =>
      match g.options.find? (·.name == name) with
      | none => refuse (.unknownOption name)
      | some option =>
        match option.action, attached with
        | .value set, some value => do
          let s ← setValue option set value s
          take g rest s
        | .value set, none =>
          match rest with
          | [] => refuse (.missingValue name)
          | value :: rest =>
            if isValue value then do
              let s ← setValue option set value s
              take g rest s
            else refuse (.missingValue name)
        | _, some _ => refuse (.unneededValue name)
        | .help, none => .error .help
        | .version, none => .error .version
        | .flag set, none => do
          let s ← note name (set s)
          take g rest s

def topGrammar : Grammar :=
  { options := commonOptions ++ [helpOption, versionOption], operand := some pathOperand }

inductive Subcommand
  | file
  | text
  | sudoku
  | random
  | completions
deriving DecidableEq, Repr

namespace Subcommand

def all : List Subcommand := [file, text, sudoku, random, completions]

def name : Subcommand → String
  | file => "file"
  | text => "text"
  | sudoku => "sudoku"
  | random => "random"
  | completions => "completions"

def ofName? (text : String) : Option Subcommand := all.find? fun sub => sub.name == text

def grammar : Subcommand → Grammar
  | file | sudoku => { options := pathOption :: commonOptions ++ [helpOption], operand := none }
  | text => { options := inputOption :: commonOptions ++ [helpOption], operand := none }
  | random => { options := randomOptions ++ commonOptions ++ [helpOption], operand := none }
  | completions => { options := [helpOption], operand := some shellOperand }

def need {α : Type} (name : String) : Option α → Except Halt α
  | some value => .ok value
  | none => refuse (.missing name)

def command (sub : Subcommand) (s : Settings) : Except Halt Command :=
  match sub with
  | file => do return .solve (.file (← need "path" s.path)) s.options
  | text => do return .solve (.text (← need "input" s.input)) s.options
  | sudoku => do return .solve (.sudoku (← need "path" s.path)) s.options
  | random => .ok (.solve (.random s.params) s.options)
  | completions => do return .completions (← need "shell" s.shell)

end Subcommand

/-- A line that starts with `help`: at most one further name. -/
def helpOn : List String → Except Halt Command
  | [] => .ok .help
  | [topic] =>
    if topic == "help" || (Subcommand.ofName? topic).isSome then .ok .help
    else refuse (.surplus topic)
  | _ :: extra :: _ => refuse (.surplus extra)

/-- A line without a subcommand; without a path it asks for help. -/
def topCommand (args : List String) : Except Halt Command := do
  let s ← take topGrammar args {}
  match s.path with
  | some path => return .solve (.path path) s.options
  | none => return .help

def read : List String → Except Halt Command
  | [] => topCommand []
  | first :: rest =>
    if first == "help" then helpOn rest
    else match Subcommand.ofName? first with
      | some sub => do
        let s ← take sub.grammar rest {}
        sub.command s
      | none => topCommand (first :: rest)

end Arguments

def Command.ofArguments (args : List String) : Except UsageError Command :=
  match Arguments.read args with
  | .ok command => .ok command
  | .error .help => .ok .help
  | .error .version => .ok .version
  | .error (.usage error) => .error error

end ExactCover
