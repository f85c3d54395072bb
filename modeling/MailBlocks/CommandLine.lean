import MailBlocks.Compile

/-!
# The command line

Four commands: the default attributes of a kind, the check of a project, its email, and its compiled
form. A command reads at most one file and writes at most one; what it reads is given to it and what
it writes is given back, so that running a command is a function.

* `Command.ofArguments?`: the command that arguments spell.
* `Command.run`: what a command prints and writes.
-/

namespace MailBlocks

/-- **A command.** -/
inductive Command where
  | help
  | defaults (type : String)
  | validate (input : String) (strict : Bool)
  | render (input : String) (output : Option String)
  | compile (input : String) (strict : Bool)
  deriving DecidableEq, Repr

/-- The path of the file that a command reads, if it reads one. -/
def Command.input? : Command → Option String
  | validate input _ | render input _ | compile input _ => some input
  | help | defaults _ => none

/-! ## Arguments -/

/-- What can stand among the arguments of a command. -/
inductive Argument where
  | verbose
  | strict
  | help
  | input (path : String)
  | output (path : String)
  | positional (text : String)
  deriving DecidableEq, Repr

namespace Argument

/-- Whether arguments may be repeated as that one. -/
def sameSwitch : Argument → Argument → Bool
  | verbose, verbose | strict, strict | input _, input _ | output _, output _ => true
  | _, _ => false

/-- Whether a text can be the value of an option: it is not empty and does not look like one. -/
def isValue (s : String) : Bool :=
  s == "-" || (!s.isEmpty && !"-".toList.isPrefixOf s.toList)

end Argument

/-- The words of the commands, the options that each takes, and whether it takes a text. -/
structure CommandShape where
  word : String
  takesStrict : Bool
  takesInput : Bool
  takesOutput : Bool
  takesText : Bool
  deriving DecidableEq, Repr

/-- The shapes of the commands. -/
def commandShapes : List CommandShape :=
  [⟨"defaults", false, false, false, true⟩, ⟨"validate", true, true, false, false⟩,
    ⟨"render", false, true, true, false⟩, ⟨"compile", true, true, false, false⟩]

namespace CommandShape

open Argument

/-- The option that takes a value and is written as one letter. -/
def letterOption? (shape : CommandShape) (c : Char) : Option (String → Argument) :=
  if c = 'i' && shape.takesInput then some input
  else if c = 'o' && shape.takesOutput then some output
  else none

/-- The option that takes a value and is written as a word. -/
def wordOption? (shape : CommandShape) (s : String) : Option (String → Argument) :=
  if s = "input" && shape.takesInput then some input
  else if s = "output" && shape.takesOutput then some output
  else none

/-- The switch that is written as one letter. -/
def letterSwitch? (c : Char) : Option Argument :=
  if c = 'v' then some verbose else if c = 'h' then some help else none

/-- The switch that is written as a word. -/
def wordSwitch? (shape : CommandShape) (s : String) : Option Argument :=
  if s = "verbose" then some verbose
  else if s = "help" then some help
  else if s = "strict" && shape.takesStrict then some strict
  else none

/-- The value of an option that is written together with it, behind an equals sign or not. -/
def attached (cs : List Char) : String :=
  String.ofList (match cs with
    | '=' :: value => value
    | value => value)

/-- What one argument gives: arguments, and an option whose value is still to come, if there is
one. -/
abbrev Piece := List Argument × Option (String → Argument)

/-- Letters behind a hyphen: switches, and perhaps an option with its value at the end. Without a
value the option waits for the next argument. -/
def letters? (shape : CommandShape) : List Char → Option Piece
  | [] => some ([], none)
  | c :: cs =>
    match shape.letterOption? c with
    | some option =>
      if cs.isEmpty then some ([], some option)
      else if (attached cs).isEmpty then none
      else some ([option (attached cs)], none)
    | none => do
      let switch ← letterSwitch? c
      -- help ends the reading, whatever follows
      if switch = help then some ([help], none)
      -- a switch has no value
      else if cs.head? == some '=' then none
      else do
        let (rest, waiting) ← letters? shape cs
        pure (switch :: rest, waiting)

/-- A word behind two hyphens, perhaps with a value behind an equals sign. -/
def longWord? (shape : CommandShape) (cs : List Char) : Option Piece :=
  let name := String.ofList (cs.takeWhile (· != '='))
  match cs.dropWhile (· != '='), shape.wordOption? name with
  | [], some option => some ([], some option)
  | _ :: value, some option =>
    if value.isEmpty then none else some ([option (String.ofList value)], none)
  | [], none => (shape.wordSwitch? name).map fun switch => ([switch], none)
  | _ :: _, none => none

/-- Adds arguments to those before them. None may be repeated, and there is at most one text. -/
def add? (shape : CommandShape) (done : List Argument) : List Argument → Option (List Argument)
  | [] => some done
  | positional s :: rest =>
    if !shape.takesText || done.any (fun | positional _ => true | _ => false) then none
    else add? shape (done ++ [positional s]) rest
  -- help ends the reading, whatever follows
  | help :: _ => some (done ++ [help])
  | a :: rest => if done.any (sameSwitch a) then none else add? shape (done ++ [a]) rest

/-- **Reads the arguments of a command** from left to right, `done` having been read. `plain` holds
behind a double hyphen, where everything is a text. -/
def arguments? (shape : CommandShape) :
    Bool → Option (String → Argument) → List Argument → List String → Option (List Argument)
  | _, some _, _, [] => none
  | _, none, done, [] => some done
  | plain, some option, done, s :: rest =>
    if isValue s then do
      let done ← shape.add? done [option s]
      arguments? shape plain none done rest
    else none
  | plain, none, done, s :: rest =>
    if done.contains help then some done
    else
      match s.toList with
      | '-' :: c :: cs =>
        if plain then do
          let done ← shape.add? done [positional s]
          arguments? shape plain none done rest
        else if c = '-' then
          if cs.isEmpty then arguments? shape true none done rest
          else do
            let (as, waiting) ← shape.longWord? cs
            let done ← shape.add? done as
            arguments? shape plain waiting done rest
        else do
          let (as, waiting) ← shape.letters? (c :: cs)
          let done ← shape.add? done as
          arguments? shape plain waiting done rest
      | _ => do
        let done ← shape.add? done [positional s]
        arguments? shape plain none done rest

/-- The command of a shape with some arguments, if none is missing. -/
def command? (shape : CommandShape) (arguments : List Argument) : Option Command :=
  let path := arguments.findSome? fun | input p => some p | _ => none
  let target := arguments.findSome? fun | output p => some p | _ => none
  let text := arguments.findSome? fun | positional s => some s | _ => none
  let isStrict := arguments.contains strict
  if arguments.contains help then some .help
  else
    match shape.word with
    | "defaults" => text.map .defaults
    | "validate" => path.map fun p => .validate p isStrict
    | "render" => path.map fun p => .render p target
    | "compile" => path.map fun p => .compile p isStrict
    | _ => none

end CommandShape

namespace Command

/-- The shape of the arguments in front of a command. -/
def frontShape : CommandShape := ⟨"", false, false, false, false⟩

/-- The command whose word is ahead, behind switches that have been read. -/
def afterFront? : List Argument → List String → Option Command
  | _, [] => none
  | done, s :: rest =>
    match s.toList with
    | '-' :: _ :: _ => do
      if s = "--" then none
      else
        let done ← frontShape.arguments? false none done [s]
        if done.contains .help then some .help else afterFront? done rest
    | _ =>
      if s = "help" then
        -- help about a command, or about help
        if rest.isEmpty ||
            (rest.length = 1 &&
              rest.all fun w => w = "help" || commandShapes.any (·.word == w)) then
          some .help
        else none
      else do
        let shape ← commandShapes.find? (·.word == s)
        let arguments ← shape.arguments? false none [] rest
        shape.command? arguments

/-- **The command that arguments spell.** The switch for more messages may stand anywhere. -/
def ofArguments? (arguments : List String) : Option Command :=
  afterFront? [] arguments

/-- The commands with their options. -/
def usage : String :=
  "defaults TYPE\nvalidate --input FILE [--strict]\nrender --input FILE [--output FILE]\n" ++
    "compile --input FILE [--strict]\n"

end Command

/-! ## Running -/

/-- **What a command does**: its exit status, what it prints, and what it writes where. -/
structure Outcome where
  exit : UInt8
  stdout : String
  writes : Option (String × String)
  deriving DecidableEq, Repr

namespace Outcome

/-- An outcome that only prints. -/
def printing (exit : UInt8) (stdout : String) : Outcome :=
  ⟨exit, stdout, none⟩

/-- An outcome that prints a line with an object, its keys in ascending order. -/
def failing (exit : UInt8) (error : String) (extra : List (String × Json.Value)) : Outcome :=
  .printing exit
    ((Json.Value.object ([("success", .bool false), ("error", .string error)] ++ extra)).canonical
      ++ "\n")

/-- The exit status once the file was written, or not. -/
def exitAfter (o : Outcome) (written : Bool) : UInt8 :=
  if written then o.exit else 1

end Outcome

namespace Command

/-- Errors block in the strict mode. -/
def mode (strict : Bool) : Lint.Mode :=
  if strict then .block else .warn

/-- The project in a file, or the outcome that reports why it cannot be loaded. `read` gives the
content of a file or the reason why it cannot be read. -/
def load (read : String → Except String String) (path : String) : Except Outcome Project :=
  let project :=
    match read path with
    | .ok text => Project.parse text
    | .error reason => .error (.unreadable path reason)
  project.mapError fun e => .failing 1 e.message []

/-- The outcome of either side. -/
def settle : Except Outcome Outcome → Outcome
  | .ok o => o
  | .error o => o

/-- **Runs a command.** -/
def run (read : String → Except String String) (stamp : Stamp) (fresh : Nat → FreshIds) :
    Command → Outcome
  | .help => .printing 0 ""
  | .defaults type =>
    if (Kind.ofName? type).isNone then
      .failing 1 ("Unknown component type: " ++ type)
        [("known", .array (Kind.all.map fun k => .string k.name))]
    else .printing 0 ((newAttributes type).toValue.pretty ++ "\n")
  | .validate input strict => settle do
    let p ← load read input
    let report := Lint.check (mode strict) p
    .ok (.printing (if report.valid then 0 else 2) (report.toValue.pretty ++ "\n"))
  | .render input output => settle do
    let p ← load read input
    let html := Email.render (p.document fresh) p.settings
    match output with
    | some path => .ok ⟨0, "", some (path, html)⟩
    | none => .ok (.printing 0 html)
  | .compile input strict => settle do
    let p ← load read input
    match MailBlocks.compile (mode strict) stamp fresh p with
    | .ok email =>
      let answer : Json.Value := .object [("success", .bool true), ("email", email.toValue)]
      .ok (.printing 0 (answer.sorted.pretty ++ "\n"))
    | .error e => .ok (.failing 2 e.message [])

/-- **Runs the command that arguments spell.** Arguments that spell none are a usage error. -/
def runArguments (read : String → Except String String) (stamp : Stamp) (fresh : Nat → FreshIds)
    (arguments : List String) : Outcome :=
  match ofArguments? arguments with
  | some c => c.run read stamp fresh
  | none => .printing 2 ""

end Command

end MailBlocks
