import RexxEditing.Command.Arg

/-! # Reading the command line

The command line is read from left to right. A value counts only when it is settled: by the option
or argument after it, or by the end. Until then an unknown option after it is reported first. The
part after the subcommand is read and checked before the part in front of it is checked.
-/

namespace RexxEditing.Command

/-- Why there is nothing to do. -/
inductive Stop where
  | usage (error : UsageError)
  | version
  /-- The help for a level was asked for. -/
  | help (level : Level)
  /-- Nothing was asked for. -/
  | nothing
  deriving DecidableEq, Repr

/-- What comes of asking for help with the given names after it. Each is the name of a subcommand of
the one before it, and subcommands have none. -/
def Stop.ofHelp : List String → Stop
  | [] => .help none
  | [name] => if Subcommand.isName name then .help (Subcommand.ofName? name) else
    .usage (.unknownSubcommand name)
  | name :: next :: _ =>
    .usage (.unknownSubcommand (if Subcommand.isName name then next else name))

/-- An option or argument that is not settled, and its value if that has come. -/
structure Pending where
  arg : Arg
  value : Option String
  deriving DecidableEq, Repr

/-- What was read of a level. -/
structure Scan where
  /-- The settings in the order in which they were made. -/
  settled : List Setting
  pending : Option Pending
  deriving DecidableEq, Repr

namespace Scan

/-- Nothing was read. -/
def start : Scan := ⟨[], none⟩

/-- Whether the last option waits for its value. -/
def isWaiting (s : Scan) : Bool := s.pending.any (·.value.isNone)

/-- Whether an option or argument is settled. -/
def has (s : Scan) (arg : Arg) : Bool := s.settled.any (·.arg == arg)

/-- Adds a setting, which must be the first of its kind. -/
def add (s : Scan) (arg : Arg) (setting : Except UsageError Setting) : Except UsageError Scan :=
  if s.has arg then .error (.repeated arg)
  else do return { s with settled := s.settled ++ [← setting] }

/-- Settles what is pending. -/
def settle (s : Scan) : Except UsageError Scan :=
  match s.pending with
  | none => .ok s
  | some ⟨arg, none⟩ => .error (.missingValue arg)
  | some ⟨arg, some value⟩ => add ⟨s.settled, none⟩ arg (Setting.ofValue arg value)

/-- Puts something new in the place of what is pending. -/
def suspend (s : Scan) (arg : Arg) (value : Option String) : Except UsageError Scan := do
  return { ← s.settle with pending := some ⟨arg, value⟩ }

/-- The setting of an option without a value. -/
def flag (level : Level) : Arg → Except Stop Setting
  | .verbose => .ok .verbose
  | .quiet => .ok .quiet
  | .check => .ok .check
  | .write => .ok .write
  | .version => .error .version
  | .help => .error (.help level)
  | arg => .error (.usage (.missingValue arg))

/-- A usage error as the reason to stop. -/
def orStop {α : Type} : Except UsageError α → Except Stop α
  | .ok a => .ok a
  | .error e => .error (.usage e)

/-- Reads an option without a value. -/
def readFlag (level : Level) (s : Scan) (arg : Arg) : Except Stop Scan := do
  let s ← orStop s.settle
  let setting ← flag level arg
  orStop (s.add arg (.ok setting))

/-- Reads an option with its value behind it, or one whose value is still to come. -/
def readOption (s : Scan) (arg : Arg) : Option String → Except UsageError Scan
  | none => s.suspend arg none
  | some value => do (← s.settle).add arg (Setting.ofValue arg value)

/-- Reads an option with two dashes, without them. A value may follow an equals sign. -/
def readLong (level : Level) (s : Scan) (text : Text) : Except Stop Scan :=
  let (name, rest) := text.span (· != '=')
  let value := rest.tail?.map String.ofList
  match level.ofLong? (String.ofList name), value with
  | none, _ => .error (.usage (.unexpected (String.ofList ('-' :: '-' :: name))))
  | some arg, value =>
    if arg.takesValue then orStop (s.readOption arg value)
    else
      match value with
      | some v => .error (.usage (.extraValue v arg))
      | none => s.readFlag level arg

/-- The value behind the letter of an option. An equals sign in front of it is left out. -/
def attached? : Text → Option String
  | [] => none
  | '=' :: cs => some (String.ofList cs)
  | cs => some (String.ofList cs)

/-- Reads the letters of options after one dash. A letter that takes a value takes all behind it. -/
def readShort (level : Level) (s : Scan) : Text → Except Stop Scan
  | [] => .ok s
  | c :: cs =>
    match level.ofShort? c with
    | none => .error (.usage (.unexpected (String.ofList ['-', c])))
    | some arg =>
      if arg.takesValue then orStop (s.readOption arg (attached? cs))
      else do readShort level (← s.readFlag level arg) cs

/-- Whether an argument is settled or pending. -/
def isTaken (s : Scan) (arg : Arg) : Bool := s.has arg || s.pending.any (·.arg == arg)

/-- Reads an argument. `afterDashes` tells whether two dashes stood somewhere before it. -/
def readArgument (level : Level) (afterDashes : Bool) (s : Scan) (a : String) :
    Except Stop Scan :=
  match level, level.argument? with
  | none, _ =>
    if afterDashes && Subcommand.isName a then .error (.usage (.unexpected a))
    else .error (.usage (.unknownSubcommand a))
  | some _, none => .error (.usage (.unexpected a))
  | some _, some arg =>
    if s.isTaken arg then .error (.usage (.unexpected a)) else orStop (s.suspend arg (some a))

/-- Reads an option, the value of an option that waits for it, or an argument. -/
def read (level : Level) (s : Scan) (a : String) : Except Stop Scan :=
  match a.toList with
  | '-' :: '-' :: name => s.readLong level name
  | '-' :: c :: cs => s.readShort level (c :: cs)
  | _ =>
    match s.pending with
    | some ⟨arg, none⟩ => .ok { s with pending := some ⟨arg, some a⟩ }
    | _ => s.readArgument level false a

/-- Reads arguments after two dashes. -/
def readArguments (level : Level) (s : Scan) : List String → Except Stop Scan
  | [] => .ok s
  | a :: rest => do readArguments level (← s.readArgument level true a) rest

/-- Reads up to the end or to a subcommand, and gives what follows the latter. -/
def readAll (level : Level) (s : Scan) :
    List String → Except Stop (Scan × Option (Subcommand × List String))
  | [] => .ok (s, none)
  | a :: rest =>
    if level.isNone && !s.isWaiting && a == Subcommand.helpName then .error (.ofHelp rest)
    else
      match if level.isNone && !s.isWaiting then Subcommand.ofName? a else none with
      | some c => .ok (s, some (c, rest))
      | none =>
        if a = "--" then do return (← s.readArguments level rest, none)
        else do readAll level (← s.read level a) rest

/-! ## Checks -/

/-- The first of the settings that cannot stand with others, and those. -/
def conflict? (settings : List Setting) : Option (Arg × List Arg) :=
  let args := settings.map Setting.arg
  args.findSome? fun a =>
    match args.filter a.conflictsWith with
    | [] => none
    | others => some (a, others)

/-- The settings of a level, if they may stand together and nothing is missing. -/
def check (level : Level) (s : Scan) : Except UsageError (List Setting) :=
  match conflict? s.settled with
  | some (arg, others) => .error (.conflict arg others)
  | none =>
    if level.required?.all s.has then .ok s.settled else .error .missingArgument

/-- Settles and checks a level. -/
def finish (level : Level) (s : Scan) : Except UsageError (List Setting) := do
  (← s.settle).check level

end Scan

/-! ## Requests -/

/-- The settings of a level. -/
abbrev Chosen := List Setting

namespace Chosen

/-- The path, which every task on a file has. -/
def path (settings : Chosen) : String :=
  (settings.findSome? fun | .path p => some p | _ => none).getD ""

/-- The configuration file. -/
def config? (settings : Chosen) : Option String :=
  settings.findSome? fun | .config file => some file | _ => none

/-- The format. -/
def format (settings : Chosen) : Format :=
  (settings.findSome? fun | .format f => some f | _ => none).getD .json

/-- The offset. -/
def offset? (settings : Chosen) : Option Nat :=
  settings.findSome? fun | .offset n => some n | _ => none

/-- The table. -/
def table? (settings : Chosen) : Option String :=
  settings.findSome? fun | .table name => some name | _ => none

/-- What is done with the indentation. No two of its settings stand together. -/
def action (settings : Chosen) : IndentAction :=
  (settings.findSome? fun
    | .line n => some (.column n)
    | .check => some .check
    | .write => some .write
    | _ => none).getD .print

/-- The task of a subcommand. -/
def task (settings : Chosen) : Subcommand → Task
  | .highlight => .highlight settings.path settings.format
  | .indent => .indent settings.path settings.offset? settings.action
  | .outline => .outline settings.path
  | .vocabulary => .vocabulary settings.table?

end Chosen

/-- The request of a subcommand from the settings in front of it and after it. The configuration
file after it wins. -/
def Request.ofSettings (c : Subcommand) (front after : Chosen) : Request where
  config := after.config?.or front.config?
  verbose := front.contains .verbose || after.contains .verbose
  quiet := front.contains .quiet || after.contains .quiet
  task := after.task c

/-- The request that a command line makes. -/
def parse (args : List String) : Except Stop Request := do
  match ← Scan.start.readAll none args with
  | (s, none) =>
    let s ← Scan.orStop s.settle
    if s.settled.isEmpty then throw .nothing else throw (.usage .missingSubcommand)
  | (front, some (c, rest)) =>
    let (s, _) ← Scan.start.readAll (some c) rest
    let after ← Scan.orStop (s.finish (some c))
    let front ← Scan.orStop (front.finish none)
    return .ofSettings c front after

end RexxEditing.Command
