import RexxEditing.Command.Request
import RexxEditing.Text.Terminal

/-! # Options and arguments

What may stand on the command line: options with and without values, and arguments that are known by
their position. Reading one gives a setting.
-/

namespace RexxEditing.Command

/-- The tasks by their names. -/
inductive Subcommand where
  | highlight
  | indent
  | outline
  | vocabulary
  deriving DecidableEq, Repr

namespace Subcommand

/-- All subcommands. -/
def all : List Subcommand := [.highlight, .indent, .outline, .vocabulary]

/-- The name on the command line. -/
def name : Subcommand → String
  | .highlight => "highlight"
  | .indent => "indent"
  | .outline => "outline"
  | .vocabulary => "vocabulary"

/-- The subcommand of a name. -/
def ofName? (s : String) : Option Subcommand := all.find? (·.name == s)

/-- The name in the place of a subcommand that asks for help. -/
def helpName : String := "help"

/-- Whether a name may stand in the place of a subcommand. -/
def isName (s : String) : Bool := (ofName? s).isSome || s == helpName

end Subcommand

/-- An option or an argument. -/
inductive Arg where
  | config
  | verbose
  | quiet
  | version
  | help
  | format
  | line
  | offset
  | check
  | write
  | path
  | table
  deriving DecidableEq, Repr

namespace Arg

/-- The name after two dashes. Arguments have none. -/
def long? : Arg → Option String
  | .config => some "config"
  | .verbose => some "verbose"
  | .quiet => some "quiet"
  | .version => some "version"
  | .help => some "help"
  | .format => some "format"
  | .line => some "line"
  | .offset => some "offset"
  | .check => some "check"
  | .write => some "write"
  | .path | .table => none

/-- The letter after one dash. -/
def short? : Arg → Option Char
  | .config => some 'c'
  | .verbose => some 'v'
  | .quiet => some 'q'
  | .version => some 'V'
  | .help => some 'h'
  | .format => some 'f'
  | .line => some 'l'
  | .write => some 'w'
  | .offset | .check | .path | .table => none

/-- Whether it has a value. -/
def takesValue : Arg → Bool
  | .config | .format | .line | .offset | .path | .table => true
  | _ => false

/-- How messages name it. -/
def label : Arg → String
  | .config => "--config <FILE>"
  | .verbose => "--verbose"
  | .quiet => "--quiet"
  | .version => "--version"
  | .help => "--help"
  | .format => "--format <format>"
  | .line => "--line <line>"
  | .offset => "--offset <offset>"
  | .check => "--check"
  | .write => "--write"
  | .path => "<path>"
  | .table => "[table]"

/-- Whether two cannot be given together. -/
def conflictsWith : Arg → Arg → Bool
  | .check, .write | .write, .check => true
  | .check, .line | .line, .check => true
  | .write, .line | .line, .write => true
  | .quiet, .verbose | .verbose, .quiet => true
  | _, _ => false

end Arg

/-- The part of a command line before a subcommand, or after it. -/
abbrev Level := Option Subcommand

namespace Level

/-- The options of all levels. -/
def shared : List Arg := [.config, .verbose, .quiet, .help]

/-- The options of a level. -/
def options : Level → List Arg
  | none => .version :: shared
  | some .highlight => .format :: shared
  | some .indent => [.line, .offset, .check, .write] ++ shared
  | some .outline => shared
  | some .vocabulary => shared

/-- The argument of a level. -/
def argument? : Level → Option Arg
  | none => none
  | some .highlight | some .indent | some .outline => some .path
  | some .vocabulary => some .table

/-- The argument that must be given. -/
def required? : Level → Option Arg
  | none | some .vocabulary => none
  | some .highlight | some .indent | some .outline => some .path

/-- The option with a name after two dashes. -/
def ofLong? (l : Level) (name : String) : Option Arg := l.options.find? (·.long? == some name)

/-- The option with a letter after one dash. -/
def ofShort? (l : Level) (c : Char) : Option Arg := l.options.find? (·.short? == some c)

end Level

/-! ## Errors -/

/-- Why a text is not a positive number. -/
inductive NumberError where
  | empty
  | digit
  | tooLarge
  | zero
  deriving DecidableEq, Repr

/-- The text of the error. -/
def NumberError.message : NumberError → String
  | .empty => "cannot parse integer from empty string"
  | .digit => "invalid digit found in string"
  | .tooLarge => "number too large to fit in target type"
  | .zero => "0 is not in 1..18446744073709551615"

/-- Why a command line is no request. -/
inductive UsageError where
  | unexpected (argument : String)
  | unknownSubcommand (name : String)
  | missingSubcommand
  | missingArgument
  | missingValue (arg : Arg)
  | repeated (arg : Arg)
  /-- A value for an option that has none. -/
  | extraValue (value : String) (arg : Arg)
  | invalidChoice (value : String) (arg : Arg)
  | invalidNumber (value : String) (arg : Arg) (reason : NumberError)
  | conflict (arg : Arg) (others : List Arg)
  deriving DecidableEq, Repr

/-- What was given, as messages show it. -/
def shown (given : String) : String := String.ofList (Text.withoutControls given.toList)

/-- The text of the error. Of the advice that follows it nothing is told. -/
def UsageError.message : UsageError → String
  | .unexpected a => "unexpected argument '" ++ shown a ++ "' found"
  | .unknownSubcommand name => "unrecognized subcommand '" ++ shown name ++ "'"
  | .missingSubcommand => "'rexx' requires a subcommand but one was not provided"
  | .missingArgument => "the following required arguments were not provided:"
  | .missingValue arg => "a value is required for '" ++ arg.label ++ "' but none was supplied"
  | .repeated arg => "the argument '" ++ arg.label ++ "' cannot be used multiple times"
  | .extraValue value arg =>
    "unexpected value '" ++ shown value ++ "' for '" ++ arg.label ++
      "' found; no more were expected"
  | .invalidChoice value arg => "invalid value '" ++ shown value ++ "' for '" ++ arg.label ++ "'"
  | .invalidNumber value arg reason =>
    "invalid value '" ++ shown value ++ "' for '" ++ arg.label ++ "': " ++ reason.message
  | .conflict arg [other] =>
    "the argument '" ++ arg.label ++ "' cannot be used with '" ++ other.label ++ "'"
  | .conflict arg _ => "the argument '" ++ arg.label ++ "' cannot be used with:"

/-! ## Settings -/

/-- An option or argument with its value. -/
inductive Setting where
  | config (file : String)
  | verbose
  | quiet
  | format (value : Format)
  | line (number : Nat)
  | offset (columns : Nat)
  | check
  | write
  | path (value : String)
  | table (name : String)
  deriving DecidableEq, Repr

/-- What was set. -/
def Setting.arg : Setting → Arg
  | .config _ => .config
  | .verbose => .verbose
  | .quiet => .quiet
  | .format _ => .format
  | .line _ => .line
  | .offset _ => .offset
  | .check => .check
  | .write => .write
  | .path _ => .path
  | .table _ => .table

/-- The number that decimal digits write after the digits of `n`, in 64 bits. The first character
that is wrong, or makes the number too large, is reported. -/
def readDigits (n : Nat) : Text → Except NumberError Nat
  | [] => .ok n
  | c :: cs =>
    if !c.isDigit then .error .digit
    else
      let next := n * 10 + (c.toNat - '0'.toNat)
      if next < 1 <<< 64 then readDigits next cs else .error .tooLarge

/-- A positive number in 64 bits, with or without a plus sign. -/
def readPositive (s : String) : Except NumberError Nat := do
  let n ← match s.toList with
    | [] => throw .empty
    | ['+'] => throw .digit
    | '+' :: cs => readDigits 0 cs
    | cs => readDigits 0 cs
  if n = 0 then throw .zero
  return n

/-- The number that is the value of an option. -/
def readNumber (arg : Arg) (value : String) : Except UsageError Nat :=
  match readPositive value with
  | .ok n => .ok n
  | .error reason => .error (.invalidNumber value arg reason)

/-- A value that is a path. It is not empty. -/
def readPath (arg : Arg) (value : String) : Except UsageError String :=
  if value.isEmpty then .error (.missingValue arg) else .ok value

/-- A value that names a format. -/
def readFormat (value : String) : Except UsageError Format :=
  if value = "json" then .ok .json
  else if value = "simple" then .ok .simple
  else if value.isEmpty then .error (.missingValue .format)
  else .error (.invalidChoice value .format)

/-- The setting of an option or argument with a value, which those without values do not have. -/
def Setting.ofValue (arg : Arg) (value : String) : Except UsageError Setting :=
  match arg with
  | .config => .config <$> readPath arg value
  | .path => .path <$> readPath arg value
  | .format => .format <$> readFormat value
  | .line => .line <$> readNumber arg value
  | .offset => .offset <$> readNumber arg value
  | .table => .ok (.table value)
  | .verbose | .quiet | .check | .write | .version | .help => .error (.extraValue value arg)

end RexxEditing.Command
