import RexxEditing.Text.Terminal

/-! # Requests to the command line tool

A request names one task and says how much is told about it. The tool reports events of different
weight. A filter shows those that weigh enough. What is not an event is always shown.
-/

namespace RexxEditing.Command

/-! ## Tasks -/

/-- How tokens are printed. -/
inductive Format where
  | json
  /-- One line for each token. -/
  | simple
  deriving DecidableEq, Repr

/-- What is done with the indentation of a file. -/
inductive IndentAction where
  /-- Prints the re-indented text. -/
  | print
  /-- Tells whether the file is indented. -/
  | check
  /-- Writes the re-indented text to the file. -/
  | write
  /-- Prints the column of a line, counted from one. -/
  | column (line : Nat)
  deriving DecidableEq, Repr

/-- Whether all of the text is indented. -/
def IndentAction.isWhole : IndentAction → Bool
  | .column _ => false
  | .print | .check | .write => true

/-- What the tool is asked to do. -/
inductive Task where
  | highlight (path : String) (format : Format)
  /-- The offset wins over the configuration. -/
  | indent (path : String) (offset : Option Nat) (action : IndentAction)
  | outline (path : String)
  /-- Prints one table of words, or all of them. -/
  | vocabulary (table : Option String)
  deriving DecidableEq, Repr

/-- A request. -/
structure Request where
  /-- The configuration file on top of the built-in values. -/
  config : Option String
  verbose : Bool
  quiet : Bool
  task : Task
  deriving DecidableEq, Repr

/-! ## What is told -/

/-- How much an event weighs. -/
inductive Weight where
  | error
  | warn
  | info
  | debug
  | trace
  deriving DecidableEq, Repr

namespace Weight

/-- All weights, the heaviest first. -/
def all : List Weight := [.error, .warn, .info, .debug, .trace]

/-- The name in a report. -/
def name : Weight → String
  | .error => "ERROR"
  | .warn => "WARN"
  | .info => "INFO"
  | .debug => "DEBUG"
  | .trace => "TRACE"

/-- The place among the weights. -/
def rank (w : Weight) : Nat := all.idxOf w

end Weight

/-- The parts of the tool that report events. -/
inductive Reporter where
  | tool
  | commands
  | lexing
  | highlighter
  | indentation
  | outline
  deriving DecidableEq, Repr

/-- The name in a report. -/
def Reporter.name : Reporter → String
  | .tool => "rexx"
  | .commands => "rexx::commands"
  | .lexing => "rexx_parser::rexx::lexing"
  | .highlighter => "rexx_parser::rexx::lexing::highlighter"
  | .indentation => "rexx_parser::rexx::indentation"
  | .outline => "rexx_parser::rexx::outline"

/-- Something that happened. -/
structure Event where
  weight : Weight
  reporter : Reporter
  text : String
  deriving DecidableEq, Repr

/-- The blanks in front of the lines of a report after the first. -/
def continuation : Text := List.replicate 4 ' '

/-- The text as a report shows it, with the end of the line. A control sequence may hide the end. -/
def Event.shown (e : Event) : Text :=
  let lines := e.text.toList.flatMap fun c => if c = '\n' then c :: continuation else [c]
  Text.withoutControls (lines ++ ['\n'])

/-- What the tool tells. -/
inductive Message where
  | event (e : Event)
  | plain (text : String)
  deriving DecidableEq, Repr

/-- The least weight that is shown. Without one nothing is. -/
abbrev Filter := Option Weight

namespace Filter

/-- The filter that a word names, in any case of its letters. Another word shows nothing, and an
empty word shows errors. -/
def ofName (word : String) : Filter :=
  if word.isEmpty then some .error
  else Weight.all.find? fun w => w.name == word.map Char.toUpper

/-- The filter when a word may have been given. -/
def ofName? : Option String → Filter
  | none => some .warn
  | some word => ofName word

/-- The filter for a request to be quiet or to tell more. -/
def adjust (f : Filter) (quiet verbose : Bool) : Filter :=
  if quiet then some .error else if verbose then some .debug else f

/-- Whether a message is shown. -/
def shows (f : Filter) : Message → Bool
  | .plain _ => true
  | .event e => f.any fun least => e.weight.rank ≤ least.rank

end Filter

end RexxEditing.Command
