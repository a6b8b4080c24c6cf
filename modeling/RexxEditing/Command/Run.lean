import RexxEditing.Command.Request
import RexxEditing.Highlight.Render
import RexxEditing.Indent.Document
import RexxEditing.Outline.Symbols
import RexxEditing.Settings.Load

/-! # Requests and their outcomes

A request is carried out on the files that a disk shows. Its outcome is what is printed, what is
told, the exit code, and at most one file with its new text. Only the outcome of `indent --write` on
a file that is not indented has such a file.
-/

namespace RexxEditing.Command

open Files (Disk Tree)
open Settings (Config)

/-! ## Outcomes -/

/-- What comes of a request. -/
structure Outcome where
  code : Nat
  printed : Text
  messages : List Message
  /-- A path, and the text that is written to the file there. -/
  written : Option (String × Text)
  deriving DecidableEq, Repr

/-- Why a request fails. -/
inductive Failure where
  | configuration (error : Settings.LoadError)
  | unreadable (path : String) (error : Files.ReadError)
  /-- A file is not UTF-8. -/
  | notText (path : String)
  | unknownVocabulary (error : Vocabulary.UnknownName)

/-- The text of the failure. -/
def Failure.message : Failure → String
  | .configuration e => "configuration error: " ++ e.message
  | .unreadable path e => "cannot read " ++ path ++ ": " ++ e.message
  | .notText path => "cannot read " ++ path ++ ": " ++ Files.notTextMessage
  | .unknownVocabulary e => e.message

namespace Outcome

/-- A request that was carried out. -/
def success (printed : Text) (messages : List Message) : Outcome := ⟨0, printed, messages, none⟩

/-- A request that failed. -/
def failure (f : Failure) : Outcome := ⟨2, [], [.plain ("error: " ++ f.message)], none⟩

/-- A request that broke off. What the system tells then is left out. -/
def breakOff : Outcome := ⟨101, [], [], none⟩

/-- The outcome with messages in front of its own. -/
def after (messages : List Message) (o : Outcome) : Outcome :=
  { o with messages := messages ++ o.messages }

end Outcome

/-- Lines with an end to each of them. -/
def printLines (lines : List Text) : Text := lines.flatMap (· ++ ['\n'])

/-- The message of an event. -/
def told (weight : Weight) (reporter : Reporter) (text : String) : Message :=
  .event ⟨weight, reporter, text⟩

/-! ## Tasks on a text -/

/-- The words for a state in reports. -/
def stateWords : State → String
  | .normal => "Normal"
  | .inside .comment => "BlockComment"
  | .inside (.string .single) => "String(Single)"
  | .inside (.string .double) => "String(Double)"

/-- The report that a region is open at the end of a text. It is the last token there. -/
def openReport (c : Classification) : List Message :=
  match c.exit, c.tokens.getLast? with
  | .inside _, some t =>
    [told .trace .highlighter
      ("unterminated " ++ t.kind.name ++ " from byte " ++ toString t.span.start)]
  | _, _ => []

/-- The reports about a classification. -/
def classificationReports (source : Text) (c : Classification) : List Message :=
  openReport c ++ [told .debug .lexing
    ("classified " ++ toString source.byteSize ++ " bytes into " ++ toString c.tokens.length ++
      " tokens (exit " ++ stateWords c.exit ++ ")")]

/-- A token with its place. A token of the text is always within it. -/
def tokenLine (source : Text) (t : Token) : Text :=
  (toString t.span.start ++ ".." ++ toString t.span.stop ++ " ").toList ++
    (t.render? source).getD []

/-- Prints the tokens of a text. -/
def highlight (source : Text) (format : Format) : Outcome :=
  let c := classify source .normal
  let lines := match format with
    | .json => [c.toJson.render 0]
    | .simple => c.tokens.map (tokenLine source)
  .success (printLines lines) (classificationReports source c)

/-- The warning that there is no such line, if there is none. -/
def lineWarning (path : String) (count line : Nat) : List Message :=
  if line > count then
    [told .warn .commands ("line " ++ toString line ++ " is past the end of " ++ path ++ " (" ++
      toString count ++ " lines)")]
  else []

/-- The report that a text was indented. -/
def indentReport (source : Text) (offset : Nat) : Message :=
  told .debug .indentation
    ("re-indented " ++ toString source.lines.length ++ " lines (offset " ++ toString offset ++ ")")

/-- Works on the indentation of the text of a file. -/
def indent (path : String) (source : Text) (offset : Nat) : IndentAction → Outcome
  | .column line =>
    let buffer := Indent.Buffer.ofText source
    .success (printLines [(toString (Indent.column buffer (line - 1) offset)).toList])
      (lineWarning path buffer.count line)
  | .print => .success (Indent.reindent offset source) [indentReport source offset]
  | .check =>
    if Indent.reindent offset source = source then .success [] [indentReport source offset]
    else ⟨1, [], [indentReport source offset, .plain (path ++ " is not indented")], none⟩
  | .write =>
    let result := Indent.reindent offset source
    if result = source then .success [] [indentReport source offset]
    else ⟨0, [], [indentReport source offset, told .info .commands ("re-indented " ++ path)],
      some (path, result)⟩

/-- Works on the indentation of the text of a file, and breaks off if the text is to be indented and
there is no room for one of its lines. -/
def indentInMemory (path : String) (source : Text) (offset : Nat) (action : IndentAction) :
    Outcome :=
  if action.isWhole && (Indent.reindent? offset source).isNone then .breakOff
  else indent path source offset action

/-- A symbol with its line, counted from one. -/
def symbolLine (s : Outline.Symbol) : Text :=
  (toString (s.selection.start.line + 1)).toList ++ '\t' :: s.name ++ '\t' :: s.kind.name.toList

/-- Prints the routines of a text. -/
def outline (source : Text) : Outcome :=
  let symbols := Outline.symbols source
  .success (printLines (symbols.map symbolLine))
    [told .debug .outline ("found " ++ toString symbols.length ++ " routines")]

/-! ## The vocabulary -/

/-- The words of a table. -/
def wordLines (v : Vocabulary) : List Text := v.words.map String.toList

/-- The name of a table and its words. -/
def tableLines (v : Vocabulary) : List Text := ("[" ++ v.name ++ "]").toList :: wordLines v

/-- Prints the words of a table, or all tables. -/
def vocabulary : Option String → Outcome
  | none => .success (printLines (Vocabulary.all.flatMap tableLines)) []
  | some name =>
    match Vocabulary.ofName name with
    | .ok v => .success (printLines (wordLines v)) []
    | .error e => .failure (.unknownVocabulary e)

/-! ## Configuration and files -/

/-- A number as a word of 64 bits with a sign. -/
def signedWord (n : Nat) : Int := Int.bmod n (1 <<< 64)

/-- The configuration for a file and an offset that may be given. -/
def loadConfig (disk : Disk) (file : Option String) (offset : Option Nat) :
    Except Settings.LoadError Config :=
  Settings.load disk (file.toList.map fun name => ⟨name, false⟩)
    (offset.toList.map fun n =>
      ("indentation.offset", .ofData (.integer ⟨.signed64, signedWord n⟩)))

/-- Texts between quotes, with commas between them. -/
def quotedList (texts : List String) : String :=
  ", ".intercalate (texts.map fun s => String.ofList (Text.quote s.toList))

/-- The report on a configuration. -/
def configReport (c : Config) : Message :=
  told .debug .tool
    ("configuration: RexxConfig \x7b indentation: IndentationConfig \x7b offset: " ++
      toString c.offset ++ " \x7d, files: FilesConfig \x7b extensions: [" ++
      quotedList c.extensions ++ "] \x7d \x7d")

/-- The warning that a path has another extension, if it has. -/
def extensionWarning (c : Config) (path : String) : List Message :=
  if FileName.hasExtension c.extensions path then []
  else [told .warn .commands (path ++ " does not have a REXX extension (" ++
    ", ".intercalate c.extensions ++ ")")]

/-- The text of a file. -/
def readSource (disk : Disk) (path : String) : Except Failure Text :=
  match disk path with
  | .ok (.text source) => .ok source
  | .ok .binary => .error (.notText path)
  | .error e => .error (.unreadable path e)

/-- Loads the configuration and reads a file for a task on its text. -/
def withSource (disk : Disk) (config : Option String) (offset : Option Nat) (path : String)
    (use : Config → Text → Outcome) : Outcome :=
  match loadConfig disk config offset with
  | .error e => .failure (.configuration e)
  | .ok c =>
    let outcome : Outcome := match readSource disk path with
      | .error f => .failure f
      | .ok source => use c source
    outcome.after (configReport c :: extensionWarning c path)

/-- Carries out a request. -/
def run (disk : Disk) (r : Request) : Outcome :=
  match r.task with
  | .highlight path format => withSource disk r.config none path fun _ s => highlight s format
  | .indent path offset action =>
    withSource disk r.config offset path fun c s => indentInMemory path s c.offset action
  | .outline path => withSource disk r.config none path fun _ s => outline s
  | .vocabulary table => vocabulary table

/-- The messages that a filter shows for a request. -/
def Request.shown (r : Request) (f : Filter) (o : Outcome) : List Message :=
  o.messages.filter (f.adjust r.quiet r.verbose).shows

/-- Carries out a request in a file tree, and gives the tree as it is then. -/
def runIn (t : Tree) (r : Request) : Outcome × Tree :=
  let o := run t.disk r
  match o.written with
  | some (path, text) => (o, t.write path text)
  | none => (o, t)

end RexxEditing.Command
