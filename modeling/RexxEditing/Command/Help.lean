import RexxEditing.Command.Arg

/-! # Help

What the tool tells about itself.
-/

namespace RexxEditing.Command

/-- The name and the version of the tool. -/
def versionText : String := "rexx 0.1.0"

namespace Subcommand

/-- What the subcommand does. -/
def about : Subcommand → String
  | .highlight => "Classify a file and print its tokens"
  | .indent => "Re-indent a file, or print the indentation of one line"
  | .outline => "List routine declarations"
  | .vocabulary => "Print the keyword, built-in or pipeline stage tables"

end Subcommand

/-- What an option or argument is for. -/
def Arg.about : Arg → String
  | .config => "Configuration file layered over the built-in defaults"
  | .verbose => "Log debug output to stderr"
  | .quiet => "Only log errors"
  | .version => "Print version"
  | .help => "Print help"
  | .format => "Output format [default: json] [possible values: json, simple]"
  | .line => "Print the indentation column for this line (1-based)"
  | .offset => "Columns per indentation level (overrides the configuration)"
  | .check => "Exit with status 1 if the file is not indented"
  | .write => "Rewrite the file in place"
  | .path => "Path to the REXX file"
  | .table => "keywords, builtins or stages (default: all three)"

/-- The letter and the name of an option, or the name of an argument. -/
def Arg.synopsis (a : Arg) : String :=
  match a.long?, a.short? with
  | none, _ => a.label
  | some _, none => "    " ++ a.label
  | some _, some c => "-" ++ String.ofList [c] ++ ", " ++ a.label

/-- The text with blanks up to a width. -/
def padRight (width : Nat) (s : String) : String :=
  s ++ String.ofList (List.replicate (width - s.length) ' ')

/-- Rows of two columns under a title. -/
def listing (title : String) (rows : List (String × String)) : List String :=
  if rows.isEmpty then []
  else
    let width := rows.foldl (fun w (left, _) => max w left.length) 0
    "" :: title :: rows.map fun (left, right) => "  " ++ padRight width left ++ "  " ++ right

namespace Level

/-- What the level is about. -/
def about : Level → String
  | none => "Highlight and indent REXX and CMS Pipelines sources"
  | some c => c.about

/-- How the command line looks. -/
def usage : Level → String
  | none => "Usage: rexx [OPTIONS] <COMMAND>"
  | some c =>
    "Usage: rexx " ++ c.name ++ " [OPTIONS]" ++
      match Level.argument? (some c) with
      | some a => " " ++ a.label
      | none => ""

/-- The rows of the subcommands, which stand only in front. -/
def subcommandRows : Level → List (String × String)
  | none =>
    Subcommand.all.map (fun c => (c.name, c.about)) ++
      [("help", "Print this message or the help of the given subcommand(s)")]
  | some _ => []

/-- The help for a level. -/
def help (l : Level) : List String :=
  [l.about, "", l.usage] ++ listing "Commands:" l.subcommandRows ++
    listing "Arguments:" (l.argument?.toList.map fun a => (a.label, a.about)) ++
    listing "Options:" (l.options.map fun a => (a.synopsis, a.about))

end Level

end RexxEditing.Command
