import RexxEditing.Command.Help
import RexxEditing.Command.Parse
import RexxEditing.Command.Run

/-! # The command line tool

Reads the files that a request needs, carries it out, and prints and writes what comes of it.
-/

namespace RexxEditing.Tool

open Command

/-- The paths that are looked at for a request. -/
def pathsOf (r : Request) : List String :=
  let configs := r.config.toList.flatMap fun file => Settings.Layer.candidates ⟨file, false⟩
  match r.task with
  | .highlight path _ | .indent path _ _ | .outline path => path :: configs
  | .vocabulary _ => []

/-- Why a file cannot be read, as far as the tool tells it. -/
def readErrorOf : IO.Error → Files.ReadError
  | .inappropriateType _ code _ => if code = 20 then .notDirectory else .isDirectory
  | _ => .notFound

/-- What is read at a path. -/
def readPath (path : String) : IO (Except Files.ReadError Files.Content) := do
  try
    return .ok (.ofBytes (← IO.FS.readBinFile path))
  catch e => return .error (readErrorOf e)

/-- The disk with the given paths. -/
def readDisk (paths : List String) : IO Files.Disk := do
  let rows ← paths.mapM fun path => return (path, ← readPath path)
  let here := (Files.parts (toString (← IO.currentDir))).filter (!Files.isIdle ·)
  return ⟨here, fun path => ((rows.find? (·.1 == path)).map (·.2)).getD (.error .notFound)⟩

/-- The text of a message, with the end of the line. -/
def messageText : Message → String
  | .plain text => text ++ "\n"
  | .event e =>
    "[" ++ e.weight.name ++ " " ++ e.reporter.name ++ "] " ++ String.ofList e.shown

/-- Carries out a request and gives the exit code. -/
def perform (r : Request) : IO UInt32 := do
  let filter := Filter.ofName? (← IO.getEnv "RUST_LOG")
  let outcome := run (← readDisk (pathsOf r)) r
  if let some (path, text) := outcome.written then
    IO.FS.writeFile path (String.ofList text)
  IO.print (String.ofList outcome.printed)
  for m in r.shown filter outcome do
    IO.eprint (messageText m)
  return UInt32.ofNat outcome.code

/-- Tells why there is nothing to do and gives the exit code. -/
def explain : Stop → IO UInt32
  | .usage e => do
    IO.eprintln ("error: " ++ e.message)
    return 2
  | .version => do
    IO.println versionText
    return 0
  | .help level => do
    IO.println ("\n".intercalate level.help)
    return 0
  | .nothing => do
    IO.eprintln ("\n".intercalate (Level.help none))
    return 2

end RexxEditing.Tool

/-- Highlights, indents and outlines REXX files. -/
def main (args : List String) : IO UInt32 :=
  match RexxEditing.Command.parse args with
  | .ok r => RexxEditing.Tool.perform r
  | .error stop => RexxEditing.Tool.explain stop
