import DeclGraph.Command.Terminal

/-!
# The program

Reads the command line, carries the command out on the files of the system, and
prints its report.
-/

namespace DeclGraph

section Program

/-- What is said of the command line. -/
def usage : String :=
  "usage: tsmodels [-h] [-v] COMMAND ...\n\n" ++
    "tsmodels - extract a linked model graph from TypeScript declarations\n\n" ++
    "commands:\n" ++
    "  extract [-h] [--config CONFIG] [--indent INDENT] [-o OUTPUT] file\n" ++
    "      print the model graph as JSON\n" ++
    "  cards [-h] [--config CONFIG] file\n" ++
    "      print one text card per model\n\n" ++
    "options:\n" ++
    "  -h, --help     show this help message and exit\n" ++
    "  -v, --verbose  log pipeline events to stderr\n"

/-- Whether a code of the system, which may be negated, says that a step of a path
leads through a file. -/
def isNotDirectory (code : UInt32) : Bool :=
  code == 20 || code == 0 - 20

/-- Reads a file of the system. -/
def readSystemFile (p : Path) : IO (Except ReadFault (List UInt8)) := do
  try
    let bytes ← IO.FS.readBinFile p.text
    return .ok bytes.toList
  catch
    | .noFileOrDirectory .. => return .error .missing
    | .inappropriateType _ code _ =>
      return .error (if isNotDirectory code then .notDirectory else .isDirectory)
    | .permissionDenied .. => return .error .denied
    | e => throw e

/-- Writes a file of the system. -/
def writeSystemFile (p : Path) (content : List UInt8) : IO (Except WriteFault Unit) := do
  try
    IO.FS.createDirAll p.parent.text
    IO.FS.writeBinFile p.text ⟨content.toArray⟩
    return .ok ()
  catch
    | .alreadyExists .. => return .error .fileExists
    | .inappropriateType _ code _ =>
      return .error (if isNotDirectory code then .notDirectory else .isDirectory)
    | e => throw e

/-- Answers from the files of the system. -/
def systemHost : Host IO where
  isFile p := do
    try
      match ← readSystemFile p with
      | .ok _ | .error .denied => return true
      | .error _ => return false
    catch _ => return false
  read := readSystemFile
  write := writeSystemFile

/-- The wording of why a command breaks off. -/
def Breakdown.message : Breakdown → String
  | .config _ => "the configuration file holds a value that is not well formed"
  | .undecodable => "the configuration file is not UTF-8 text"
  | .pass f => f.message
  | .artifact f => f.message?.getD "the graph has no text"
  | .write .isDirectory => "the output is a directory"
  | .write .fileExists => "the directory of the output is a file"
  | .write .notDirectory => "the path of the output leads through a file"

/-- What a command puts on the error stream. -/
def errorText : Except Breakdown Report → String
  | .ok r => r.errorText .terminal
  | .error cause => "Error: " ++ cause.message ++ "\n"

end Program

end DeclGraph

open DeclGraph in
/-- Runs the program. -/
def main (arguments : List String) : IO UInt32 := do
  let out ← IO.getStdout
  let err ← IO.getStderr
  match Request.ofArguments arguments with
  | .help =>
    out.putStr usage
    return 0
  | .misuse =>
    err.putStr usage
    return 2
  | .run invocation =>
    let result ← invocation.run systemHost .terminal
    out.putStr (printed result)
    err.putStr (errorText result)
    return UInt32.ofNat (exitCode result)
