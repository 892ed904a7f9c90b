import DeclGraph.Artifact.Writer
import DeclGraph.Card
import DeclGraph.Command.Arguments
import DeclGraph.Config
import DeclGraph.Files.Disk
import DeclGraph.Text.Utf8

/-!
# Running commands

`Invocation.run` carries out a command on a source file: it finds the options,
reads the source, extracts the graph, and gives the graph as text or as cards.

What is wrong with the files, the options or the source is told on the error
stream, nothing is printed otherwise, and the exit code is 1.  Nothing is written
before the graph is complete.  A few faults break a command off without a report.

What other libraries give is a parameter: `Tools` has the syntax trees of source texts,
the values of YAML texts, the styles of terminals and the lines of logs.
-/

namespace DeclGraph

open Syntax (Node)

/-- What commands take from other libraries. -/
structure Tools where
  /-- The syntax tree of a source text. -/
  parse : String → Node
  readYaml : Yaml.Reader
  blue : String → String
  red : String → String
  bold : String → String
  /-- The line of an event in a log. -/
  logLine : Event → String

section Reports

/-- What a command prints, and how it ends. -/
structure Report where
  exit : Nat := 0
  out : String := ""
  /-- What goes to the error stream after the log. -/
  err : String := ""
  /-- The events to log. -/
  log : List Event := []
deriving Inhabited

/-- Why a command breaks off. -/
inductive Breakdown where
  /-- A configuration that is refused without a word. -/
  | config (fault : ConfigFault)
  /-- The bytes of a configuration are no text. -/
  | undecodable
  | pass (fault : Fault)
  | artifact (fault : ArtifactFault)
  | write (fault : WriteFault)
deriving Repr, Inhabited

/-- Why a command does not go on. -/
inductive Refusal where
  /-- What is told on the error stream. -/
  | told (message : String)
  | broken (cause : Breakdown)
deriving Repr, Inhabited

/-- A refusal as the end of a command, after the events of a log. -/
def Refusal.report (log : List Event) : Refusal → Except Breakdown Report
  | .told message => .ok { exit := 1, err := message, log }
  | .broken cause => .error cause

/-- What a report puts on the error stream. -/
def Report.errorText (tools : Tools) (r : Report) : String :=
  String.join (r.log.map fun e => tools.logLine e ++ "\n") ++ r.err

/-- The exit code of a command.  Breaking off is a failure. -/
def exitCode : Except Breakdown Report → Nat
  | .ok r => r.exit
  | .error _ => 1

/-- What a command prints. -/
def printed : Except Breakdown Report → String
  | .ok r => r.out
  | .error _ => ""

end Reports

section Loading

/-- The wording of why a file cannot be read. -/
def ReadFault.message (p : Path) : ReadFault → String
  | .missing => "[Errno 2] No such file or directory: " ++ Text.quote p.text
  | .isDirectory => "[Errno 21] Is a directory: " ++ Text.quote p.text
  | .notDirectory => "[Errno 20] Not a directory: " ++ Text.quote p.text
  | .denied => "[Errno 13] Permission denied: " ++ Text.quote p.text

/-- The options in the bytes of a configuration file.  Where a text is not well
formed, the message breaks off without saying where. -/
def Options.ofBytes (readYaml : Yaml.Reader) (label : String) (bytes : List UInt8) :
    Except Refusal Options :=
  match readText bytes with
  | .error _ => .error (.broken .undecodable)
  | .ok text =>
    match Options.ofYaml readYaml text with
    | .ok options => .ok options
    | .error f =>
      match f, f.message? label with
      | .invalid, some m => .error (.told ("Error: " ++ Text.shown m))
      | _, some m => .error (.told ("Error: " ++ Text.shown m ++ "\n"))
      | _, none => .error (.broken (.config f))

variable {m : Type → Type} [Monad m]

/-- The options in a configuration file. -/
def Host.loadOptions (h : Host m) (readYaml : Yaml.Reader) (p : Path) :
    m (Except Refusal Options) := do
  match ← h.read p with
  | .ok bytes => return Options.ofBytes readYaml p.text bytes
  | .error .missing => return .error (.told ("Error: Config file not found: " ++ p.text ++ "\n"))
  | .error f =>
    return .error (.told ("Error: Cannot read config file: " ++ f.message p ++ "\n"))

/-- The name of the configuration file beside a source file. -/
def configName : String :=
  ".tsmodels.yaml"

/-- The options for a source file: of the given configuration file, of the one
beside the source file, or the defaults. -/
def Host.findOptions (h : Host m) (readYaml : Yaml.Reader) (given : Option String)
    (source : Path) : m (Except Refusal Options) := do
  match given with
  | some path => h.loadOptions readYaml (Path.ofText path)
  | none =>
    let beside := source.parent.child configName
    if ← h.isFile beside then h.loadOptions readYaml beside else return .ok {}

/-- The options for a source file and its text. -/
def Host.load (h : Host m) (readYaml : Yaml.Reader) (given : Option String) (source : Path) :
    m (Except Refusal (Options × String)) := do
  if !(← h.isFile source) then
    return .error (.told ("Error: file '" ++ source.text ++ "' does not exist.\n"))
  else
    match ← h.findOptions readYaml given source with
    | .error r => return .error r
    | .ok options =>
      let unreadable (why : String) : Refusal :=
        .told ("Error: cannot read '" ++ source.text ++ "': " ++ why ++ "\n")
      match ← h.read source with
      | .error f => return .error (unreadable (f.message source))
      | .ok bytes =>
        match readText bytes with
        | .error f => return .error (unreadable f.message)
        | .ok text => return .ok (options, text)

end Loading

section Printing

variable (tools : Tools)

/-- How a fault of a pass ends a command. -/
def Fault.refusal (source : Path) (f : Fault) : Refusal :=
  match f with
  | .noElement | .noTarget => .broken (.pass f)
  | _ => .told (tools.red ("Error: " ++ source.text ++ ": " ++ f.message) ++ "\n")

/-- The line of a row. -/
def Row.line (r : Row) : String :=
  let label := if r.type.highlighted then tools.blue r.type.text.bare else r.type.text.bare
  "  " ++ r.name ++ (if r.optional then "?" else "") ++ ": " ++ label ++ "\n"

/-- The lines of a card. -/
def Card.lines (c : Card) : String :=
  tools.bold (tools.blue (c.title.bare ++ " (" ++ c.kind ++ ")")) ++ "\n" ++
    String.join (c.rows.map (Row.line tools)) ++ "\n"

/-- The cards of a graph as text. -/
def Graph.cardText (g : Graph) : String :=
  if g.models.isEmpty then "No models found.\n"
  else String.join (g.models.map fun m => m.card.lines tools)

/-- The layout for a width. -/
def layoutFor : Option Int → Layout
  | none => .compact
  | some width => .indented width

end Printing

section Running

variable {m : Type → Type} [Monad m]

/-- Gives a graph as a command asks. -/
def Command.present (h : Host m) (tools : Tools) (g : Graph) :
    Command → m (Except Breakdown String)
  | .cards => return .ok (g.cardText tools)
  | .extract indent output =>
    match g.spelled.write (layoutFor indent) with
    | .error f => return .error (.artifact f)
    | .ok text => do
      let content := text ++ "\n"
      match output with
      | none => return .ok content
      | some name =>
        let target := Path.ofText name
        match ← h.write target content.toUTF8.toList with
        | .error f => return .error (.write f)
        | .ok () =>
          return .ok s!"Wrote {g.size} model(s) to '{target.text}'.\n"

/-- Carries out a command. -/
def Invocation.run (h : Host m) (tools : Tools) (i : Invocation) :
    m (Except Breakdown Report) := do
  let source := Path.ofText i.file
  match ← h.load tools.readYaml i.config source with
  | .error r => return r.report []
  | .ok (options, text) =>
    let pass := extract options (tools.parse text)
    let log := if i.verbose then pass.events else []
    match pass.outcome with
    | .error f => return (f.refusal tools source).report log
    | .ok g =>
      match ← i.command.present h tools g with
      | .error cause => return .error cause
      | .ok out => return .ok { out, log }

end Running

end DeclGraph
