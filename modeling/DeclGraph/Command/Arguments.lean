import DeclGraph.Text.Integer

/-!
# Command lines

`Request.ofArguments` reads the arguments of the program.

Options may stand before and after the other arguments.  A long option may be cut
short as long as one option only starts that way, and its value may follow an
equals sign.  The value of a short option may follow at once, and short options
without values may be run together.  After two dashes nothing is an option.  A
negative number and a text with a space are not options either.

The command takes all arguments after it, and its options are its own.  A request
for help counts when it is reached, before any fault further right.
-/

namespace DeclGraph

section Request

/-- What to do with the models of a source file. -/
inductive Command where
  /-- Give the graph as text, indented if a width is given, perhaps in a file. -/
  | extract (indent : Option Int) (output : Option String)
  | cards
deriving Repr, DecidableEq, Inhabited

/-- A command on a source file. -/
structure Invocation where
  command : Command
  file : String
  config : Option String := none
  verbose : Bool := false
deriving Repr, DecidableEq, Inhabited

/-- What a command line asks for. -/
inductive Request where
  | help
  | misuse
  | run (invocation : Invocation)
deriving Repr, DecidableEq, Inhabited

end Request

section Options

/-- The options of the program and of its commands. -/
inductive Switch where
  | help
  | verbose
  | config
  | indent
  | output
deriving Repr, DecidableEq, Inhabited

def Switch.takesValue : Switch → Bool
  | .help | .verbose => false
  | .config | .indent | .output => true

/-- The ways to write options. -/
abbrev Switches := List (String × Switch)

/-- The options before the command. -/
def programSwitches : Switches :=
  [("-h", .help), ("--help", .help), ("-v", .verbose), ("--verbose", .verbose)]

/-- The options of every command. -/
def sourceSwitches : Switches :=
  [("-h", .help), ("--help", .help), ("--config", .config)]

/-- The options for the graph as text. -/
def extractSwitches : Switches :=
  sourceSwitches ++ [("--indent", .indent), ("-o", .output), ("--output", .output)]

/-- An argument by what it can be. -/
inductive Argument where
  | plain (text : String)
  /-- An option, with what is written at it. -/
  | option (switch : Switch) (short : Bool) (value : Option String)
  /-- An option that there is none of. -/
  | unknown
  /-- Two dashes, after which nothing is an option. -/
  | dashes
deriving Repr, DecidableEq, Inhabited

/-- Whether a text looks like a negative number. -/
def isNegativeNumber (cs : List Char) : Bool :=
  let isDigit (c : Char) : Bool := (Text.digitValue? c).isSome
  match cs with
  | '-' :: cs =>
    let rest := cs.dropWhile isDigit
    (!cs.isEmpty && rest.isEmpty) ||
      (match rest with
        | '.' :: ds => !ds.isEmpty && ds.all isDigit
        | _ => false)
  | _ => false

/-- What stands before and after the first equals sign. -/
def splitValue (cs : List Char) : List Char × Option (List Char) :=
  match cs.dropWhile (· != '=') with
  | [] => (cs, none)
  | _ :: value => (cs.takeWhile (· != '='), some value)

/-- The options that a text may be short for. -/
def candidates (switches : Switches) (cs : List Char) : List Argument :=
  match cs with
  | '-' :: '-' :: _ =>
    let (name, value) := splitValue cs
    switches.filterMap fun (s, switch) =>
      if name.isPrefixOf s.toList then some (.option switch false (value.map String.ofList))
      else none
  | _ =>
    switches.filterMap fun (s, switch) =>
      if s.toList == cs.take 2 then some (.option switch true (some (String.ofList (cs.drop 2))))
      else if cs.isPrefixOf s.toList then some (.option switch false none)
      else none

/-- Says what an argument can be; nothing if it may be short for several options. -/
def Argument.of? (switches : Switches) (text : String) : Option Argument :=
  let cs := text.toList
  let isShort (cs : List Char) : Bool := cs.drop 1 |>.head? |>.all (· != '-')
  let exact (cs : List Char) (value : Option String) : Option Argument :=
    (switches.lookup (String.ofList cs)).map fun switch => .option switch (isShort cs) value
  if cs.head? != some '-' then some (.plain text)
  else
    match exact cs none with
    | some a => some a
    | none =>
      if cs.length == 1 then some (.plain text)
      else
        let assigned :=
          match splitValue cs with
          | (name, some value) => exact name (some (String.ofList value))
          | (_, none) => none
        match assigned with
        | some a => some a
        | none =>
          match candidates switches cs with
          | [a] => some a
          | [] =>
            if isNegativeNumber cs || cs.contains ' ' then some (.plain text) else some .unknown
          | _ => none

/-- Says what all arguments can be; nothing if one may be short for several options. -/
def classify (switches : Switches) : List String → Option (List Argument)
  | [] => some []
  | text :: texts =>
    if text == "--" then some (.dashes :: texts.map .plain)
    else do
      let a ← Argument.of? switches text
      let rest ← classify switches texts
      return a :: rest

/-- The options that are run together in one argument, with the value of the last;
nothing if they do not fit together. -/
def unfold (switches : Switches) (switch : Switch) (short : Bool) :
    Option (List Char) → Option (List (Switch × Option String))
  | none => some [(switch, none)]
  | some value =>
    if switch.takesValue then some [(switch, some (String.ofList value))]
    else if short then
      match value with
      | [] => none
      | c :: cs => do
        let next ← switches.lookup (String.ofList ['-', c])
        let rest ← unfoldRest switches next cs
        return (switch, none) :: rest
    else none
where
  /-- The options after the first one. -/
  unfoldRest (switches : Switches) (switch : Switch) :
      List Char → Option (List (Switch × Option String))
    | [] => some [(switch, none)]
    | c :: cs =>
      if switch.takesValue then some [(switch, some (String.ofList (c :: cs)))]
      else do
        let next ← switches.lookup (String.ofList ['-', c])
        let rest ← unfoldRest switches next cs
        return (switch, none) :: rest

end Options

section Reading

/-- What has been read of a command line. -/
structure Settings where
  verbose : Bool := false
  file : Option String := none
  config : Option String := none
  indent : Option Int := none
  output : Option String := none
  /-- Whether an argument was left over. -/
  surplus : Bool := false
deriving Repr, Inhabited

/-- Why reading stops early. -/
inductive Stop where
  | help
  | misuse
deriving Repr, DecidableEq, Inhabited

/-- Applies one option. -/
def Settings.apply (s : Settings) (switch : Switch) (value : Option String) :
    Except Stop Settings :=
  match switch, value with
  | .help, _ => .error .help
  | .verbose, _ => .ok { s with verbose := true }
  | .config, some v => .ok { s with config := some v }
  | .output, some v => .ok { s with output := some v }
  | .indent, some v =>
    match Text.readInteger? v with
    | some n => .ok { s with indent := some n }
    | none => .error .misuse
  | _, none => .error .misuse

/-- Applies options in order. -/
def Settings.applyAll (s : Settings) : List (Switch × Option String) → Except Stop Settings
  | [] => .ok s
  | (switch, value) :: rest => do
    let s ← s.apply switch value
    s.applyAll rest

/-- Applies an option and, if it needs one and has none, the value after it. -/
def Settings.applyAt (s : Settings) (uses : List (Switch × Option String))
    (rest : List Argument) : Except Stop (Settings × List Argument) :=
  match uses.getLast? with
  | some (switch, none) =>
    if switch.takesValue then
      match rest with
      | .plain value :: rest => do
        let s ← s.applyAll (uses.dropLast ++ [(switch, some value)])
        return (s, rest)
      | _ => .error .misuse
    else do return (← s.applyAll uses, rest)
  | _ => do return (← s.applyAll uses, rest)

/-- Reads the arguments of a command: options, and one source file. -/
def readCommand (switches : Switches) : Nat → Settings → List Argument → Except Stop Settings
  | 0, s, _ => .ok s
  | _, s, [] => .ok s
  | fuel + 1, s, .option switch short value :: rest =>
    match unfold switches switch short (value.map String.toList) with
    | none => .error .misuse
    | some uses => do
      let (s, rest) ← s.applyAt uses rest
      readCommand switches fuel s rest
  | fuel + 1, s, .unknown :: rest => readCommand switches fuel { s with surplus := true } rest
  | fuel + 1, s, .plain text :: rest =>
    match s.file with
    | none =>
      let rest :=
        match rest with
        | .dashes :: rest => rest
        | rest => rest
      readCommand switches fuel { s with file := some text } rest
    | some _ => readCommand switches fuel { s with surplus := true } rest
  | fuel + 1, s, .dashes :: rest =>
    match s.file, rest with
    | none, .plain text :: rest =>
      readCommand switches fuel { s with file := some text } rest
    | _, rest => readCommand switches fuel { s with surplus := true } rest

/-- Reads a command and its arguments. -/
def readInvocation (verbose surplus : Bool) (name : String) (texts : List String) :
    Except Stop Request := do
  let finish (s : Settings) (command : Command) : Except Stop Request :=
    match s.file with
    | none => .error .misuse
    | some file =>
      if surplus || s.surplus then .error .misuse
      else .ok (.run { command, file, config := s.config, verbose })
  let settings (switches : Switches) : Except Stop Settings :=
    match classify switches texts with
    | none => .error .misuse
    | some arguments => readCommand switches (arguments.length + 1) {} arguments
  if name == "extract" then
    let s ← settings extractSwitches
    finish s (.extract s.indent s.output)
  else if name == "cards" then
    let s ← settings sourceSwitches
    finish s .cards
  else .error .misuse

/-- Reads the options before the command, and then the command.  `texts` are the
arguments as they are written. -/
def readProgram : Nat → Settings → List Argument → List String → Except Stop Request
  | 0, _, _, _ => .ok .help
  | _, s, [], _ => if s.surplus then .error .misuse else .ok .help
  | fuel + 1, s, .option switch short value :: rest, texts =>
    match unfold programSwitches switch short (value.map String.toList) with
    | none => .error .misuse
    | some uses => do
      let s ← s.applyAll uses
      readProgram fuel s rest texts.tail
  | fuel + 1, s, .unknown :: rest, texts =>
    readProgram fuel { s with surplus := true } rest texts.tail
  | _, s, .plain name :: _, texts => readInvocation s.verbose s.surplus name texts.tail
  | _, _, .dashes :: _, _ => .error .misuse

/-- What the arguments of the program ask for. -/
def Request.ofArguments (texts : List String) : Request :=
  let read : Except Stop Request :=
    match classify programSwitches texts with
    | none => .error .misuse
    | some arguments => readProgram (arguments.length + 1) {} arguments texts
  match read with
  | .ok r => r
  | .error .help => .help
  | .error .misuse => .misuse

end Reading

end DeclGraph
