import DeclGraph.Command.Run
import DeclGraph.TypeScript.Grammar

/-!
# The tools of the program

`Tools.terminal` is what the program takes for the parameters of its commands: its own
grammar and its own reader of YAML, the style codes of terminals, and logs of one line an
event.
-/

namespace DeclGraph

section Colours

/-- The code that switches a style. -/
def styleCode (n : Nat) : List Char :=
  "\x1b[".toList ++ Nat.toDigits 10 n ++ ['m']

/-- Puts a text between the codes that switch a style on and off.  The style is off
at the end of each line, and a text without characters has none. -/
def styled (on off : Nat) (s : String) : String :=
  let inner (c : Char) : List Char :=
    if c == '\n' then styleCode off ++ '\n' :: styleCode on else [c]
  if s.isEmpty then s
  else String.ofList (styleCode on ++ s.toList.flatMap inner ++ styleCode off)

end Colours

section Logs

/-- One log line: the details and then the event's name, as `key=value` pairs. -/
def Event.logLine (e : Event) : String :=
  let pair (d : String × Detail) : String :=
    match d.2 with
    | .text s => d.1 ++ "=" ++ Text.quote s
    | .number n => d.1 ++ "=" ++ toString n
  " ".intercalate ((e.details ++ [("event", Detail.text e.name)]).map pair)

end Logs

/-- The tools of the program. -/
def Tools.terminal : Tools where
  parse := TypeScript.parse
  readYaml := Yaml.Value.read?
  blue := styled 34 39
  red := styled 31 39
  bold := styled 1 22
  logLine := Event.logLine

end DeclGraph
