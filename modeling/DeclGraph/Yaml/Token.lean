import DeclGraph.Text.Quoted

/-!
# Tokens

The tokens of a text, and the reasons why a text has no value.  A fault in a text
is its last token, so that what stands before it can still be judged first.
-/

namespace DeclGraph
namespace Yaml

section Faults

/-- Why there is no such time. -/
inductive TimeFault where
  /-- The zone is a day or more away, by so many minutes. -/
  | zone (minutes : Int)
  | year (n : Nat)
  | month
  | day
  | hour
  | minute
  | second
deriving Repr, DecidableEq, Inhabited

/-- Why a text has no value. -/
inductive Fault where
  /-- The text is not well formed, or holds something that has no value. -/
  | malformed
  /-- A scalar with the tag of whole numbers does not write one in the base. -/
  | notWhole (base : Nat) (text : String)
  /-- A scalar with the tag of numbers does not write one. -/
  | notNumber (text : String)
  /-- A scalar writes a time that does not exist. -/
  | noSuchTime (cause : TimeFault)
  /-- A scalar with the tag of truth values is none of their words. -/
  | noTruthValue (word : String)
  /-- A scalar with the tag of times is none. -/
  | noTime
  /-- A scalar with the tag of numbers has no digits. -/
  | noDigits
  /-- An escape names a code point that is too large. -/
  | largeCodePoint
  /-- An escape names a code point that is far too large. -/
  | hugeCodePoint
  /-- Reading fails in a way of its own. -/
  | other (kind : String)
deriving Repr, DecidableEq, Inhabited

/-- A span of at least a day in minutes, as whole days and seconds after them. -/
def spanText (minutes : Int) : String :=
  let seconds := 60 * minutes.emod 1440
  s!"datetime.timedelta(days={minutes.ediv 1440}" ++
    (if seconds == 0 then "" else s!", seconds={seconds}") ++ ")"

def TimeFault.message : TimeFault → String
  | .zone minutes =>
    "offset must be a timedelta strictly between -timedelta(hours=24) and timedelta(hours=24), " ++
      s!"not {spanText minutes}."
  | .year n => s!"year {n} is out of range"
  | .month => "month must be in 1..12"
  | .day => "day is out of range for month"
  | .hour => "hour must be in 0..23"
  | .minute => "minute must be in 0..59"
  | .second => "second must be in 0..59"

/-- What is said of a scalar without a value.  At most two hundred characters of a
number are shown. -/
def Fault.message? : Fault → Option String
  | .notWhole base text =>
    let shown := String.ofList ((Text.quote text).toList.take 200)
    some s!"invalid literal for int() with base {base}: {shown}"
  | .notNumber text => some ("could not convert string to float: " ++ Text.quote text)
  | .noSuchTime cause => some cause.message
  | .noTruthValue word => some (Text.quote word)
  | .largeCodePoint => some "chr() arg not in range(0x110000)"
  | .malformed | .noTime | .noDigits | .hugeCodePoint | .other _ => none

end Faults

section Tokens

/-- A token of a text. -/
inductive Token where
  | version (major : Nat)
  | tagHandle (handle expansion : String)
  | directive
  | documentStart
  | documentEnd
  | streamEnd
  | blockSequenceStart
  | blockMappingStart
  | blockEnd
  | flowSequenceStart
  | flowSequenceEnd
  | flowMappingStart
  | flowMappingEnd
  | blockEntry
  | flowEntry
  | key
  | value
  | alias (name : String)
  | anchor (name : String)
  | tag (handle : Option String) (suffix : String)
  | scalar (text : String) (plain : Bool)
  | fault (cause : Fault)
deriving Repr, DecidableEq, Inhabited

end Tokens

end Yaml
end DeclGraph
