import DeclGraph.Text.Integer
import DeclGraph.Yaml.Token

/-!
# Tags and scalars

The text of a plain scalar without a tag decides its tag: `Tag.ofPlain`.  The
functions `readBool`, `readInt`, `checkFloat`, `checkBinary` and `checkTime` then
read the text as the tag asks; a tag that is written may stand at a text that
does not have the form of the tag.
-/

namespace DeclGraph
namespace Yaml

section Tags

/-- What a node is built as. -/
inductive Tag where
  | null
  | bool
  | int
  | float
  | binary
  | time
  | str
  | sequence
  | mapping
  | set
  /-- Entries in order, as a sequence of mappings of one entry. -/
  | pairs
  /-- The key whose value is merged into the mapping around it. -/
  | merge
  /-- The key whose value stands for the mapping around it. -/
  | value
  /-- A tag that nothing is built from. -/
  | other
deriving Repr, DecidableEq, Inhabited

/-- The tags that have a meaning. -/
def Tag.names : List (String × Tag) :=
  [("null", .null), ("bool", .bool), ("int", .int), ("float", .float), ("binary", .binary),
    ("timestamp", .time), ("str", .str), ("seq", .sequence), ("map", .mapping), ("set", .set),
    ("omap", .pairs), ("pairs", .pairs), ("merge", .merge), ("value", .value)]

/-- The tag that is written in full. -/
def Tag.ofWritten (s : String) : Tag :=
  ((Tag.names.find? fun (name, _) => s == "tag:yaml.org,2002:" ++ name).map (·.2)).getD .other

end Tags

section Forms

/-- Cuts a text at every occurrence of a character. -/
def splitAt (sep : Char) : List Char → List (List Char)
  | [] => [[]]
  | c :: cs =>
    match splitAt sep cs with
    | [] => [[]]
    | w :: ws => if c == sep then [] :: w :: ws else (c :: w) :: ws

/-- Drops a sign. -/
def unsigned : List Char → List Char
  | '+' :: cs => cs
  | '-' :: cs => cs
  | cs => cs

/-- Whether all characters are digits or underscores. -/
def areDigits (isDigit : Char → Bool) (cs : List Char) : Bool :=
  cs.all fun c => isDigit c || c == '_'

/-- A nonempty run of digits and underscores that starts with a digit of a class. -/
def isNumeral (isFirst : Char → Bool) : List Char → Bool
  | [] => false
  | c :: cs => isFirst c && areDigits Char.isDigit cs

/-- A place of a number in base sixty after the first. -/
def isSixtieth : List Char → Bool
  | [d] => d.isDigit
  | [t, d] => '0' ≤ t && t ≤ '5' && d.isDigit
  | _ => false

/-- Numerals in base sixty with at least two places. -/
def isSexagesimal (isFirst : Char → Bool) (cs : List Char) : Bool :=
  match splitAt ':' cs with
  | first :: second :: rest => isNumeral isFirst first && (second :: rest).all isSixtieth
  | _ => false

/-- Whether a plain text is a whole number. -/
def isInt (cs : List Char) : Bool :=
  let isNonzero (c : Char) : Bool := '1' ≤ c && c ≤ '9'
  let isHex (c : Char) : Bool :=
    c.isDigit || ('a' ≤ c && c ≤ 'f') || ('A' ≤ c && c ≤ 'F')
  match unsigned cs with
  | ['0'] => true
  | '0' :: 'b' :: d :: ds => areDigits (fun c => c == '0' || c == '1') (d :: ds)
  | '0' :: 'x' :: d :: ds => areDigits isHex (d :: ds)
  | '0' :: d :: ds => areDigits (fun c => '0' ≤ c && c ≤ '7') (d :: ds)
  | cs => isNumeral isNonzero cs || isSexagesimal isNonzero cs

/-- Digits and underscores after a point, perhaps with an exponent with a sign. -/
def isFraction (cs : List Char) : Bool :=
  let exponent := cs.dropWhile fun c => c.isDigit || c == '_'
  match exponent with
  | [] => true
  | e :: s :: d :: ds =>
    (e == 'e' || e == 'E') && (s == '+' || s == '-') && (d :: ds).all Char.isDigit
  | _ => false

/-- Whether a plain text is a number with a point. -/
def isFloat (cs : List Char) : Bool :=
  let whole := (unsigned cs).takeWhile (· != '.')
  let fraction := ((unsigned cs).dropWhile (· != '.')).drop 1
  let hasPoint := (unsigned cs).contains '.'
  let pointed :=
    hasPoint && ((isNumeral Char.isDigit whole && isFraction fraction) ||
      (isSexagesimal Char.isDigit whole && areDigits Char.isDigit fraction))
  let small :=
    match cs with
    | '.' :: d :: ds => d.isDigit && isFraction ds
    | _ => false
  pointed || small || [".inf", ".Inf", ".INF"].contains (String.ofList (unsigned cs)) ||
    [".nan", ".NaN", ".NAN"].contains (String.ofList cs)

end Forms

section Times

/-- A date, perhaps with a time of day and the distance of its zone in minutes. -/
structure Time where
  year : Nat
  month : Nat
  day : Nat
  clock : Option (Nat × Nat × Nat) := none
  zone : Int := 0
deriving Repr

/-- A number of at least and at most so many digits, and the rest. -/
def takeNumber? (least most : Nat) (cs : List Char) : Option (Nat × List Char) :=
  let ds := (cs.take most).takeWhile Char.isDigit
  if least ≤ ds.length then
    some (ds.foldl (fun n c => 10 * n + (c.toNat - '0'.toNat)) 0, cs.drop ds.length)
  else none

/-- What follows a character, if it stands at the start. -/
def after? (c : Char) : List Char → Option (List Char)
  | d :: cs => if c == d then some cs else none
  | [] => none

/-- The zone after a time of day: its distance in minutes. -/
def readZone? (cs : List Char) : Option Int :=
  match cs.dropWhile (fun c => c == ' ' || c == '\t') with
  | [] => if cs.isEmpty then some 0 else none
  | ['Z'] => some 0
  | s :: cs =>
    if s == '+' || s == '-' then do
      let signed (minutes : Nat) : Int := if s == '-' then -(minutes : Int) else minutes
      let (hours, cs) ← takeNumber? 1 2 cs
      match cs with
      | [] => some (signed (60 * hours))
      | ':' :: cs => do
        let (minutes, cs) ← takeNumber? 2 2 cs
        if cs.isEmpty then some (signed (60 * hours + minutes)) else none
      | _ => none
    else none

/-- The time of day after a date. -/
def readClock? (cs : List Char) : Option ((Nat × Nat × Nat) × Int) := do
  let (hour, cs) ← takeNumber? 1 2 cs
  let (minute, cs) ← takeNumber? 2 2 (← after? ':' cs)
  let (second, cs) ← takeNumber? 2 2 (← after? ':' cs)
  let cs :=
    match cs with
    | '.' :: cs => cs.dropWhile Char.isDigit
    | cs => cs
  let zone ← readZone? cs
  return ((hour, minute, second), zone)

/-- Reads a date or a time. -/
def readTime? (cs : List Char) : Option Time := do
  let (year, cs) ← takeNumber? 4 4 cs
  let (month, cs) ← takeNumber? 1 2 (← after? '-' cs)
  let (day, cs) ← takeNumber? 1 2 (← after? '-' cs)
  let clocked (cs : List Char) : Option Time :=
    (readClock? cs).map fun (clock, zone) => { year, month, day, clock := some clock, zone }
  match cs with
  | [] => some { year, month, day }
  | c :: rest =>
    if c == 'T' || c == 't' then clocked rest
    else if c == ' ' || c == '\t' then clocked (rest.dropWhile fun c => c == ' ' || c == '\t')
    else none

/-- Whether a plain text is a date or a time; a date alone has all its digits. -/
def isTime (cs : List Char) : Bool :=
  match readTime? cs with
  | some t => t.clock.isSome || cs.length == 10
  | none => false

def daysOf (year month : Nat) : Nat :=
  if month == 2 then
    if year % 4 == 0 && (year % 100 != 0 || year % 400 == 0) then 29 else 28
  else if [4, 6, 9, 11].contains month then 30
  else 31

/-- What is wrong with a time of day. -/
def clockFault? : Nat × Nat × Nat → Option TimeFault
  | (h, m, s) =>
    if 24 ≤ h then some .hour
    else if 60 ≤ m then some .minute
    else if 60 ≤ s then some .second
    else none

/-- Why a time does not exist, if it does not. -/
def Time.fault? (t : Time) : Option TimeFault :=
  if 24 * 60 ≤ t.zone.natAbs then some (.zone t.zone)
  else if t.year < 1 then some (.year t.year)
  else if t.month < 1 || 12 < t.month then some .month
  else if t.day < 1 || daysOf t.year t.month < t.day then some .day
  else t.clock.bind clockFault?

end Times

section Reading

def truthWords : List (String × Bool) :=
  [("yes", true), ("no", false), ("true", true), ("false", false), ("on", true), ("off", false)]

/-- The ways in which a truth word is written plainly. -/
def isTruthWord (s : String) : Bool :=
  truthWords.any fun (w, _) => s == w || s == w.capitalize || s == w.toUpper

/-- The tag of a plain scalar without one. -/
def Tag.ofPlain (text : String) : Tag :=
  let cs := text.toList
  if isTruthWord text then .bool
  else if isFloat cs then .float
  else if isInt cs then .int
  else if text == "<<" then .merge
  else if ["", "~", "null", "Null", "NULL"].contains text then .null
  else if isTime cs then .time
  else if text == "=" then .value
  else .str

/-- The truth value of a word in any case. -/
def readBool (text : String) : Except Fault Bool :=
  let word := text.toLower
  match truthWords.lookup word with
  | some b => .ok b
  | none => .error (.noTruthValue word)

/-- The value of a digit in bases up to sixteen. -/
def basedDigit? (c : Char) : Option Nat :=
  if 'a' ≤ c && c ≤ 'f' then some (c.toNat - 'a'.toNat + 10)
  else if 'A' ≤ c && c ≤ 'F' then some (c.toNat - 'A'.toNat + 10)
  else Text.digitValue? c

/-- Reads digits in a base. -/
def readBasedDigits? (base : Nat) (cs : List Char) : Option Nat :=
  if cs.isEmpty then none
  else
    let add (n : Nat) (c : Char) : Option Nat :=
      (basedDigit? c).bind fun d => if d < base then some (base * n + d) else none
    cs.foldlM add 0

/-- Reads a number in a base, with blanks around it and a sign and a mark of the
base before it. -/
def readBased? (base : Nat) (mark : Char) (cs : List Char) : Option Int :=
  let digits (cs : List Char) : Option Nat :=
    match cs with
    | '0' :: m :: ds => readBasedDigits? base (if m.toLower == mark then ds else cs)
    | cs => readBasedDigits? base cs
  match Text.trimBlanks cs with
  | '-' :: cs => (digits cs).map fun n => -(n : Int)
  | '+' :: cs => (digits cs).map Int.ofNat
  | cs => (digits cs).map Int.ofNat

/-- Reads the places of a number in base sixty. -/
def readPlaces (total : Int) : List (List Char) → Except Fault Int
  | [] => .ok total
  | place :: places =>
    match Text.readInteger? (String.ofList place) with
    | some n => readPlaces (60 * total + n) places
    | none => .error (.notWhole 10 (String.ofList place))

/-- The whole number that a text writes. -/
def readInt (text : String) : Except Fault Int :=
  let cs := text.toList.filter (· != '_')
  let signed (n : Int) : Int := if cs.head? == some '-' then -n else n
  let based (base : Nat) (mark : Char) (ds : List Char) : Except Fault Int :=
    match readBased? base mark ds with
    | some n => .ok (signed n)
    | none => .error (.notWhole base (String.ofList ds))
  match cs, unsigned cs with
  | [], _ => .error .noDigits
  | _, [] => .error .noDigits
  | _, ['0'] => .ok 0
  | _, '0' :: 'b' :: ds => based 2 'b' ds
  | _, '0' :: 'x' :: ds => based 16 'x' ds
  | _, '0' :: ds => based 8 'o' ('0' :: ds)
  | _, ds => (readPlaces 0 (splitAt ':' ds)).map signed

/-- Whether a text writes a number in the decimal or exponent notation. -/
def isDecimal (cs : List Char) : Bool :=
  let isDigit (c : Char) : Bool := (Text.digitValue? c).isSome
  let cs := unsigned (Text.trimBlanks cs)
  let whole := cs.takeWhile isDigit
  let rest := cs.dropWhile isDigit
  let (fraction, rest) : List Char × List Char :=
    match rest with
    | '.' :: rest => (rest.takeWhile isDigit, rest.dropWhile isDigit)
    | rest => ([], rest)
  let ending :=
    match rest with
    | [] => true
    | e :: rest =>
      let digits := unsigned rest
      e == 'e' && !digits.isEmpty && digits.all isDigit
  (!(whole.isEmpty && fraction.isEmpty) && ending) ||
    ["inf", "infinity", "nan"].contains (String.ofList cs)

/-- Checks that a text writes a number that need not be whole. -/
def checkFloat (text : String) : Except Fault Unit :=
  let cs := (text.toList.filter (· != '_')).map Char.toLower
  match cs, unsigned cs with
  | [], _ => .error .noDigits
  | _, ds =>
    if [".inf", ".nan"].contains (String.ofList ds) then .ok ()
    else
      match (splitAt ':' ds).find? fun part => !isDecimal part with
      | none => .ok ()
      | some part => .error (.notNumber (String.ofList part))

/-- How far into a group of four a text in base 64 is, or none if it is complete. -/
def binaryPosition (position pads : Nat) : List Char → Option Nat
  | [] => some position
  | c :: cs =>
    if c == '=' then
      if 2 ≤ position && 4 ≤ position + (pads + 1) then none
      else binaryPosition position (if 2 ≤ position then pads + 1 else pads) cs
    else if c.isAlphanum || c == '+' || c == '/' then binaryPosition ((position + 1) % 4) 0 cs
    else binaryPosition position pads cs

/-- Checks that a text writes bytes in base 64. -/
def checkBinary (text : String) : Except Fault Unit :=
  let cs := text.toList
  if cs.all (·.toNat < 0x80) && (binaryPosition 0 0 cs).all (· == 0) then .ok ()
  else .error .malformed

/-- Checks that a text writes a time that exists. -/
def checkTime (text : String) : Except Fault Unit :=
  let cs := text.toList
  let cs := if cs.getLast? == some '\n' then cs.dropLast else cs
  match readTime? cs with
  | none => .error .noTime
  | some t =>
    match t.fault? with
    | none => .ok ()
    | some cause => .error (.noSuchTime cause)

end Reading

end Yaml
end DeclGraph
