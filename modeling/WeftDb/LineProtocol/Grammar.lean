import Mathlib.Data.List.DropRight
import WeftDb.Foundation.EscapedText
import WeftDb.Foundation.Results

/-!
# The line protocol

A line holds a measurement with its tags, its fields and an optional timestamp, between spaces.
Each level of a line is split on the text as written, with its escapes; only a name or a value is
unescaped.  Splitting a line into its parts and the fields respects quotations, splitting the tags
does not.  What a float is, and how one is read, is left open.
-/

namespace WeftDb.LineProtocol

abbrev Text := List Char

inductive FieldValue (F64 : Type) where
  | float (value : F64)
  | integer (value : Int64)
  | unsigned (value : UInt64)
  | boolean (value : Bool)
  | str (value : Text)
  deriving DecidableEq

/-- A parsed line, with its tags and fields in the order of the line. -/
structure LineRecord (F64 : Type) where
  measurement : Text
  tags : List (Text × Text)
  fields : List (Text × FieldValue F64)
  timestamp : Option Int64
  deriving DecidableEq

/-- The series of a record in the form of a line, for messages. -/
def LineRecord.describeSeries {F64 : Type} (record : LineRecord F64) : Text :=
  record.measurement ++ record.tags.flatMap fun tag => ',' :: tag.1 ++ '=' :: tag.2

inductive ParseErrorKind where
  | malformed
  | ambiguousSeries
  | nonFiniteValue
  deriving DecidableEq

/-- What went wrong, and in which line, counted from 1. -/
structure ParseError where
  line : Nat
  message : String
  kind : ParseErrorKind
  deriving DecidableEq

namespace ParseError

def malformed (line : Nat) (message : String) : ParseError := { line, message, kind := .malformed }

def ambiguousSeries (line : Nat) (message : String) : ParseError :=
  { line, message, kind := .ambiguousSeries }

def nonFinite (line : Nat) (message : String) : ParseError :=
  { line, message, kind := .nonFiniteValue }

end ParseError

def marks (delim : Char) (respectQuotes : Bool) : EscapedText.Marks Char :=
  { escape := '\\', quote := '"', delim, respectQuotes }

def splitUnescaped (text : Text) (delim : Char) (respectQuotes : Bool) : List Text :=
  EscapedText.split (marks delim respectQuotes) text

def unescape (text : Text) : Text := EscapedText.unescape '\\' text

/-- A text in the quotation marks of a message. -/
def quoted (text : Text) : String := "`" ++ String.ofList text ++ "`"

/-- A nonempty run of decimal digits. -/
def parseDigits (text : Text) : Option Nat :=
  if text ≠ [] ∧ text.all Char.isDigit then some (Nat.ofDigitChars 10 text 0) else none

/-- A decimal number after an optional sign. -/
def parseSigned : Text → Option Int
  | '+' :: digits => (parseDigits digits).map Int.ofNat
  | '-' :: digits => (parseDigits digits).map fun value => -Int.ofNat value
  | digits => (parseDigits digits).map Int.ofNat

def parseI64 (text : Text) : Option Int64 :=
  (parseSigned text).bind fun value =>
    if Int64.minValue.toInt ≤ value ∧ value ≤ Int64.maxValue.toInt then some (Int64.ofInt value)
    else none

/-- An unsigned number has no minus sign. -/
def parseU64 (text : Text) : Option UInt64 :=
  (match text with
  | '+' :: digits => parseDigits digits
  | digits => parseDigits digits).bind fun value =>
    if value < UInt64.size then some (UInt64.ofNat value) else none

section Line

variable {F64 : Type} (parseFloat : Text → Option F64)

/-- What a raw value says, by its syntax. -/
def parseFieldValue (raw : Text) : Except String (FieldValue F64) :=
  if 2 ≤ raw.length ∧ raw.head? = some '"' ∧ raw.getLast? = some '"' then
    .ok (.str (unescape (raw.drop 1).dropLast))
  else if raw ∈ [['t'], ['T'], ['t', 'r', 'u', 'e'], ['T', 'r', 'u', 'e'], ['T', 'R', 'U', 'E']] then
    .ok (.boolean true)
  else if raw ∈ [['f'], ['F'], ['f', 'a', 'l', 's', 'e'], ['F', 'a', 'l', 's', 'e'],
      ['F', 'A', 'L', 'S', 'E']] then
    .ok (.boolean false)
  else if raw.getLast? = some 'i' then
    match parseI64 raw.dropLast with
    | some value => .ok (.integer value)
    | none => .error ("invalid integer field " ++ quoted raw)
  else if raw.getLast? = some 'u' then
    match parseU64 raw.dropLast with
    | some value => .ok (.unsigned value)
    | none => .error ("invalid unsigned field " ++ quoted raw)
  else
    match parseFloat raw with
    | some value => .ok (.float value)
    | none => .error ("invalid field value " ++ quoted raw)

def parseTag (pair : Text) : Except String (Text × Text) :=
  match splitUnescaped pair '=' false with
  | [key, value] =>
      if key ≠ [] then .ok (unescape key, unescape value)
      else .error ("malformed tag " ++ quoted pair)
  | _ => .error ("malformed tag " ++ quoted pair)

/-- The measurement and its tags. -/
def parseMeasurementAndTags (tagset : Text) : Except String (Text × List (Text × Text)) := do
  let pieces := splitUnescaped tagset ',' false
  let measurement := unescape (pieces.headD [])
  require (measurement ≠ []) "empty measurement name"
  let tags ← pieces.tail.mapM parseTag
  return (measurement, tags)

def parseField (pair : Text) : Except String (Text × FieldValue F64) :=
  match splitUnescaped pair '=' true with
  | [key, value] =>
      if key ≠ [] ∧ value ≠ [] then
        (parseFieldValue parseFloat value).map fun value => (unescape key, value)
      else .error ("malformed field " ++ quoted pair)
  | _ => .error ("malformed field " ++ quoted pair)

/-- At least one field. -/
def parseFields (fieldset : Text) : Except String (List (Text × FieldValue F64)) := do
  let fields ← (splitUnescaped fieldset ',' true).mapM (parseField parseFloat)
  require (fields ≠ []) "a line must have at least one field"
  return fields

def parseTimestamp (text : Text) : Except String (Option Int64) :=
  if text = [] then .ok none
  else
    match parseI64 text with
    | some timestamp => .ok (some timestamp)
    | none => .error ("invalid timestamp " ++ quoted text)

/-- The parts of a line; one without a timestamp is read as with an empty one. -/
def parseParts (tagset fieldset timestamp : Text) : Except String (LineRecord F64) := do
  let (measurement, tags) ← parseMeasurementAndTags tagset
  let fields ← parseFields parseFloat fieldset
  let timestamp ← parseTimestamp timestamp
  return { measurement, tags, fields, timestamp }

/-- Parse a line which is neither blank nor a comment. -/
def parseLine (line : Text) : Except String (LineRecord F64) :=
  match splitUnescaped line ' ' true with
  | [tagset, fieldset] => parseParts parseFloat tagset fieldset []
  | [tagset, fieldset, timestamp] => parseParts parseFloat tagset fieldset timestamp
  | parts =>
      .error ("expected `measurement[,tags] fields [timestamp]`, found " ++
        toString parts.length ++ " space-separated section(s)")

end Line

/-- The characters which Unicode counts as white space. -/
def isWhitespace (char : Char) : Bool :=
  decide (9 ≤ char.toNat ∧ char.toNat ≤ 13 ∨ char.toNat = 0x20 ∨ char.toNat = 0x85 ∨
    char.toNat = 0xA0 ∨ char.toNat = 0x1680 ∨ 0x2000 ≤ char.toNat ∧ char.toNat ≤ 0x200A ∨
    char.toNat = 0x2028 ∨ char.toNat = 0x2029 ∨ char.toNat = 0x202F ∨ char.toNat = 0x205F ∨
    char.toNat = 0x3000)

def trimStart (text : Text) : Text := text.dropWhile isWhitespace

def isBlankOrComment (line : Text) : Bool :=
  match trimStart line with
  | [] => true
  | char :: _ => char == '#'

/-- A line without the carriage returns at its end. -/
def trimEnd (line : Text) : Text := line.rdropWhile (· == '\r')

/-- The lines of a text, each up to a line feed or a carriage return and a line feed; the last one
need not end in either. -/
def strLinesFrom (line : Text) : Text → List Text
  | [] => if line = [] then [] else [line]
  | '\n' :: text =>
      (if line.getLast? = some '\r' then line.dropLast else line) :: strLinesFrom [] text
  | char :: text => strLinesFrom (line ++ [char]) text

def strLines (text : Text) : List Text := strLinesFrom [] text

section Document

variable {F64 : Type} (parseFloat : Text → Option F64)

/-- The records of the lines from an index on, each with its number; the first malformed line ends
the parse. -/
def parseLines : Nat → List Text → Except ParseError (List (Nat × LineRecord F64))
  | _, [] => .ok []
  | idx, raw :: lines =>
      let line := trimEnd raw
      if isBlankOrComment line then parseLines (idx + 1) lines
      else
        match parseLine parseFloat line with
        | .ok record => (parseLines (idx + 1) lines).map ((idx + 1, record) :: ·)
        | .error message => .error (.malformed (idx + 1) message)

def parseIndexed (input : Text) : Except ParseError (List (Nat × LineRecord F64)) :=
  parseLines parseFloat 0 (strLines input)

/-- The records of a document, in the order of its lines. -/
def parse (input : Text) : Except ParseError (List (LineRecord F64)) :=
  (parseIndexed parseFloat input).map (·.map Prod.snd)

end Document

end WeftDb.LineProtocol
