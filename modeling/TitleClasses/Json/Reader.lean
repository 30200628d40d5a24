import TitleClasses.Json.Value
import TitleClasses.Text.Lines

/-!
# Reading JSON

A text is read as one value with white space around it. Beside the grammar of JSON, `NaN`, `Infinity`
and `-Infinity` are values; of members with equal keys the last one counts, at the place of the first;
an escaped pair of surrogates is one character, an unpaired one stands for itself. Control characters
in a string must be escaped. Lists and objects stand in one another to a limited depth. An error tells
the place at which reading stopped.
-/

namespace TitleClasses.Json

/-- What is wrong with a text that is no JSON. -/
inductive Complaint where
  | byteOrderMark
  | value
  | propertyName
  | colon
  | comma
  | openString
  | controlCharacter
  | escape
  | unicodeEscape
  | extraData
deriving DecidableEq, Repr

/-- The words for a complaint. -/
def Complaint.message : Complaint → Text
  | .byteOrderMark => "Unexpected UTF-8 BOM (decode using utf-8-sig)"
  | .value => "Expecting value"
  | .propertyName => "Expecting property name enclosed in double quotes"
  | .colon => "Expecting ':' delimiter"
  | .comma => "Expecting ',' delimiter"
  | .openString => "Unterminated string starting at"
  | .controlCharacter => "Invalid control character at"
  | .escape => "Invalid \\escape"
  | .unicodeEscape => "Invalid \\uXXXX escape"
  | .extraData => "Extra data"

/-- What holds other values. -/
inductive Holder where
  | list
  | object
deriving DecidableEq, Repr

/-- The words for what holds other values. -/
def Holder.name : Holder → Text
  | .list => "array"
  | .object => "object"

/-- Why a text could not be read: it is no JSON, an integer in it has too many digits, or a list or an
object stands too deep in others. -/
inductive ReadError where
  | malformed (complaint : Complaint) (place : Text.Place)
  | hugeNumeral (digits : Nat)
  | tooDeep (holder : Holder)
deriving DecidableEq, Repr

/-- Integers of more digits than this are refused, in reading and in writing. -/
def maxDigits : Nat := 4300

/-- Lists and objects stand in one another to this depth. -/
def maxDepth : Nat := 985

/-- A stop while reading: a complaint with what was left to read at its place, or another error. -/
inductive Stop where
  | at (complaint : Complaint) (rest : Text)
  | hugeNumeral (digits : Nat)
  | tooDeep (holder : Holder)

/-- A part of the text that was read, and what is left. -/
abbrev Step (α : Type) := Except Stop (α × Text)

/-- The white space of JSON: blank, tab and the line ends. -/
def isSpace (c : CodePoint) : Bool :=
  c = (' ' : CodePoint) || c = ('\t' : CodePoint) || c = ('\n' : CodePoint) ||
    c = ('\r' : CodePoint)

/-- The text without white space at its beginning. -/
def skipSpace (t : Text) : Text := t.dropWhile isSpace

/-- Whether a code point is one of the ten ASCII digits. -/
def isDigit (c : CodePoint) : Bool := 0x30 ≤ c.val && c.val ≤ 0x39

/-- The value of a hexadecimal digit. -/
def hexValue? (c : CodePoint) : Option Nat :=
  let n := c.val
  if isDigit c then some (n - 0x30)
  else if 0x61 ≤ n && n ≤ 0x66 then some (n - 0x61 + 10)
  else if 0x41 ≤ n && n ≤ 0x46 then some (n - 0x41 + 10)
  else none

/-- The value of four hexadecimal digits at the front of a text that goes on after them. -/
def hexUnit? : Text → Option (Nat × Text)
  | a :: b :: c :: d :: e :: r => do
    let w ← hexValue? a
    let x ← hexValue? b
    let y ← hexValue? c
    let z ← hexValue? d
    pure (((w * 16 + x) * 16 + y) * 16 + z, e :: r)
  | _ => none

/-- The character that a letter after a backslash stands for. -/
def simpleEscape? (c : CodePoint) : Option CodePoint :=
  if c = ('"' : CodePoint) || c = ('\\' : CodePoint) || c = ('/' : CodePoint) then some c
  else if c = ('b' : CodePoint) then some 0x8
  else if c = ('f' : CodePoint) then some 0xc
  else if c = ('n' : CodePoint) then some '\n'
  else if c = ('r' : CodePoint) then some '\r'
  else if c = ('t' : CodePoint) then some '\t'
  else none

/-- The escape after a backslash, in a string that begins at `start`: the character it stands for. -/
def readEscape (start : Text) : Text → Step CodePoint
  | [] => .error (.at .openString start)
  | c :: r =>
    if c = ('u' : CodePoint) then
      match hexUnit? r with
      | none => .error (.at .unicodeEscape (c :: r))
      | some (high, r') =>
        -- A high surrogate takes a low one that follows it as an escape too.
        match r' with
        | d :: e :: s =>
          if 0xd800 ≤ high && high ≤ 0xdbff && d = ('\\' : CodePoint) && e = ('u' : CodePoint) then
            match hexUnit? s with
            | none => .ok (.ofNat high, r')
            | some (low, s') =>
              if 0xdc00 ≤ low && low ≤ 0xdfff then
                .ok (.ofNat (0x10000 + (high - 0xd800) * 0x400 + (low - 0xdc00)), s')
              else .ok (.ofNat high, r')
          else .ok (.ofNat high, r')
        | _ => .ok (.ofNat high, r')
    else match simpleEscape? c with
      | some d => .ok (d, r)
      | none => .error (.at .escape ('\\' :: c :: r))

/-- The rest of a string that begins at `start`; `done` is what was read, last first. Every round
takes at least one code point, so the code points of `clock`, one a round, suffice if there are as
many as in the text. -/
def readString (start : Text) : Text → Text → Text → Step Text
  | [], _, _ => .error (.at .openString start)
  | _ :: _, _, [] => .error (.at .openString start)
  | _ :: clock, done, c :: r =>
    if c = ('"' : CodePoint) then .ok (done.reverse, r)
    else if c = ('\\' : CodePoint) then
      match readEscape start r with
      | .error stop => .error stop
      | .ok (d, r') => readString start clock (d :: done) r'
    else if c.val < 0x20 then .error (.at .controlCharacter (c :: r))
    else readString start clock (c :: done) r

/-- A string whose quote stands at the front. -/
def readQuoted (t : Text) : Step Text := readString t t [] (t.drop 1)

/-- The number that digits stand for. -/
def digitsValue (digits : Text) : Nat := digits.foldl (fun n c => n * 10 + (c.val - 0x30)) 0

/-- The parts of a numeral: sign, digits before the point, digits after it, and exponent. -/
structure Numeral where
  negative : Bool
  whole : Text
  fraction : Option Text
  exponent : Option (Bool × Text)

/-- The exponent at the front of a text; there is none unless digits follow its letter and sign. -/
def readExponent : Text → Option (Bool × Text) × Text
  | [] => (none, [])
  | c :: r =>
    if c = ('e' : CodePoint) || c = ('E' : CodePoint) then
      let signed := match r with
        | s :: r' => if s = ('-' : CodePoint) then (true, r') else
            if s = ('+' : CodePoint) then (false, r') else (false, r)
        | [] => (false, r)
      let digits := signed.2.takeWhile isDigit
      if digits.isEmpty then (none, c :: r)
      else (some (signed.1, digits), signed.2.dropWhile isDigit)
    else (none, c :: r)

/-- The digits before the point at the front of a text: a zero stands alone. -/
def readDigits : Text → Text × Text
  | [] => ([], [])
  | c :: r =>
    if c = ('0' : CodePoint) then ([c], r)
    else ((c :: r).takeWhile isDigit, (c :: r).dropWhile isDigit)

/-- The digits after a point at the front of a text; there are none unless a digit follows the point. -/
def readFraction : Text → Option Text × Text
  | p :: d :: r =>
    if p = ('.' : CodePoint) && isDigit d then
      (some ((d :: r).takeWhile isDigit), (d :: r).dropWhile isDigit)
    else (none, p :: d :: r)
  | t => (none, t)

/-- The numeral at the front of a text that stands behind its sign. -/
def readUnsigned (negative : Bool) (t : Text) : Option (Numeral × Text) :=
  let digits := readDigits t
  if digits.1.isEmpty then none
  else
    let fraction := readFraction digits.2
    let exponent := readExponent fraction.2
    some (⟨negative, digits.1, fraction.1, exponent.1⟩, exponent.2)

/-- The numeral at the front of a text: no zeros in front, digits on both sides of a point. -/
def readNumeral : Text → Option (Numeral × Text)
  | [] => none
  | c :: r => if c = ('-' : CodePoint) then readUnsigned true r else readUnsigned false (c :: r)

/-- The value of a numeral: an integer unless it has a point or an exponent. -/
def Numeral.value (n : Numeral) : Except Stop Json :=
  match n.fraction, n.exponent with
  | none, none =>
    if maxDigits < n.whole.length then .error (.hugeNumeral n.whole.length)
    else
      let v : Int := digitsValue n.whole
      .ok (.int (if n.negative then -v else v))
  | fraction, exponent =>
    let after := fraction.getD []
    let e : Int := match exponent with
      | none => 0
      | some (negative, digits) =>
        if negative then -(digitsValue digits : Int) else digitsValue digits
    .ok (.float (Binary64.ofDecimal n.negative (digitsValue (n.whole ++ after)) (e - after.length)))

/-- The values that are words. -/
def wordValues : List (Text × Json) := [
  ("null", .null), ("true", .bool true), ("false", .bool false), ("NaN", .float .nan),
  ("Infinity", .float (.infinite false)), ("-Infinity", .float (.infinite true))]

/-- The word or the numeral at the front of a text. -/
def readScalar (t : Text) : Step Json :=
  match wordValues.find? fun w => w.1.isPrefixOf t with
  | some (word, v) => .ok (v, t.drop word.length)
  | none =>
    match readNumeral t with
    | none => .error (.at .value t)
    | some (n, r) =>
      match n.value with
      | .error stop => .error stop
      | .ok v => .ok (v, r)

mutual

/-- The value at the front of a text. The first number bounds the recursion, which takes at most two
steps for one code point; the second one is the depth that is left. -/
def readValue : Nat → Nat → Text → Step Json
  | 0, _, t => .error (.at .value t)
  | n + 1, depth, t =>
    match t with
    | [] => .error (.at .value [])
    | c :: r =>
      if c = ('"' : CodePoint) then
        match readQuoted t with
        | .error stop => .error stop
        | .ok (s, r') => .ok (.text s, r')
      else if c = ('\x7b' : CodePoint) then
        match depth, skipSpace r with
        | 0, _ => .error (.tooDeep .object)
        | _, [] => .error (.at .propertyName [])
        | inner + 1, d :: r' =>
          if d = ('\x7d' : CodePoint) then .ok (.object [], r')
          else match readMembers n inner [] (d :: r') with
            | .error stop => .error stop
            | .ok (ms, r'') => .ok (.object ms, r'')
      else if c = ('[' : CodePoint) then
        match depth, skipSpace r with
        | 0, _ => .error (.tooDeep .list)
        | _, [] => .error (.at .value [])
        | inner + 1, d :: r' =>
          if d = (']' : CodePoint) then .ok (.list [], r')
          else match readItems n inner [] (d :: r') with
            | .error stop => .error stop
            | .ok (xs, r'') => .ok (.list xs, r'')
      else readScalar t

/-- The items of a list from one item on, up to its bracket; `done` are the items before, last
first. -/
def readItems : Nat → Nat → List Json → Text → Step (List Json)
  | 0, _, _, t => .error (.at .value t)
  | n + 1, depth, done, t =>
    match readValue n depth t with
    | .error stop => .error stop
    | .ok (v, r) =>
      match skipSpace r with
      | [] => .error (.at .comma [])
      | d :: r' =>
        if d = (']' : CodePoint) then .ok ((v :: done).reverse, r')
        else if d = (',' : CodePoint) then readItems n depth (v :: done) (skipSpace r')
        else .error (.at .comma (d :: r'))

/-- The members of an object from one member on, up to its brace; `done` are the members before. -/
def readMembers : Nat → Nat → Members → Text → Step Members
  | 0, _, _, t => .error (.at .propertyName t)
  | n + 1, depth, done, t =>
    if t.head? = some ('"' : CodePoint) then
      match readQuoted t with
      | .error stop => .error stop
      | .ok (key, r) =>
        match skipSpace r with
        | [] => .error (.at .colon [])
        | d :: r' =>
          if d = (':' : CodePoint) then
            match readValue n depth (skipSpace r') with
            | .error stop => .error stop
            | .ok (v, r'') =>
              let all := done.set key v
              match skipSpace r'' with
              | [] => .error (.at .comma [])
              | e :: s =>
                if e = ('\x7d' : CodePoint) then .ok (all, s)
                else if e = (',' : CodePoint) then readMembers n depth all (skipSpace s)
                else .error (.at .comma (e :: s))
          else .error (.at .colon (d :: r'))
    else .error (.at .propertyName t)

end

/-- The value of a whole text. -/
def readText (t : Text) : Except Stop Json :=
  if t.head? = some 0xfeff then .error (.at .byteOrderMark t)
  else match readValue (2 * t.length + 2) maxDepth (skipSpace t) with
    | .error stop => .error stop
    | .ok (v, r) => if (skipSpace r).isEmpty then .ok v else .error (.at .extraData (skipSpace r))

/-- The value of a whole text; an error tells its place in the text. -/
def read (t : Text) : Except ReadError Json :=
  match readText t with
  | .ok v => .ok v
  | .error (.hugeNumeral digits) => .error (.hugeNumeral digits)
  | .error (.tooDeep holder) => .error (.tooDeep holder)
  | .error (.at complaint rest) =>
    .error (.malformed complaint (t.placeAt (t.length - rest.length)))

/-- What is told of a text that could not be read. -/
def ReadError.message : ReadError → Text
  | .malformed complaint place => Text.concat [complaint.message, ": ", place.message]
  | .hugeNumeral digits =>
    Text.concat ["Exceeds the limit (4300 digits) for integer string conversion: value has ",
      Text.ofNat digits, " digits; use sys.set_int_max_str_digits() to increase the limit"]
  | .tooDeep holder =>
    Text.concat ["maximum recursion depth exceeded while decoding a JSON ", holder.name,
      " from a unicode string"]

end TitleClasses.Json
