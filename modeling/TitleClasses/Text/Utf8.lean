import TitleClasses.Text.Basic

/-!
# UTF-8

Texts as bytes. Encoding refuses surrogates and tells the first run of them; decoding refuses what is
not well formed and tells the first offending bytes and why. A decoded text holds no surrogate.
-/

namespace TitleClasses.Utf8

/-- Bytes, as a file holds them. -/
abbrev Bytes := List UInt8

/-- The bytes of one code point that is no surrogate. -/
def encodeOne (c : CodePoint) : Bytes :=
  let n := c.val
  if n < 0x80 then [n.toUInt8]
  else if n < 0x800 then [(0xc0 + n / 0x40).toUInt8, (0x80 + n % 0x40).toUInt8]
  else if n < 0x10000 then
    [(0xe0 + n / 0x1000).toUInt8, (0x80 + n / 0x40 % 0x40).toUInt8, (0x80 + n % 0x40).toUInt8]
  else
    [(0xf0 + n / 0x40000).toUInt8, (0x80 + n / 0x1000 % 0x40).toUInt8,
      (0x80 + n / 0x40 % 0x40).toUInt8, (0x80 + n % 0x40).toUInt8]

/-- A run of surrogates in a text: where it begins, how long it is, and its first code point. -/
structure SurrogateRun where
  start : Nat
  length : Nat
  first : CodePoint
deriving DecidableEq, Repr

/-- The first run of surrogates of a text. -/
def firstSurrogates (t : Text) : Option SurrogateRun :=
  let before := t.takeWhile fun c => !c.isSurrogate
  let run := (t.drop before.length).takeWhile CodePoint.isSurrogate
  run.head?.map fun c => ⟨before.length, run.length, c⟩

/-- The bytes of a text, or the surrogates that keep it from having any. -/
def encode (t : Text) : Except SurrogateRun Bytes :=
  match firstSurrogates t with
  | some run => .error run
  | none => .ok (t.flatMap encodeOne)

/-- Why bytes are not well formed. -/
inductive Defect where
  /-- The byte begins no character. -/
  | start
  /-- The character is not continued as its first byte demands. -/
  | continuation
  /-- The bytes end inside a character. -/
  | truncated
deriving DecidableEq, Repr

/-- The first bytes that are not well formed: where they begin, how many they are, the first of them
and what is wrong. -/
structure DecodeError where
  start : Nat
  length : Nat
  first : UInt8
  defect : Defect
deriving DecidableEq, Repr

/-- Whether a byte continues a character. -/
def isContinuation (b : UInt8) : Bool := 0x80 ≤ b && b ≤ 0xbf

/-- Whether a byte may follow the first byte `b` of a character of three or four bytes. This is what
keeps out longer forms than needed, surrogates, and values above the last code point. -/
def mayFollow (b second : UInt8) : Bool :=
  isContinuation second &&
    (if b = 0xe0 then 0xa0 ≤ second else if b = 0xed then second < 0xa0
      else if b = 0xf0 then 0x90 ≤ second else if b = 0xf4 then second < 0x90 else true)

/-- One character read from the front of some bytes: the code point and how many bytes it took, or
how many bytes are at fault and why. -/
inductive Reading where
  | character (c : CodePoint) (width : Nat)
  | fault (width : Nat) (defect : Defect)

/-- The payload of a continuation byte. -/
def payload (b : UInt8) : Nat := b.toNat % 0x40

/-- The character that begins with byte `b` and goes on in the bytes that follow. -/
def readOne (b : UInt8) (rest : Bytes) : Reading :=
  if b < 0x80 then .character (CodePoint.ofNat b.toNat) 1
  else if b < 0xc2 || 0xf5 ≤ b then .fault 1 .start
  else if b < 0xe0 then
    match rest with
    | [] => .fault 1 .truncated
    | c :: _ =>
      if isContinuation c then .character (CodePoint.ofNat (b.toNat % 0x20 * 0x40 + payload c)) 2
      else .fault 1 .continuation
  else if b < 0xf0 then
    match rest with
    | [] => .fault 1 .truncated
    | [c] => if mayFollow b c then .fault 2 .truncated else .fault 1 .continuation
    | c :: d :: _ =>
      if !mayFollow b c then .fault 1 .continuation
      else if !isContinuation d then .fault 2 .continuation
      else .character
        (CodePoint.ofNat (b.toNat % 0x10 * 0x1000 + payload c * 0x40 + payload d)) 3
  else
    match rest with
    | [] => .fault 1 .truncated
    | [c] => if mayFollow b c then .fault 2 .truncated else .fault 1 .continuation
    | [c, d] =>
      if !mayFollow b c then .fault 1 .continuation
      else if !isContinuation d then .fault 2 .continuation
      else .fault 3 .truncated
    | c :: d :: e :: _ =>
      if !mayFollow b c then .fault 1 .continuation
      else if !isContinuation d then .fault 2 .continuation
      else if !isContinuation e then .fault 3 .continuation
      else .character
        (CodePoint.ofNat (b.toNat % 8 * 0x40000 + payload c * 0x1000 + payload d * 0x40 + payload e)) 4

/-- Decoding from position `position` on; `skip` bytes belong to the character read last, and `done`
is what has been decoded, last code point first. -/
def decodeFrom (position skip : Nat) (done : Text) : Bytes → Except DecodeError Text
  | [] => .ok done.reverse
  | b :: rest =>
    match skip with
    | n + 1 => decodeFrom (position + 1) n done rest
    | 0 =>
      match readOne b rest with
      | .character c width => decodeFrom (position + 1) (width - 1) (c :: done) rest
      | .fault width defect => .error ⟨position, width, b, defect⟩

/-- The text of some bytes, or the first bytes that are not well formed. -/
def decode (bytes : Bytes) : Except DecodeError Text := decodeFrom 0 0 [] bytes

/-- The words for a defect. -/
def Defect.message : Defect → Text
  | .start => "invalid start byte"
  | .continuation => "invalid continuation byte"
  | .truncated => "unexpected end of data"

/-- What is told of bytes that are not well formed. -/
def DecodeError.message (e : DecodeError) : Text :=
  if e.length = 1 then
    Text.concat ["'utf-8' codec can't decode byte 0x", Text.padded 16 2 e.first.toNat,
      " in position ", Text.ofNat e.start, ": ", e.defect.message]
  else
    Text.concat ["'utf-8' codec can't decode bytes in position ", Text.ofNat e.start, "-",
      Text.ofNat (e.start + e.length - 1), ": ", e.defect.message]

/-- What is told of a text that holds surrogates. -/
def SurrogateRun.message (r : SurrogateRun) : Text :=
  if r.length = 1 then
    Text.concat ["'utf-8' codec can't encode character '\\u", Text.padded 16 4 r.first.val,
      "' in position ", Text.ofNat r.start, ": surrogates not allowed"]
  else
    Text.concat ["'utf-8' codec can't encode characters in position ", Text.ofNat r.start, "-",
      Text.ofNat (r.start + r.length - 1), ": surrogates not allowed"]

end TitleClasses.Utf8
