import TitleClasses.Action
import TitleClasses.Files.Tree
import TitleClasses.Settings.Environment

/-!
# Variable files

A file of variables has one binding on each line: a name, and after an equals sign a text, which may
stand between quotes. A text between quotes may go over several lines. Comments begin with a number
sign. What is left of a line that is no binding is passed over, with a warning.

A variable of the environment is never changed by a file. Of two bindings of one name the later one
counts, and a name without an equals sign has no text.
-/

namespace TitleClasses

/-- A name with its text, if it has one. -/
structure Binding where
  name : Text
  text : Option Text
deriving DecidableEq, Repr

namespace VariableFile

/-- The sign at which a comment begins. -/
def commentSign : CodePoint := '#'

/-- The end of a line. -/
def lineEnd : CodePoint := '\n'

/-- White space within a line. -/
def isInner (c : CodePoint) : Bool := c.isBlank && c ≠ lineEnd

/-- What follows the white space at the front of a line. -/
def skipInner (t : Text) : Text := t.dropWhile isInner

/-- What follows the line at the front of a text. -/
def skipLine (t : Text) : Text := (t.dropWhile fun c => c ≠ lineEnd).drop 1

/-- The text up to the first mark that has no backslash of its own before it, and what follows the mark;
a backslash belongs to the code point after it. -/
def readQuoted (mark : CodePoint) : Text → Option (Text × Text)
  | [] => none
  | [c] => if c = mark then some ([], []) else none
  | c :: d :: r =>
    if c = mark then some ([], d :: r)
    else if c = ('\\' : CodePoint) then
      (readQuoted mark r).map fun p => (c :: d :: p.1, p.2)
    else (readQuoted mark (d :: r)).map fun p => (c :: p.1, p.2)

/-- What may follow a backslash between single quotes, and what it stands for there. -/
def singleEscapes : List (CodePoint × CodePoint) := [('\\', '\\'), ('\'', '\'')]

/-- What may follow a backslash between double quotes, and what it stands for there. -/
def doubleEscapes : List (CodePoint × CodePoint) := [
  ('\\', '\\'), ('\'', '\''), ('"', '"'), ('a', '\x07'), ('b', '\x08'), ('f', '\x0c'),
  ('n', '\n'), ('r', '\r'), ('t', '\t'), ('v', '\x0b')]

/-- A text with its escapes replaced; any other backslash stands for itself. -/
def unescape (escapes : List (CodePoint × CodePoint)) : Text → Text
  | [] => []
  | [c] => [c]
  | c :: d :: r =>
    match (if c = ('\\' : CodePoint) then escapes.lookup d else none) with
    | some e => e :: unescape escapes r
    | none => c :: unescape escapes (d :: r)

/-- A text up to the first comment sign that follows white space; `spaced` tells whether white space
stands right before the text. -/
def beforeComment (spaced : Bool) : Text → Text
  | [] => []
  | c :: r => if spaced && c = commentSign then [] else c :: beforeComment c.isBlank r

/-- What was read and what follows, or what is left where reading stopped. -/
abbrev Step (α : Type) := Except Text (α × Text)

/-- The name at the front of a line; there is none before a comment. -/
def readName : Text → Step (Option Text)
  | [] => .error []
  | c :: r =>
    if c = commentSign then .ok (none, c :: r)
    else if c = ('\'' : CodePoint) then
      let isInside (d : CodePoint) : Bool := d ≠ ('\'' : CodePoint)
      match r.takeWhile isInside, r.dropWhile isInside with
      | d :: name, _ :: rest => .ok (some (d :: name), rest)
      | _, _ => .error (c :: r)
    else
      let isName (d : CodePoint) : Bool := d ≠ ('=' : CodePoint) && d ≠ commentSign && !d.isBlank
      match (c :: r).takeWhile isName with
      | [] => .error (c :: r)
      | name => .ok (some name, (c :: r).dropWhile isName)

/-- The text after an equals sign. -/
def readText (t : Text) : Step Text :=
  let body := skipInner t
  let spaced := decide (body.length < t.length)
  let quoted (mark : CodePoint) (escapes : List (CodePoint × CodePoint)) (r : Text) : Step Text :=
    match readQuoted mark r with
    | some p => .ok (unescape escapes p.1, p.2)
    | none => .error body
  match body with
  | [] => .ok ([], [])
  | c :: r =>
    if c = lineEnd || (spaced && c = commentSign) then .ok ([], body)
    else if c = ('\'' : CodePoint) then quoted c singleEscapes r
    else if c = ('"' : CodePoint) then quoted c doubleEscapes r
    else
      let isLine (d : CodePoint) : Bool := d ≠ lineEnd
      .ok (Text.stripEnd (beforeComment false (body.takeWhile isLine)), body.dropWhile isLine)

/-- What follows the end of a line, before which there may be a comment. -/
def readEnd (t : Text) : Except Text Text :=
  match skipInner t with
  | [] => .ok []
  | c :: r =>
    if c = lineEnd then .ok r
    else if c = commentSign then .ok (skipLine r)
    else .error t

/-- What follows the word that may stand before a name. -/
def skipExport (t : Text) : Text :=
  let word : Text := "export"
  let rest := t.drop word.length
  if t.startsWith word && rest.head?.any isInner then skipInner rest else t

/-- The binding at the front of a text that does not begin with white space. -/
def readLine (t : Text) : Except Text (Option Binding × Text) := do
  let (name, rest) ← readName (skipExport t)
  match skipInner rest with
  | [] => return (name.map fun n => ⟨n, none⟩, [])
  | c :: r =>
    if c = ('=' : CodePoint) then do
      let (text, rest) ← readText r
      return (name.map fun n => ⟨n, some text⟩, ← readEnd rest)
    else return (name.map fun n => ⟨n, none⟩, ← readEnd (c :: r))

/-- An entry of a file: a binding, or a line number at which there is something that is none. -/
abbrev Entry := Except Nat Binding

/-- The number of the line at which the end of a text begins. -/
def lineOf (whole rest : Text) : Nat := 1 + whole.count lineEnd - rest.count lineEnd

/-- The entries at the end of a text, of which at most `n` are read. The line of an entry is the one that
follows the entry before it. -/
def readFrom (whole : Text) : Nat → Text → List Entry
  | 0, _ => []
  | n + 1, t =>
    match t.dropWhile CodePoint.isBlank with
    | [] => []
    | c :: r =>
      match readLine (c :: r) with
      | .ok (b, rest) => b.toList.map .ok ++ readFrom whole n rest
      | .error rest => .error (lineOf whole t) :: readFrom whole n (skipLine rest)

/-- The entries of a text, in order. -/
def read (t : Text) : List Entry := readFrom t t.length t

/-- The bindings among entries. -/
def bindings (entries : List Entry) : List Binding := entries.filterMap Except.toOption

/-- The warning that there is something at a line that is no binding. -/
def warning (line : Nat) : LogRecord where
  level := .warning
  source := .variables
  message :=
    Text.concat ["python-dotenv could not parse statement starting at line ", Text.ofNat line]

/-- The warnings about entries that are no bindings. -/
def warnings (entries : List Entry) : Log := entries.filterMap fun e =>
  match e with
  | .ok _ => none
  | .error line => some (warning line)

/-- The text that a reference stands for: that of the environment first, then that of the bindings above,
and its default if there is neither. A name that is bound without a text stands for nothing. -/
def find (env : Environment) (above : List Binding) (r : Environment.Reference) : Text :=
  match env.get? r.name with
  | some t => t
  | none =>
    match above.find? fun b => b.name = r.name with
    | some b => b.text.getD []
    | none => r.default.getD []

/-- The bindings with one more, in the place of the one of the same name if there is one. -/
def bind (bindings : List Binding) (b : Binding) : List Binding :=
  if bindings.any fun c => c.name = b.name then
    bindings.map fun c => if c.name = b.name then b else c
  else bindings ++ [b]

/-- The bindings with every reference in them replaced, one for each name. -/
def resolve (env : Environment) (bindings : List Binding) : List Binding :=
  bindings.foldl (fun above b =>
    bind above { b with text := b.text.map (Environment.expand (find env above)) }) []

/-- The environment with variables added. -/
def addTo (env : Environment) (bs : List Binding) : Except Fault Environment :=
  (resolve env bs).foldlM (fun e b =>
    match b.text with
    | some text => e.offer b.name text
    | none => .ok e) env

/-- The mark that may stand at the front of a file and is no part of its text. -/
def orderMark : CodePoint := CodePoint.ofNat 0xfeff

/-- A text without the mark at its front. -/
def withoutMark : Text → Text
  | [] => []
  | c :: r => if c = orderMark then r else c :: r

/-- The environment with the variables of a file added, if the text is the name of one. -/
def load (name : Text) (env : Environment) : Action Files Environment := do
  let fs ← Action.state
  match ← Action.ofExcept (fs.look name) with
  | .error _ | .ok .directory => pure env
  | .ok _ => do
    let entries := read (withoutMark (← Action.ofExcept (fs.readText (.verbatim name))))
    Action.tell (warnings entries)
    Action.ofExcept (addTo env (bindings entries))

end VariableFile

end TitleClasses
