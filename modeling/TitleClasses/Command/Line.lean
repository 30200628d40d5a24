import TitleClasses.Command.Notice

/-!
# Command lines

The words of a command line are options, the values of options, and arguments. An option begins with a
hyphen; its value is the next word, or what follows an equals sign in its own. After a word of two
hyphens all words are arguments. Where options must come first, the first argument ends them.
-/

namespace TitleClasses

/-- An option: its word, and whether it has a value. -/
structure OptionForm where
  name : Text
  hasValue : Bool
deriving DecidableEq, Repr

/-- A command line that was read: options in order, those without a value with an empty one, and
arguments. -/
structure Line where
  options : List (Text × Text)
  arguments : List Text
deriving DecidableEq, Repr

namespace Line

/-- The option that every command has. -/
def helpForm : OptionForm := ⟨"--help", false⟩

/-- The sign that options begin with. -/
def hyphen : CodePoint := '-'

/-- Whether a word is an option. -/
def isOption (word : Text) : Bool := word.head? = some hyphen && 1 < word.length

/-- The name of an option and the value in its own word, if it has one there. -/
def splitWord (word : Text) : Text × Option Text :=
  let isName (c : CodePoint) : Bool := c ≠ ('=' : CodePoint)
  match word.dropWhile isName with
  | [] => (word, none)
  | _ :: value => (word.takeWhile isName, some value)

/-- The obstacle of a word that begins as an option and is none of the given ones. After two hyphens all
of its name is told, and similar ones with it; after one only a letter. -/
def unknown (forms : List OptionForm) (word : Text) : Obstacle :=
  let name := (splitWord word).1
  if (word.drop 1).head? = some hyphen then
    .unknownOption name (name.similarTo (forms.map OptionForm.name))
  else .unknownOption (word.take 2) []

/-- The line with an option in front. -/
def withOption (name value : Text) (l : Line) : Line :=
  { l with options := (name, value) :: l.options }

/-- The line with an argument in front. -/
def withArgument (argument : Text) (l : Line) : Line :=
  { l with arguments := argument :: l.arguments }

/-- Reads words. -/
def read (forms : List OptionForm) (optionsFirst : Bool) : List Text → Except Obstacle Line
  | [] => .ok ⟨[], []⟩
  | word :: words =>
    if word = (("--" : String) : Text) then .ok ⟨[], words⟩
    else if isOption word then
      let (name, value) := splitWord word
      match (helpForm :: forms).find? fun f => f.name = name with
      | none => .error (unknown (helpForm :: forms) word)
      | some form =>
        if form.hasValue then
          match value, words with
          | some v, words => (read forms optionsFirst words).map (withOption name v)
          | none, v :: words => (read forms optionsFirst words).map (withOption name v)
          | none, [] => .error (.openOption name)
        else if value.isSome then .error (.closedOption name)
        else (read forms optionsFirst words).map (withOption name [])
    else if optionsFirst then .ok ⟨[], word :: words⟩
    else (read forms optionsFirst words).map (withArgument word)

/-- Whether an option is in the line. -/
def has (l : Line) (name : Text) : Bool := l.options.any fun o => o.1 = name

/-- The value of an option, which is the last one it was given. -/
def value? (l : Line) (name : Text) : Option Text :=
  (l.options.reverse.find? fun o => o.1 = name).map Prod.snd

/-- Which of two options was given first; the first of them if neither was. -/
def isFirst (l : Line) (name other : Text) : Bool :=
  match l.options.find? fun o => o.1 = name || o.1 = other with
  | some o => o.1 = name
  | none => true

/-- Whether the last of two opposite options is the first of them. -/
def isOn (l : Line) (on off : Text) : Bool :=
  match l.options.reverse.find? fun o => o.1 = on || o.1 = off with
  | some o => o.1 = on
  | none => false

end Line

end TitleClasses
