import TitleClasses.Fault
import TitleClasses.Text.Similar

/-!
# Notices

What is told to someone whose command line cannot be carried out, and the number that the program ends
with. Most notices go with the usage of the command they are about.
-/

namespace TitleClasses

/-- The commands of the program. -/
inductive CommandName where
  | matching
  | explain
  | assign
  | stats
  | schedule
deriving DecidableEq, Repr

namespace CommandName

/-- All commands. -/
def all : List CommandName := [.matching, .explain, .assign, .stats, .schedule]

/-- The word for a command. -/
def text : CommandName → Text
  | .matching => "match"
  | .explain => "explain"
  | .assign => "assign"
  | .stats => "stats"
  | .schedule => "schedule"

/-- The command of a word. -/
def ofText? (t : Text) : Option CommandName := all.find? fun c => c.text = t

/-- What follows the word of a command in a command line. -/
def arguments : CommandName → Text
  | .matching => "[OPTIONS] RULE TEXT"
  | .explain => "[OPTIONS] RULE"
  | .assign => "[OPTIONS] DOCUMENTS..."
  | .stats => "[OPTIONS]"
  | .schedule => "[OPTIONS]"

end CommandName

/-- Why a command line is not carried out. -/
inductive Obstacle where
  | help
  | noArguments
  | noCommand
  | unknownCommand (name : Text) (similar : List Text)
  | unknownOption (name : Text) (similar : List Text)
  | openOption (name : Text)
  | closedOption (name : Text)
  | missingArgument (name : Text)
  | missingOption (name : Text)
  | extraArguments (arguments : List Text)
  | badValue (parameter reason : Text)
  | unable (message : Text)
deriving DecidableEq, Repr

/-- An obstacle, and the command it is about; there is none before a command is known. -/
structure Notice where
  obstacle : Obstacle
  command : Option CommandName
deriving DecidableEq, Repr

namespace Obstacle

/-- The question whether a similar word was meant; there is none where no word is similar. -/
def question : List Text → Text
  | [] => ""
  | [word] => Text.concat [" Did you mean ", word.quoted, "?"]
  | words => Text.concat [" (Did you mean one of: ", Text.join ", " (words.map Text.quoted), "?)"]

/-- What is told of an obstacle. -/
def message : Obstacle → Text
  | .help | .noArguments => ""
  | .noCommand => "Missing command."
  | .unknownCommand name similar =>
    Text.concat ["No such command ", name.quoted, ".", question similar]
  | .unknownOption name similar =>
    Text.concat ["No such option ", name.quoted, ".", question similar]
  | .openOption name => Text.concat ["Option ", name.quoted, " requires an argument."]
  | .closedOption name => Text.concat ["Option ", name.quoted, " does not take a value."]
  | .missingArgument name => Text.concat ["Missing argument '", name, "'."]
  | .missingOption name => Text.concat ["Missing option '", name, "'."]
  | .extraArguments arguments =>
    Text.concat ["Got unexpected extra argument",
      if arguments.length = 1 then "" else "s", " (", Text.join " " arguments, ")"]
  | .badValue parameter reason => Text.concat ["Invalid value for ", parameter, ": ", reason]
  | .unable message => message

/-- The number that the program ends with. -/
def exitCode : Obstacle → Nat
  | .help => 0
  | .unable _ => 1
  | _ => 2

/-- Whether the usage of the command is told too. -/
def showsUsage : Obstacle → Bool
  | .openOption _ | .closedOption _ | .unable _ => false
  | _ => true

end Obstacle

namespace Notice

/-- The name of the program. -/
def program : Text := "class-assignment"

/-- The words before the arguments of a command line. -/
def commandPath (n : Notice) : Text :=
  Text.join " " (program :: (n.command.map CommandName.text).toList)

/-- The form of the command line. -/
def usage (n : Notice) : Text :=
  Text.concat ["Usage: ", n.commandPath, " ",
    (n.command.map CommandName.arguments).getD "[OPTIONS] COMMAND [ARGS]...", "\n"]

/-- All that is told. -/
def text (n : Notice) : Text :=
  let usage := if n.obstacle.showsUsage then n.usage else []
  match n.obstacle with
  | .help | .noArguments => usage
  | o =>
    let hint := if o.showsUsage then
      Text.concat ["Try '", n.commandPath, " --help' for help.\n\n"] else []
    Text.concat [usage, hint, "Error: ", o.message, "\n"]

end Notice

end TitleClasses
