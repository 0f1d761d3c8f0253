import Lox.Text.Basic

/-! The arguments of the command line. -/
namespace Lox

/-- The options that every command takes. An empty path is the same as none. -/
structure Options where
  settingsPath : Text
  json : Bool
  tracePath : Text
  deriving DecidableEq, Repr

inductive Command where
  | run (path : Text)
  | repl
  | check (path : Text)
  | format (path : Text) (inPlace : Bool)
  | tokens (path : Text)
  | trace (path : Text) (plain : Bool)
  | settings
  | help (topic : Text)
  | keywordIndex
  deriving DecidableEq, Repr

inductive Misuse where
  /-- An option lacks its value. -/
  | lacksValue
  | unknownFlag (flag : Text)
  /-- A command was not given what it needs. -/
  | synopsis (line : String)
  /-- Only one topic of the help has an index. -/
  | noIndex
  deriving DecidableEq, Repr

namespace Misuse

def usage : Text := Text.join "\n"
  ["usage: rlux [--config <file>] [--json] [--trace <file>] [command | script]",
   "commands: run, repl, check, fmt, tokens, trace, config, help"]

def message : Misuse → Text
  | .lacksValue => usage
  | .unknownFlag flag => Text.concat ["unknown flag: ", flag, "\n", usage]
  | .synopsis line => Text.concat ["usage: rlux ", line]
  | .noIndex => "error: --index is only supported for the syntax topic"

end Misuse

namespace Options

def none : Options := ⟨[], false, []⟩

/-- Takes the options out of the arguments, wherever they stand. The last one counts. -/
def take (options : Options) : List Text → Except Misuse (Options × List Text)
  | [] => .ok (options, [])
  | arg :: rest =>
    if arg = "--json" then { options with json := true }.take rest
    else if arg = "--config" then
      match rest with
      | path :: rest => { options with settingsPath := path }.take rest
      | [] => .error .lacksValue
    else if arg = "--trace" then
      match rest with
      | path :: rest => { options with tracePath := path }.take rest
      | [] => .error .lacksValue
    else (options.take rest).map fun (options, others) => (options, arg :: others)

end Options

namespace Command

def isFlag (arg : Text) : Bool := arg.head? == some 45

/-- The first argument that names a source, if there is one. A single dash names the standard
input. -/
def source? (args : List Text) : Option Text :=
  (args.find? fun (arg : Text) => arg == "-" || !isFlag arg).filter (· != [])

/-- The last argument that names a file, if there is one. -/
def file? (args : List Text) : Option Text :=
  (args.reverse.find? fun arg => !isFlag arg).filter (· != [])

/-- The command with a given argument, or else how to call it. -/
def needing (line : String) (arg : Option Text) (command : Text → Command) :
    Except Misuse Command :=
  match arg with
  | some arg => .ok (command arg)
  | none => .error (.synopsis line)

def helpOn (args : List Text) : Except Misuse Command :=
  let topic := (file? args).getD []
  if args.contains "--index" then
    if topic = [] ∨ topic = "syntax" then .ok .keywordIndex else .error .noIndex
  else .ok (.help topic)

/-- The command that arguments without options stand for. No command starts a dialogue, and what is
no command is the source to run. -/
def ofArgs : List Text → Except Misuse Command
  | [] => .ok .repl
  | name :: args =>
    if name = "run" then needing "run <file|->" (source? args) .run
    else if name = "repl" then
      if args = [] then .ok .repl else .error (.synopsis "repl")
    else if name = "check" then needing "check <file>" (source? args) .check
    else if name = "fmt" then
      needing "fmt <file> [--write]" (file? args) fun path =>
        .format path (args.contains "--write")
    else if name = "tokens" then needing "tokens <file> [--json]" (file? args) .tokens
    else if name = "trace" then
      needing "trace <file.ndjson> [--json|--text]" (file? args) fun path =>
        .trace path (args.contains "--text")
    else if name = "config" then
      if args = [] then .ok .settings else .error (.synopsis "config")
    else if name = "help" ∨ name = "--help" ∨ name = "-h" then helpOn args
    else if isFlag name ∧ name ≠ "-" then .error (.unknownFlag name)
    else if args ≠ [] then .error (.synopsis "[script]")
    else needing "run <file|->" (source? [name]) .run

end Command
end Lox
