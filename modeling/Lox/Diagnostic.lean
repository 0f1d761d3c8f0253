import Lox.Json.Basic
import Lox.Token

/-! Diagnostics: what is wrong, and where. -/
namespace Lox

inductive Code where
  | lex
  | parse
  | undefined
  | type
  | budget
  | io
  | config
  /-- A kind that the language itself does not report. -/
  | custom (name : Text)
  deriving DecidableEq, Repr

namespace Code

def name : Code → Text
  | .lex => "E_LEX"
  | .parse => "E_PARSE"
  | .undefined => "E_UNDEFINED"
  | .type => "E_TYPE"
  | .budget => "E_BUDGET"
  | .io => "E_IO"
  | .config => "E_CONFIG"
  | .custom name => name

def ofName (name : Text) : Code :=
  match [lex, parse, undefined, type, budget, io, config].find? fun c => c.name == name with
  | some c => c
  | none => .custom name

end Code

/-- Where in the source a problem lies. -/
inductive Place where
  | lexeme (text : Text)
  | endOfInput
  deriving DecidableEq, Repr

structure Diagnostic where
  code : Code
  message : Text
  line : Int
  place : Place
  deriving DecidableEq, Repr

inductive DiagnosticFormat where
  | text
  | json
  deriving DecidableEq, Repr

namespace DiagnosticFormat

def name : DiagnosticFormat → String
  | .text => "text"
  | .json => "json"

/-- The format of a given name. The empty name means text. -/
def ofName? (name : Text) : Option DiagnosticFormat :=
  if name = [] ∨ name = "text" then some .text
  else if name = "json" then some .json
  else none

def unknownMessage (name : Text) : Text :=
  Text.concat ["unknown diagnostics format ", Text.quoted name, " (want text or json)"]

end DiagnosticFormat

namespace Diagnostic

def atToken (code : Code) (message : Text) (t : Token) : Diagnostic :=
  ⟨code, message, t.line, if t.kind = .eof then .endOfInput else .lexeme t.lexeme⟩

/-- The lexeme that is blamed, empty at the end of the input. -/
def lexeme (d : Diagnostic) : Text :=
  match d.place with
  | .lexeme text => text
  | .endOfInput => []

def location (d : Diagnostic) : Text :=
  match d.place with
  | .lexeme text => Text.concat ["at '", text, "'"]
  | .endOfInput => "at end"

def text (d : Diagnostic) : Text :=
  Text.concat ["[line ", Text.ofInt d.line, "] ", d.location, ": ", d.message]

/-- The diagnostic as a JSON object. A place that says nothing is left out. -/
def toJson (d : Diagnostic) : Json :=
  .object <|
    [(Text.ofString "code", .string d.code.name), (Text.ofString "message", .string d.message),
     (Text.ofString "line", .int d.line)] ++
    match d.place with
    | .lexeme [] => []
    | .lexeme text => [(Text.ofString "lexeme", .string text)]
    | .endOfInput => [(Text.ofString "atEnd", .bool true)]

def render (format : DiagnosticFormat) (d : Diagnostic) : Text :=
  match format with
  | .text => d.text
  | .json => d.toJson.render

/-- The diagnostics in a given format, one on each line. -/
def renderAll (format : DiagnosticFormat) (ds : List Diagnostic) : Text :=
  Text.join "\n" (ds.map (render format))

/-- All diagnostics as a single message. -/
def summary (ds : List Diagnostic) : Text :=
  Text.join "; " (ds.map fun d => Text.concat [d.code.name, ": ", d.text])

end Diagnostic
end Lox
