import Lox.Text.LowerCase
import Lox.Text.Quoted
import Lox.Token

/-! The help texts. -/
namespace Lox.Help

def version : String := "v0.1"

/-- Lines, each ended by a newline. -/
def page (lines : List String) : Text :=
  lines.flatMap fun (l : String) => Text.concat [l, "\n"]

/-- What is shown when no topic is asked for. -/
def quickReference : Text := page
  ["rlux v0.1 - a small Lox interpreter",
   "",
   "USAGE",
   "  rlux                      start the REPL",
   "  rlux <file>               run a script",
   "  rlux run <file>           run a script",
   "  rlux check <file>         report lex and parse errors without running",
   "  rlux fmt [--write] <file> print the canonical form of a script",
   "  rlux tokens [--json] <file>",
   "  rlux trace <trace.ndjson> summarize a trace written by --trace",
   "  rlux config               print the effective settings",
   "  rlux help [topic]         show this text or a topic",
   "",
   "LANGUAGE AT A GLANCE",
   "  var x = 1;                declaration",
   "  x = x + 1;                assignment",
   "  print x;                  output",
   "  \x7b var x = 2; \x7d            block with its own scope",
   "  if (c) a; else b;         conditional",
   "  while (c) body;           loop",
   "  for (init; cond; incr) s; loop, rewritten to while",
   "",
   "TOPICS",
   "  syntax       grammar and tokens",
   "  types        values, truthiness, operators",
   "  scopes       blocks, shadowing, assignment",
   "  flow         if, while, for",
   "  diagnostics  error format and codes",
   "  config       .rlux.yaml settings",
   "  budget       iteration and time limits",
   "  examples     small programs",
   "",
   "Run 'rlux help <topic>' for details. Topic names may be abbreviated."]

def syntaxPage : Text := page
  ["SYNTAX",
   "",
   "program    → declaration* EOF",
   "declaration→ varDecl | statement",
   "varDecl    → \"var\" IDENTIFIER ( \"=\" expression )? \";\"",
   "statement  → exprStmt | printStmt | block | ifStmt | whileStmt | forStmt",
   "expression → assignment",
   "assignment → IDENTIFIER \"=\" assignment | logic_or",
   "logic_or   → logic_and ( \"or\" logic_and )*",
   "logic_and  → equality ( \"and\" equality )*",
   "equality   → comparison ( ( \"!=\" | \"==\" ) comparison )*",
   "comparison → term ( ( \">\" | \">=\" | \"<\" | \"<=\" ) term )*",
   "term       → factor ( ( \"-\" | \"+\" ) factor )*",
   "factor     → unary ( ( \"/\" | \"*\" ) unary )*",
   "unary      → ( \"!\" | \"-\" ) unary | primary",
   "primary    → NUMBER | STRING | \"true\" | \"false\" | \"nil\"",
   "           | \"(\" expression \")\" | IDENTIFIER",
   "",
   "Comments run from // to the end of the line.",
   "Strings are delimited by double quotes and may not span lines.",
   "Numbers are decimal: 12, 3.5. A trailing dot is not part of a number."]

def typesPage : Text := page
  ["TYPES",
   "",
   "nil      the absence of a value",
   "boolean  true, false",
   "number   64-bit float, printed without a trailing .0",
   "string   text, printed with its quotes",
   "",
   "Only nil and false are falsy. 0 and \"\" are truthy.",
   "",
   "+   adds two numbers or concatenates two strings",
   "- * /  need two numbers; division by zero gives inf, -inf or NaN",
   "< <= > >=  need two numbers",
   "== !=  never fail; values of different types are unequal",
   "and or  return the operand that decided the result"]

def scopesPage : Text := page
  ["SCOPES",
   "",
   "Every block opens a new scope. A declaration binds in the innermost scope",
   "and may shadow an outer name. Redeclaring a name in the same scope replaces",
   "its value.",
   "",
   "Assignment walks outward to the nearest scope that declares the name and",
   "never creates a binding. Reading or assigning an undeclared name is the",
   "runtime error \"undefined variable\".",
   "",
   "  var x = 1;",
   "  \x7b var x = 2; print x; \x7d   // 2",
   "  \x7b x = 3; \x7d",
   "  print x;                  // 3"]

def flowPage : Text := page
  ["CONTROL FLOW",
   "",
   "if (cond) then-stmt else else-stmt",
   "  else binds to the nearest if.",
   "",
   "while (cond) body",
   "  cond is checked before every iteration.",
   "",
   "for (init; cond; incr) body",
   "  is rewritten to",
   "  \x7b init; while (cond) \x7b body; incr; \x7d \x7d",
   "  Every clause is optional; a missing cond loops forever.",
   "  A variable declared in init is not visible after the loop."]

/-- The form of errors and their codes. -/
def diagnosticsPage : Text := page
  ["DIAGNOSTICS",
   "",
   "Every error is printed as",
   "  [line N] at 'lexeme': message",
   "or, when the problem is at the end of input,",
   "  [line N] at end: message",
   "",
   "Codes (shown with --json):",
   "  E_LEX        unexpected character, unterminated string",
   "  E_PARSE      grammar error; parsing resumes at the next statement",
   "  E_UNDEFINED  undefined variable",
   "  E_TYPE       operand must be a number, operands mismatch",
   "  E_BUDGET     iteration or time budget exceeded",
   "  E_IO         output could not be written",
   "  E_CONFIG     invalid settings file",
   "",
   "Exit codes: 0 ok, 64 usage, 65 lex or parse error, 70 runtime error,",
   "74 I/O error."]

def configPage : Text := page
  ["CONFIG",
   "",
   "Settings are read from the first file found:",
   "  ./.rlux.yaml",
   "  ~/.rlux/config.yaml",
   "or from the file given with --config.",
   "",
   "  diagnostics: text          # text | json",
   "  prompt: \"> \"               # REPL prompt",
   "  log_level: warn            # debug | info | warn | error",
   "  run_on_parse_error: true   # run the declarations that parsed",
   "  budget:",
   "    max_iterations: 0        # 0 = unbounded",
   "    timeout_ms: 0            # 0 = unbounded",
   "",
   "Unknown keys are rejected."]

def budgetPage : Text := page
  ["BUDGET",
   "",
   "Loops can be limited so that a runaway script stops with E_BUDGET.",
   "",
   "  max_iterations  total while iterations across the whole run",
   "  timeout_ms      wall-clock limit for the run",
   "",
   "The error is reported at the 'while' keyword of the loop that ran out."]

def examplesPage : Text := page
  ["EXAMPLES",
   "",
   "Fibonacci:",
   "  var a = 0;",
   "  var b = 1;",
   "  for (var i = 0; i < 10; i = i + 1) \x7b",
   "    print a;",
   "    var t = a + b;",
   "    a = b;",
   "    b = t;",
   "  \x7d",
   "",
   "Short-circuit:",
   "  print nil or \"default\";   // \"default\"",
   "  print false and y;        // false, y is never read",
   "",
   "Shadowing:",
   "  var x = \"outer\";",
   "  \x7b var x = \"inner\"; print x; \x7d",
   "  print x;"]

/-- The topics in the order of their display. -/
def topics : List (String × Text) :=
  [("syntax", syntaxPage),
   ("types", typesPage),
   ("scopes", scopesPage),
   ("flow", flowPage),
   ("diagnostics", diagnosticsPage),
   ("config", configPage),
   ("budget", budgetPage),
   ("examples", examplesPage)]

inductive TopicError where
  | empty
  | unknown (name : Text)
  | ambiguous (name : Text) (candidates : List String)
  deriving DecidableEq, Repr

def TopicError.message : TopicError → Text
  | .empty => "empty topic name"
  | .unknown name => Text.concat ["unknown help topic ", Text.quoted name]
  | .ambiguous name candidates => Text.concat
    ["ambiguous help topic ", Text.quoted name, ": matches ",
     Text.join ", " (candidates.map Text.ofString)]

/-- The topic with a given name, or with a name that begins so. Case and outer blanks do not
matter. -/
def find (name : Text) : Except TopicError (String × Text) :=
  let name := Text.lower (Text.trim name)
  match topics.find? fun topic => Text.ofString topic.1 == name with
  | some topic => .ok topic
  | none =>
    if name = [] then .error .empty
    else match topics.filter fun topic => name.isPrefixOf (Text.ofString topic.1) with
      | [] => .error (.unknown name)
      | [topic] => .ok topic
      | several => .error (.ambiguous name (several.map Prod.fst))

/-- What a reserved word is used for. -/
def role (k : Kind) : String :=
  match k with
  | .andWord | .orWord => "operator"
  | .trueWord | .falseWord | .nilWord => "literal"
  | .varWord => "declaration"
  | .printWord | .ifWord | .elseWord | .whileWord | .forWord => "statement"
  | _ => "reserved"

def roles : List String := ["declaration", "literal", "operator", "reserved", "statement"]

def keywordIndex : Text :=
  let line (r : String) : Text :=
    let words := (Kind.keywords.filter fun entry => role entry.2 == r).map fun entry =>
      Text.ofString entry.1
    Text.concat [Text.padRight 12 r, " ", Text.join ", " words, "\n"]
  Text.concat [roles.flatMap line, "\nTotal: ", Text.ofNat Kind.keywords.length, " keywords\n"]

end Lox.Help
