import SearchSql.CommandLine.Arguments
import SearchSql.Document.Statements
import SearchSql.Settings.Document
import SearchSql.Time.Reading
import SearchSql.Tree.Rendering

/-!
# Running a command

A command reads its settings, then the statement, and either fails or has something to print. What
it reads is given as a function from file names to contents, so that running a command is a pure
function.
-/

set_option autoImplicit false

namespace SearchSql.CommandLine

/-- Why a command fails. -/
inductive Failure where
  | usage
  | reading (name : String)
  | parsing (name : String)
  | settings (fault : SettingsFault)
  | syntaxErrors (source : String) (diagnostics : List Diagnostic)
  deriving DecidableEq, Repr

namespace Failure

/-- The exit status of a failed command. -/
def status : Failure → Nat
  | .usage => 2
  | _ => 1

/-- The failure in words, of which a wrong usage has none of its own. -/
def message? : Failure → Option String
  | .usage => none
  | .reading name => some ("reading " ++ name)
  | .parsing name => some ("parsing " ++ name)
  | .settings fault => some fault.message
  | .syntaxErrors source diagnostics =>
      some (source ++ ": " ++ toString diagnostics.length ++ " syntax error(s)")

/-- The diagnostics that come with a failure. -/
def diagnostics : Failure → List Diagnostic
  | .syntaxErrors _ diagnostics => diagnostics
  | _ => []

end Failure

/-- What a command prints. -/
inductive Output where
  /-- A text, and the diagnostics that come with it. -/
  | text (text : String) (diagnostics : List Diagnostic)
  /-- The outcome of a parse as a document. -/
  | outcome (outcome : Outcome)

/-- What a command can read. -/
structure Inputs where
  file : String → Option String
  standardInput : String

/-- The contents of a file. -/
def Inputs.contents (inputs : Inputs) (name : String) : Except Failure String :=
  match inputs.file name with
  | some text => .ok text
  | none => .error (.reading name)

/-- The text of a source. -/
def Inputs.text (inputs : Inputs) : Source → Except Failure String
  | .argument text => .ok text
  | .file name => inputs.contents name
  | .input => .ok inputs.standardInput

/-- The settings in a file, or the standard ones if there is none. -/
def Inputs.settings (inputs : Inputs) : Option String → Except Failure Settings
  | none => .ok .standard
  | some name => do
      match Settings.ofDocument? (← inputs.contents name) with
      | some settings => return settings
      | none => .error (.parsing name)

/-- The settings that a command asks for. -/
def Invocation.settings (i : Invocation) (inputs : Inputs) : Except Failure Settings := do
  let base ← inputs.settings i.config
  let settings : Settings :=
    { base with
      maxDepth := i.maxDepth.getD base.maxDepth
      recover := base.recover && !i.noRecover }
  match settings.fault? with
  | some fault => .error (.settings fault)
  | none => return settings

/-- A text with blanks behind it, up to a width. -/
def padded (width : Nat) (text : String) : String :=
  text ++ String.ofList (List.replicate (width - text.length) ' ')

/-- The line for a token. -/
def tokenLine (t : Token) : String :=
  padded 12 t.span.text ++ " " ++ padded 28 t.kind.description ++ " " ++ t.text ++ "\n"

/-- What an action prints for the text of a source. -/
def Action.run (action : Action) (source : Source) (text : String) (settings : Settings) :
    Except Failure Output :=
  match action with
  | .parse => .ok (.outcome (SearchSql.parse text settings))
  | .format =>
      let o := SearchSql.parse text settings
      match o.statement with
      | some statement => .ok (.text (statement.render ++ "\n") o.diagnostics)
      | none => .ok (.text "" o.diagnostics)
  | .tokens => .ok (.text (String.join ((Token.tokenize text).map tokenLine)) [])
  | .check =>
      let o := SearchSql.parse text settings
      if o.isClean then .ok (.text "" [])
      else .error (.syntaxErrors source.name o.diagnostics)

/-- What a command prints. -/
def Invocation.run (i : Invocation) (inputs : Inputs) : Except Failure Output := do
  let settings ← i.settings inputs
  let text ← inputs.text i.source
  i.action.run i.source text settings

/-- What the program prints for its arguments. -/
def run (environment : Environment) (arguments : List String) (inputs : Inputs) :
    Except Failure Output :=
  match Invocation.ofArguments? environment arguments with
  | some i => i.run inputs
  | none => .error .usage

/-- The output as text. -/
def Output.toText : Output → String
  | .text s _ => s
  | .outcome o => (o.document Document.realNumber).text ++ "\n"

/-- The diagnostics that come with the output. -/
def Output.diagnostics : Output → List Diagnostic
  | .text _ diagnostics => diagnostics
  | .outcome o => o.diagnostics

end SearchSql.CommandLine
