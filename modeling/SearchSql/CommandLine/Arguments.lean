import SearchSql.Number.Integer

/-!
# The arguments of the command line

`[-c FILE] [--max-depth N] [--no-recover] [-v] parse|format|tokens|check [SQL] [-f FILE]`

The options in front of the command are settings, those behind it say where the statement comes
from. A value may be the next argument, or follow an equals sign; behind the letter of an option it
may also follow at once. An option may be given once. The argument `--` ends the options behind the
command.

`Invocation.ofArguments?` gives nothing for arguments of any other form.
-/

set_option autoImplicit false

namespace SearchSql.CommandLine

/-- The options. -/
inductive Flag where
  | config | maxDepth | noRecover | verbose | file
  deriving DecidableEq, Repr

namespace Flag

/-- The options in front of the command. -/
def global : List Flag := [.config, .maxDepth, .noRecover, .verbose]

/-- The options behind the command. -/
def ofCommand : List Flag := [.file]

/-- The name of an option. -/
def name : Flag → String
  | .config => "config"
  | .maxDepth => "max-depth"
  | .noRecover => "no-recover"
  | .verbose => "verbose"
  | .file => "file"

/-- The letter of an option, if it has one. -/
def letter? : Flag → Option Char
  | .config => some 'c'
  | .verbose => some 'v'
  | .file => some 'f'
  | _ => none

/-- Whether an option has a value. -/
def takesValue : Flag → Bool
  | .config | .maxDepth | .file => true
  | .noRecover | .verbose => false

end Flag

/-- An option as given, with an empty value if it takes none. -/
structure Given where
  flag : Flag
  value : String
  deriving DecidableEq, Repr

/-- The options in one argument, and the one that waits for its value in the next argument. -/
abbrev Found : Type := List Given × Option Flag

/-- The option `name`, with a value behind an equals sign if there is one. -/
def readName (allowed : List Flag) (chars : List Char) : Option Found := do
  let name := chars.takeWhile (· != '=')
  let flag ← allowed.find? fun flag => flag.name == String.ofList name
  match chars.drop name.length with
  | [] => return if flag.takesValue then ([], some flag) else ([⟨flag, ""⟩], none)
  | _ :: value =>
      if flag.takesValue then return ([⟨flag, String.ofList value⟩], none) else failure

/-- The options of a run of letters. What follows the letter of an option with a value is its
value. -/
def readLetters (allowed : List Flag) : List Char → Option Found
  | [] => some ([], none)
  | c :: cs => do
      let flag ← allowed.find? fun flag => flag.letter? == some c
      if flag.takesValue then
        match cs with
        | [] => return ([], some flag)
        | '=' :: value => return ([⟨flag, String.ofList value⟩], none)
        | value => return ([⟨flag, String.ofList value⟩], none)
      else
        let (given, waiting) ← readLetters allowed cs
        return (⟨flag, ""⟩ :: given, waiting)

/-- The options in an argument, or nothing if it is not one of them. -/
def readOption (allowed : List Flag) : List Char → Option Found
  | '-' :: '-' :: name => readName allowed name
  | '-' :: letters => readLetters allowed letters
  | _ => none

/-- Whether an argument has the form of an option. A dash alone has not. -/
def isOption (argument : String) : Bool :=
  match argument.toList with
  | '-' :: _ :: _ => true
  | _ => false

/-- The options in front of the first other argument, and the arguments from there on. The value of
the option `waiting` comes first. -/
def readGlobal : Option Flag → List String → Option (List Given × List String)
  | none, [] => some ([], [])
  | some _, [] => none
  | some flag, a :: rest =>
      if isOption a then none
      else (readGlobal none rest).map fun r => (⟨flag, a⟩ :: r.1, r.2)
  | none, a :: rest =>
      if a = "--" then none
      else if isOption a then do
        let (given, waiting) ← readOption Flag.global a.toList
        let (more, others) ← readGlobal waiting rest
        return (given ++ more, others)
      else some ([], a :: rest)

/-- The options behind the command, and the other arguments there. -/
def readCommand : Option Flag → List String → Option (List Given × List String)
  | none, [] => some ([], [])
  | some _, [] => none
  | some flag, a :: rest =>
      if isOption a then none
      else (readCommand none rest).map fun r => (⟨flag, a⟩ :: r.1, r.2)
  | none, a :: rest =>
      if a = "--" then some ([], rest)
      else if isOption a then do
        let (given, waiting) ← readOption Flag.ofCommand a.toList
        let (more, others) ← readCommand waiting rest
        return (given ++ more, others)
      else (readCommand none rest).map fun r => (r.1, a :: r.2)

/-- The value of an option, which may be given once. -/
def single (given : List Given) (flag : Flag) : Option (Option String) :=
  match (given.filter (·.flag = flag)).map Given.value with
  | [] => some none
  | [value] => some (some value)
  | _ => none

/-- The file name that an option gives, which must not be empty. -/
def fileName (given : List Given) (flag : Flag) : Option (Option String) := do
  let name ← single given flag
  if name = some "" then failure
  return name

/-- What to do with a statement. -/
inductive Action where
  | parse | format | tokens | check
  deriving DecidableEq, Repr

/-- The action that a command names. -/
def Action.ofCommand? (command : String) : Option Action :=
  if command = "parse" then some .parse
  else if command = "format" then some .format
  else if command = "tokens" then some .tokens
  else if command = "check" then some .check
  else none

/-- Where a statement comes from. -/
inductive Source where
  | argument (text : String)
  | file (name : String)
  | input
  deriving DecidableEq, Repr

/-- The name of a source in messages. -/
def Source.name : Source → String
  | .argument _ => "<arg>"
  | .file name => name
  | .input => "<stdin>"

/-- The source that the arguments behind a command give. -/
def Source.ofArguments? (arguments : List String) : Option Source := do
  let (given, others) ← readCommand none arguments
  match ← fileName given .file, others with
  | none, [] => return .input
  | none, [text] => return .argument text
  | some name, [] => return .file name
  | _, _ => failure

/-- The settings in the environment, as they are written there. -/
structure Environment where
  maxDepth : Option String
  noRecover : Option String
  deriving DecidableEq, Repr

/-- What the program is asked to do. -/
structure Invocation where
  config : Option String
  maxDepth : Option Nat
  noRecover : Bool
  verbose : Bool
  action : Action
  source : Source
  deriving DecidableEq, Repr

/-- A depth that may be absent. -/
def depth? : Option String → Option (Option Nat)
  | none => some none
  | some text =>
      match Number.readUnsigned text with
      | .ok depth => some (some depth)
      | .error _ => none

/-- The truth value of a variable of the environment, which is false if it is not set. -/
def truth? : Option String → Option Bool
  | none => some false
  | some text => if text = "true" then some true else if text = "false" then some false else none

/-- What the arguments ask for. They override the environment. -/
def Invocation.ofArguments? (environment : Environment) (arguments : List String) :
    Option Invocation := do
  let (given, others) ← readGlobal none arguments
  match others with
  | [] => failure
  | command :: arguments =>
      let action ← Action.ofCommand? command
      let source ← Source.ofArguments? arguments
      let config ← fileName given .config
      let maxDepth ← depth? ((← single given .maxDepth).or environment.maxDepth)
      let verbose ← single given .verbose
      let stated ← single given .noRecover
      let noRecover ← if stated.isSome then some true else truth? environment.noRecover
      return ⟨config, maxDepth, noRecover, verbose.isSome, action, source⟩

end SearchSql.CommandLine
