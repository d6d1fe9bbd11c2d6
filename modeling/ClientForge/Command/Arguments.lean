import ClientForge.Command

/-!
Reading the command line. Options stand before or behind the word that says what is to be done; a
value follows its option as the next argument or in the same one. `-vi=x` is `-v -i x`.
-/

namespace ClientForge.Command

inductive Flag where
  | verbose
  | version
  | input
  | output
  | package
  | operation
  | module
  | config
  deriving DecidableEq, Repr

/-- Where options stand: in front of the word, or behind it. -/
inductive Level where
  | outer
  | modules
  | generate
  deriving DecidableEq, Repr

def Flag.ofLong? : String → Option Flag
  | "verbose" => some verbose
  | "version" => some version
  | "input" => some input
  | "output" => some output
  | "package" => some package
  | "operation" => some operation
  | "module" => some module
  | "config" => some config
  | _ => none

def Flag.ofShort? : Char → Option Flag
  | 'v' => some verbose
  | 'V' => some version
  | 'i' => some input
  | 'o' => some output
  | 'p' => some package
  | 'm' => some module
  | _ => none

def Flag.takesValue : Flag → Bool
  | verbose => false
  | version => false
  | _ => true

def Flag.mayRepeat : Flag → Bool
  | operation => true
  | module => true
  | _ => false

/-- Whether the value of an option is a path, which cannot be empty. -/
def Flag.isPath : Flag → Bool
  | input => true
  | output => true
  | config => true
  | _ => false

def Level.accepts (level : Level) (flag : Flag) : Bool :=
  match flag, level with
  | .verbose, _ => true
  | .version, .outer => true
  | .version, _ => false
  | _, .generate => true
  | _, _ => false

/-- Options with their values, in order. An option without a value has an empty one. -/
abbrev Given := List (Flag × String)

/-- The options of an argument, and the one among them whose value is the next argument. -/
abbrev Group := Given × Option Flag

def Level.accept? (level : Level) (flag? : Option Flag) : Option Flag := flag?.filter level.accepts

def longOption? (level : Level) (text : List Char) : Option Group := do
  let name := text.takeWhile (· ≠ '=')
  let flag ← level.accept? (Flag.ofLong? (String.ofList name))
  match flag.takesValue, text.dropWhile (· ≠ '=') with
  | true, [] => return ([], some flag)
  | true, _ :: value => return ([(flag, String.ofList value)], none)
  | false, [] => return ([(flag, "")], none)
  | false, _ :: _ => none

/-- The value of an option that stands in one argument with its letter. -/
def attachedValue : List Char → String
  | '=' :: value => String.ofList value
  | value => String.ofList value

/-- Reads options that are written as letters. Behind the one for the version nothing counts. -/
def shortOptions? (level : Level) : List Char → Option Group
  | [] => some ([], none)
  | letter :: rest => do
    let flag ← level.accept? (Flag.ofShort? letter)
    if flag = .version then return ([(flag, "")], none)
    match flag.takesValue, rest with
    | true, [] => return ([], some flag)
    | true, _ => return ([(flag, attachedValue rest)], none)
    | false, _ =>
      let (given, pending) ← shortOptions? level rest
      return ((flag, "") :: given, pending)

/-- Whether an argument is a value or a word, and not options. -/
def isWord (argument : String) : Bool :=
  match argument.toList with
  | '-' :: _ :: _ => false
  | _ => true

def options? (level : Level) (argument : String) : Option Group :=
  match argument.toList with
  | '-' :: '-' :: text => longOption? level text
  | '-' :: text => shortOptions? level text
  | _ => none

def add? : Given → Given → Option Given
  | given, [] => some given
  | given, (flag, value) :: rest =>
    if (!flag.mayRepeat && given.any (·.1 = flag)) || (flag.isPath && value = "") then none
    else add? (given ++ [(flag, value)]) rest

/-- Reads the options behind the word; `pending` waits for its value. After `--` there is
nothing. -/
def optionsBehind? (level : Level) (given : Given) : Option Flag → List String → Option Given
  | none, [] => some given
  | some _, [] => none
  | some flag, value :: rest => do
    if isWord value then optionsBehind? level (← add? given [(flag, value)]) none rest else none
  | none, argument :: rest => do
    if argument = "--" then (if rest.isEmpty then some given else none)
    else if isWord argument then none
    else
      let (found, pending) ← options? level argument
      optionsBehind? level (← add? given found) pending rest

def value? (given : Given) (flag : Flag) : Option String := given.lookup flag

def values (given : Given) (flag : Flag) : List String :=
  (given.filter (·.1 = flag)).map (·.2)

/-- The arguments that options give. Where they name no configuration file, the environment does. -/
def argumentsOf? (environment : Option String) (given : Given) : Option Arguments := do
  let given ←
    match value? given .config, environment with
    | none, some path => add? given [(.config, path)]
    | _, _ => some given
  return {
    input := value? given .input
    output := value? given .output
    package := value? given .package
    operations := values given .operation
    modules := values given .module
    config := value? given .config }

def read? (environment : Option String) (given : Given) : List String → Option Command
  | [] => none
  | argument :: rest => do
    if argument = "modules" then
      let _ ← optionsBehind? .modules [] none rest
      return .modules
    else if argument = "generate" then
      return .generate (← argumentsOf? environment (← optionsBehind? .generate [] none rest))
    else if isWord argument then none
    else
      let (found, _) ← options? .outer argument
      let given ← add? given found
      if given.any (·.1 = .version) then return .version else read? environment given rest

/-- What a command line asks for, if it can be done. -/
def ofArguments? (environment : Option String) (arguments : List String) : Option Command :=
  read? environment [] arguments

end ClientForge.Command
