import CodeAtlas.Text.Blank

namespace CodeAtlas

/-- An option of a command: its long name, the letter that abbreviates it, and whether a value
follows it. -/
structure OptionRule where
  name : String
  letter : Option Char
  takesValue : Bool
  deriving Inhabited, Repr

/-- Arguments taken apart: the options with their values, in order, and the other words. -/
structure Arguments where
  options : List (String × String)
  words : List String
  deriving DecidableEq, Inhabited, Repr

namespace Arguments

def addOption (name value : String) (a : Arguments) : Arguments :=
  { a with options := (name, value) :: a.options }

def addWord (word : String) (a : Arguments) : Arguments :=
  { a with words := word :: a.words }

/-- Splits `--name=value`. -/
def splitValue (arg : String) : String × Option String :=
  let name := arg.toList.takeWhile (· != '=')
  match arg.toList.drop name.length with
  | _ :: value => (String.ofList name, some (String.ofList value))
  | [] => (arg, none)

/-- Letters behind one dash, each of them an option without a value. -/
def letters (rules : List OptionRule) (arg : String) : Option (List String) :=
  if arg.startsWith "--" then none
  else (arg.toList.drop 1).mapM fun c =>
    (rules.find? fun r => r.letter = some c && !r.takesValue).map (·.name)

def looksLikeOption (arg : String) : Bool := arg.startsWith "-" && arg != "-"

/-- Takes arguments apart; nothing when an option is unknown or lacks its value, or has one that it
does not take. Two dashes end the options, and without `mixed` the first other word does. -/
def read (rules : List OptionRule) (mixed : Bool) : List String → Option Arguments
  | [] => some ⟨[], []⟩
  | arg :: rest =>
    if arg = "--" then some ⟨[], rest⟩
    else if looksLikeOption arg then
      let (name, attached) := splitValue arg
      match rules.find? (·.name == name), attached with
      | some rule, some value =>
        if rule.takesValue then (read rules mixed rest).map (addOption rule.name value) else none
      | some rule, none =>
        if rule.takesValue then
          match rest with
          | value :: rest => (read rules mixed rest).map (addOption rule.name value)
          | [] => none
        else (read rules mixed rest).map (addOption rule.name "")
      | none, _ =>
        match letters rules arg with
        | some names => (read rules mixed rest).map fun a => names.foldr (addOption · "") a
        | none => none
    else if mixed then (read rules mixed rest).map (addWord arg)
    else some ⟨[], arg :: rest⟩

/-- The value of an option, the last one where it is given several times. -/
def value? (a : Arguments) (name : String) : Option String :=
  (a.options.reverse.find? (·.1 == name)).map (·.2)

def has (a : Arguments) (name : String) : Bool := a.options.any (·.1 == name)

end Arguments

/-- What a command is to do. -/
inductive Action where
  | ingest (config : Option String)
  | schedule (config : Option String)
  | status (config : Option String)
  | analyze (query : String) (config : Option String) (prefilter asData : Bool)
  deriving DecidableEq, Inhabited, Repr

/-- The settings file that a command names. -/
def Action.config? : Action → Option String
  | .ingest config => config
  | .schedule config => config
  | .status config => config
  | .analyze _ config _ _ => config

/-- What the arguments of the program come to. Wrong ones may show before or after the program has
taken note of its verbosity. -/
inductive Invocation where
  | version
  | help (verbose : Option Bool)
  | misuse (verbose : Option Bool)
  | run (verbose : Bool) (action : Action)
  deriving DecidableEq, Inhabited, Repr

namespace Invocation

/-- The settings file that the arguments name. -/
def config? : Invocation → Option String
  | .run _ action => action.config?
  | _ => none

def helpRule : OptionRule := ⟨"--help", none, false⟩

def configRule : OptionRule := ⟨"--config", none, true⟩

def programRules : List OptionRule := [⟨"--version", none, false⟩, ⟨"--verbose", some 'v', false⟩, helpRule]

def analyzeRules : List OptionRule :=
  [configRule, ⟨"--no-prefilter", none, false⟩, ⟨"--format", none, true⟩, helpRule]

/-- A command without words of its own. -/
def plainAction (make : Option String → Action) (a : Arguments) : Option Action :=
  if a.words.isEmpty then some (make (a.value? "--config")) else none

/-- The format of an answer, which is a text where none is given. -/
def asData? (a : Arguments) : Option Bool :=
  match a.value? "--format" with
  | none => some false
  | some "text" => some false
  | some "json" => some true
  | some _ => none

def analyzeAction (a : Arguments) : Option Action :=
  match a.words, asData? a with
  | [query], some asData => some (.analyze query (a.value? "--config") (!a.has "--no-prefilter") asData)
  | _, _ => none

/-- The commands of the program: their names, their options and what they do. -/
def commands : List (String × List OptionRule × (Arguments → Option Action)) := [
  ("ingest", [configRule, helpRule], plainAction .ingest),
  ("schedule", [configRule, helpRule], plainAction .schedule),
  ("status", [configRule, helpRule], plainAction .status),
  ("analyze", analyzeRules, analyzeAction)]

/-- The arguments of a command. -/
def ofCommand (verbose : Bool) (rules : List OptionRule) (make : Arguments → Option Action) (args : List String) :
    Invocation :=
  match Arguments.read rules true args with
  | none => .misuse (some verbose)
  | some a =>
    if a.has "--help" then .help (some verbose)
    else match make a with
      | some action => .run verbose action
      | none => .misuse (some verbose)

/-- The options of the program come before the command. -/
def ofArguments (args : List String) : Invocation :=
  match Arguments.read programRules false args with
  | none => .misuse none
  | some a =>
    match a.options.find? fun (name, _) => name = "--help" || name = "--version" with
    | some ("--version", _) => .version
    | some _ => .help none
    | none =>
      match a.words with
      | [] => .misuse none
      | name :: rest =>
        match commands.lookup name with
        | some (rules, make) => ofCommand (a.has "--verbose") rules make rest
        | none => .misuse none

end Invocation

end CodeAtlas
