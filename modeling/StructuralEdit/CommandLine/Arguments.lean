/-
  StructuralEdit.CommandLine.Arguments
  ────────────────────────────────────
  **READING THE ARGUMENTS OF A CALL.**

  A call names a command, with options before and behind the name:

      run RULES [PATHS…]      apply a rule file
        -w --write, --json, -l --lang NAME, --include GLOB, --exclude GLOB
      query PATTERN [PATHS…]  show what a pattern finds
        --ts, -l --lang NAME
      check RULES             check a rule file
      -v --verbose, -s --silent, everywhere, but not both at one place
      -V --version, in place of a command

  A flag, and an option that does not collect, may be given only once.  The value
  of an option is the next argument or follows an equals sign, or, for a short
  one, its letter.  Short flags can share a dash.  After `--` nothing is an
  option.
-/
import StructuralEdit.Path

namespace StructuralEdit.CommandLine

/-! ## §1. Calls. -/

/-- What `run` is asked to do. -/
structure RunRequest where
  rules : Path
  paths : List Path := []
  write : Bool := false
  lang : Option String := none
  includes : List String := []
  excludes : List String := []
  json : Bool := false
  deriving DecidableEq, Repr

/-- What `query` is asked to do. -/
structure QueryRequest where
  pattern : String
  paths : List Path := []
  isTree : Bool := false
  lang : Option String := none
  deriving DecidableEq, Repr

/-- What a call asks for. -/
inductive Request where
  | run (request : RunRequest)
  | query (request : QueryRequest)
  | check (rules : Path)
  | version
  deriving DecidableEq, Repr

/-! ## §2. Options. -/

/-- An option that a command knows. -/
structure OptionSpec where
  name : String
  short : Option Char := none
  takesValue : Bool := false
  collects : Bool := false
  deriving DecidableEq, Repr

/-- The options that are known everywhere. -/
def commonOptions : List OptionSpec :=
  [{ name := "verbose", short := some 'v' }, { name := "silent", short := some 's' }]

/-- The option for the version. -/
def versionOption : OptionSpec :=
  { name := "version", short := some 'V' }

/-- The option for a language. -/
def langOption : OptionSpec :=
  { name := "lang", short := some 'l', takesValue := true }

/-- The options of `run`. -/
def runOptions : List OptionSpec :=
  commonOptions ++ [langOption, { name := "write", short := some 'w' }, { name := "json" },
    { name := "include", takesValue := true, collects := true },
    { name := "exclude", takesValue := true, collects := true }]

/-- The options of `query`. -/
def queryOptions : List OptionSpec :=
  commonOptions ++ [langOption, { name := "ts" }]

/-- What the arguments of a command say: the options with their values (a flag has
the empty one), and the other arguments, each in order. -/
structure Arguments where
  options : List (String × String) := []
  others : List String := []
  deriving DecidableEq, Repr

namespace Arguments

/-- The option is given. -/
def has (a : Arguments) (name : String) : Bool :=
  (a.options.lookup name).isSome

/-- The values of an option, in order. -/
def values (a : Arguments) (name : String) : List String :=
  (a.options.filter (·.1 == name)).map (·.2)

/-- Add an option; one that does not collect must not be there. -/
def add (a : Arguments) (spec : OptionSpec) (value : String) : Option Arguments :=
  if a.has spec.name && !spec.collects then none
  else some { a with options := a.options ++ [(spec.name, value)] }

/-- The two options that exclude each other are not both given. -/
def isConsistent (a : Arguments) : Bool :=
  !(a.has "verbose" && a.has "silent")

end Arguments

/-! ## §3. Reading. -/

/-- What stands before and, if there is one, behind the first equals sign. -/
def splitEquals (cs : List Char) : List Char × Option (List Char) :=
  let name := cs.takeWhile (· != '=')
  (name, if name.length < cs.length then some (cs.drop (name.length + 1)) else none)

/-- Short options behind a dash: all flags, or flags and at last an option, whose
value follows or is still to come. -/
def shortOptions (specs : List OptionSpec) :
    List Char → Arguments → Option (Arguments × Option OptionSpec)
  | [], a => some (a, none)
  | c :: rest, a => do
      let spec ← specs.find? (·.short == some c)
      if !spec.takesValue then shortOptions specs rest (← a.add spec "")
      else match rest with
        | [] => some (a, some spec)
        | '=' :: value => some (← a.add spec (String.ofList value), none)
        | value => some (← a.add spec (String.ofList value), none)

/-- A long option behind two dashes; its value may still be to come. -/
def longOption (specs : List OptionSpec) (cs : List Char) (a : Arguments) :
    Option (Arguments × Option OptionSpec) := do
  let (name, value) := splitEquals cs
  let spec ← specs.find? (·.name == String.ofList name)
  match spec.takesValue, value with
  | false, none => some (← a.add spec "", none)
  | false, some _ => none
  | true, some v => some (← a.add spec (String.ofList v), none)
  | true, none => some (a, some spec)

/-- An argument that starts like an option. -/
def isOptionLike (arg : String) : Bool :=
  arg.startsWith "-" && arg != "-"

/-- One option, short or long; `none` if it is not known or misused. -/
def option (specs : List OptionSpec) (arg : String) (a : Arguments) :
    Option (Arguments × Option OptionSpec) :=
  match arg.toList with
  | '-' :: '-' :: name => longOption specs name a
  | '-' :: letters => shortOptions specs letters a
  | _ => none

/-- The arguments of a command; `open?` is an option that waits for its value. -/
def argumentsFrom (specs : List OptionSpec) :
    Option OptionSpec → List String → Arguments → Option Arguments
  | none, [], a => some a
  | some _, [], _ => none
  | some spec, arg :: rest, a =>
      if isOptionLike arg then none
      else (a.add spec arg).bind (argumentsFrom specs none rest)
  | none, arg :: rest, a =>
      if arg == "--" then some { a with others := a.others ++ rest }
      else if isOptionLike arg then
        (option specs arg a).bind fun (a, pending) => argumentsFrom specs pending rest a
      else argumentsFrom specs none rest { a with others := a.others ++ [arg] }

/-- The arguments of a command. -/
def arguments (specs : List OptionSpec) (args : List String) : Option Arguments := do
  let a ← argumentsFrom specs none args {}
  if a.isConsistent then some a else none

/-- A path; there is none without a spelling. -/
def path? (s : String) : Option Path :=
  if s.isEmpty then none else some ⟨s⟩

/-- The request of `run`. -/
def runRequest (args : List String) : Option Request := do
  let a ← arguments runOptions args
  match ← a.others.mapM path? with
  | [] => none
  | rules :: paths =>
      some (.run {
        rules := rules
        paths := paths
        write := a.has "write"
        lang := (a.values "lang").head?
        includes := a.values "include"
        excludes := a.values "exclude"
        json := a.has "json" })

/-- The request of `query`. -/
def queryRequest (args : List String) : Option Request := do
  let a ← arguments queryOptions args
  match a.others with
  | [] => none
  | pattern :: paths =>
      some (.query {
        pattern := pattern
        paths := ← paths.mapM path?
        isTree := a.has "ts"
        lang := (a.values "lang").head? })

/-- The request of `check`. -/
def checkRequest (args : List String) : Option Request := do
  let a ← arguments commonOptions args
  match a.others with
  | [rules] => .check <$> path? rules
  | _ => none

/-- The request of a command. -/
def commandRequest (command : String) (args : List String) : Option Request :=
  match command with
  | "run" => runRequest args
  | "query" => queryRequest args
  | "check" => checkRequest args
  | _ => none

/-- Flags in front of a command, read one by one until the version is asked for:
then that is the request, whatever follows. -/
def leadingFlags (letters : List Char) (a : Arguments) : Option (Sum Request Arguments) :=
  match letters with
  | [] => some (.inr a)
  | c :: rest => do
      let spec ← (versionOption :: commonOptions).find? (·.short == some c)
      if spec = versionOption then some (.inl .version) else leadingFlags rest (← a.add spec "")

/-- What a call asks for, after the flags `a`; nothing if it cannot be
understood. -/
def requestFrom (a : Arguments) : List String → Option Request
  | [] => none
  | arg :: rest =>
      if arg == "--version" then some .version
      else match arg.toList with
        | '-' :: '-' :: name => do
            let spec ← commonOptions.find? (·.name == String.ofList name)
            requestFrom (← a.add spec "") rest
        | '-' :: c :: letters => do
            match ← leadingFlags (c :: letters) a with
            | .inl request => some request
            | .inr a => requestFrom a rest
        | _ => if a.isConsistent then commandRequest arg rest else none

/-- What a call asks for; nothing if it cannot be understood. -/
def request (args : List String) : Option Request :=
  requestFrom {} args

end StructuralEdit.CommandLine
