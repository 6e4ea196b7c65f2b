import LeastContext.Files.Path

namespace LeastContext

namespace CommandLine

structure Options where
  paths : List Path
  json : Bool
  config : Option Path
  includeTests : Bool
  verbose : Bool
  deriving DecidableEq, Inhabited, Repr

/-- What the arguments ask for. -/
inductive Request where
  | version
  | check (options : Options)
  | misuse
  deriving DecidableEq, Inhabited, Repr

inductive Switch where
  | json
  | includeTests
  | verbose
  deriving DecidableEq, Inhabited, Repr

namespace Options

def none : Options :=
  ⟨[], false, Option.none, false, false⟩

variable (options : Options)

def isSet : Switch → Bool
  | .json => options.json
  | .includeTests => options.includeTests
  | .verbose => options.verbose

/-- Sets a switch, unless it is set already. -/
def set? (switch : Switch) : Option Options :=
  if options.isSet switch then .none
  else
    some (match switch with
      | .json => { options with json := true }
      | .includeTests => { options with includeTests := true }
      | .verbose => { options with verbose := true })

/-- Adds a path, which must not be empty. -/
def addPath? (text : String) : Option Options :=
  if text = "" then .none else some { options with paths := options.paths ++ [⟨text⟩] }

/-- Sets the configuration file, which must not be set or empty. -/
def setConfig? (text : String) : Option Options :=
  if text = "" ∨ options.config.isSome then .none
  else some { options with config := some ⟨text⟩ }

/-- Without paths, the current folder is meant. -/
def request : Request :=
  .check (if options.paths.isEmpty then { options with paths := [⟨"."⟩] } else options)

end Options

/-- Short options, several of which may share a dash. -/
def shortOptions (options : Options) : List Char → Option (Options × Bool)
  | [] => some (options, false)
  | 'V' :: _ => some (options, true)
  | 'v' :: letters => do shortOptions (← options.set? .verbose) letters
  | _ => none

/-- Whether an argument is an option rather than a path; a lone dash is a path. -/
def isOption (arg : String) : Bool :=
  match arg.toList with
  | '-' :: _ :: _ => true
  | _ => false

def onlyPaths (options : Options) : List String → Option Options
  | [] => some options
  | arg :: args => do onlyPaths (← options.addPath? arg) args

/-- The value of an option that is written after an equals sign. -/
def attached? (option : String) (arg : String) : Option String :=
  ((option ++ "=").toList.isPrefixOf? arg.toList).map String.ofList

def readArgs (options : Options) : List String → Option Request
  | [] => some options.request
  | "--" :: args => (onlyPaths options args).map Options.request
  | "--version" :: _ => some .version
  | "--json" :: args => do readArgs (← options.set? .json) args
  | "--include-tests" :: args => do readArgs (← options.set? .includeTests) args
  | "--verbose" :: args => do readArgs (← options.set? .verbose) args
  | "--config" :: value :: args => do
    if isOption value then none else readArgs (← options.setConfig? value) args
  | arg :: args =>
    match attached? "--config" arg, arg.toList with
    | some value, _ => do readArgs (← options.setConfig? value) args
    | none, '-' :: '-' :: _ => none
    | none, '-' :: letter :: letters => do
      let (options, isVersion) ← shortOptions options (letter :: letters)
      if isVersion then some .version else readArgs options args
    | none, _ => do readArgs (← options.addPath? arg) args

/-- Reads the arguments from left to right. An option is given at most once, and after `--` all
arguments are paths. -/
def Request.ofArgs (args : List String) : Request :=
  (readArgs .none args).getD .misuse

end CommandLine

end LeastContext
