import LeastContext.Batch
import LeastContext.CommandLine.Options

namespace LeastContext

namespace CommandLine

/-- What the dumps of a run gave: all findings, and the dumps that could not be analyzed. -/
structure Outcome where
  diagnostics : List Diagnostic
  failures : List (Path × Failure)
  deriving DecidableEq, Inhabited, Repr

namespace Outcome

/-- A failed dump outweighs findings. -/
def exitCode (outcome : Outcome) : UInt32 :=
  if !outcome.failures.isEmpty then 2
  else if outcome.diagnostics.isEmpty then 0
  else 1

end Outcome

/-- Why a run has no outcome. -/
inductive Abort where
  | settings (source : Path) (failure : Failure)
  | gathering (path : Path) (failure : Failure)
  | nothingToAnalyze
  | analysis (failure : Failure)
  deriving DecidableEq, Inhabited, Repr

/-- The message of a failure followed by those of its causes. -/
def chain : Failure → String
  | .io path reason => s!"{(Failure.io path reason).message}: {reason}"
  | failure => failure.message

def Abort.message : Abort → String
  | .settings source failure => s!"Invalid configuration in {source.text}: {chain failure}"
  | .gathering path failure =>
    s!"Failed to collect program dumps from {path.text}: {chain failure}"
  | .nothingToAnalyze => "no program dumps to analyze"
  | .analysis failure => chain failure

/-- Adds what a dump gave. A failure that spoils the other dumps ends the run. -/
def Outcome.add (outcome : Outcome) (path : Path) :
    Except Failure Analysis → Except Abort Outcome
  | .ok analysis =>
    .ok { outcome with diagnostics := outcome.diagnostics ++ analysis.diagnostics }
  | .error failure =>
    if failure.isRecoverable then
      .ok { outcome with failures := outcome.failures ++ [(path, failure)] }
    else .error (.analysis failure)

/-- The settings of a configuration with its source, or the defaults. -/
def settingsOf (read : PatternReader) : Option (Config × Path) → Except Abort Settings
  | none => .ok .default
  | some (config, source) =>
    match Settings.ofConfig read config source.text with
    | .ok settings => .ok settings
    | .error failure => .error (.settings source failure)

/-- The dumps at some paths, in the order of the arguments. -/
def gatherAll (tree : FileTree) : List Path → Except Abort (List Path)
  | [] => .ok []
  | path :: paths =>
    match tree.gather path with
    | .error failure => .error (.gathering path failure)
    | .ok dumps => (gatherAll tree paths).map (dumps ++ ·)

/-- Paths in order, each once. -/
def distinct (paths : List Path) : List Path :=
  (paths.mergeSort Path.notAfter).eraseDupsBy Path.same

/-- The dumps to analyze: those at the paths of the command line, each path once. -/
def dumpsOf (tree : FileTree) (options : Options) : Except Abort (List Path) := do
  let dumps := distinct (← gatherAll tree options.paths)
  if dumps.isEmpty then throw .nothingToAnalyze
  return dumps

/-- Adds up what the dumps gave, in their order. -/
def Outcome.ofResults (results : List (Path × Except Failure Analysis)) :
    Except Abort Outcome :=
  results.foldlM (fun outcome result => outcome.add result.1 result.2) ⟨[], []⟩

/-- The settings and the dumps of a run. -/
def prepare (read : PatternReader) (tree : FileTree) (options : Options)
    (config : Option (Config × Path)) : Except Abort (Settings × List Path) := do
  return (← settingsOf read config, ← dumpsOf tree options)

/-- Analyzes all dumps at the paths of the command line. -/
def analyzeAllM {m : Type → Type} [Evaluation m] (read : PatternReader) (tree : FileTree)
    (options : Options) (config : Option (Config × Path)) : m (Except Abort Outcome) := do
  match prepare read tree options config with
  | .error abort => return .error abort
  | .ok (settings, dumps) =>
    let results ← dumps.mapM fun path =>
      return (path, ← tree.analyzeAtM settings options.includeTests path)
    return Outcome.ofResults results

/-- What a run shows. -/
structure Shown where
  code : UInt32
  output : String
  errors : List String
  deriving DecidableEq, Inhabited, Repr

def Shown.error (message : String) : Shown :=
  ⟨2, "", [s!"[ERROR] {message}"]⟩

/-- The configuration to apply: the one asked for, else that of the current folder. -/
def resolveConfig (tree : FileTree) (options : Options) :
    Except ConfigTrouble (Option (Config × Path)) :=
  match options.config with
  | some path => (tree.configAt path).map fun config => some (config, path)
  | none =>
    (tree.configOf ⟨"."⟩).map fun config =>
      config.map fun config => (config, FileTree.configPath ⟨"."⟩)

/-- What is shown of an outcome. -/
def Outcome.shown (outcome : Outcome) (json : Bool) : Shown where
  code := outcome.exitCode
  output := if json then jsonReport outcome.diagnostics else plainReport outcome.diagnostics
  errors := outcome.failures.map fun (path, failure) =>
    s!"[ERROR] {path.text}: {failure.message}"

section Run

variable {m : Type → Type} [Evaluation m] (read : PatternReader) (tree : FileTree)

def checkM (options : Options) : m Shown := do
  match resolveConfig tree options with
  | .error trouble => return .error trouble.detail
  | .ok config =>
    match ← analyzeAllM read tree options config with
    | .error abort => return .error abort.message
    | .ok outcome => return outcome.shown (options.json || config.any (·.1.wantsJson))

/-- Runs the command on a file tree. -/
def runM (args : List String) : m Shown :=
  match Request.ofArgs args with
  | .version => pure ⟨0, "ctxlint-cli 0.1.0\n", []⟩
  | .misuse => pure ⟨2, "", []⟩
  | .check options => checkM read tree options

end Run

end CommandLine

end LeastContext
