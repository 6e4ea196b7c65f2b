import LeastContext.Analysis.Run
import LeastContext.Files.Tree
import LeastContext.Settings.ConfigFile

namespace LeastContext

/-- Why there is no configuration to apply. -/
inductive ConfigTrouble where
  | unreadable (path : Path) (reason : Unreadable)
  | malformed (path : Path)
  deriving DecidableEq, Inhabited, Repr

namespace ConfigTrouble

def message : ConfigTrouble → String
  | .unreadable path _ => s!"Failed to read {path.text}"
  | .malformed path => s!"Invalid {path.text}"

/-- The message with its cause. -/
def detail (trouble : ConfigTrouble) : String :=
  match trouble with
  | .unreadable _ reason => s!"{trouble.message}: {reason.message}"
  | .malformed _ => s!"{trouble.message}: TOML parse error"

end ConfigTrouble

namespace FileTree

variable (tree : FileTree)

/-- The configuration in a file. -/
def configAt (path : Path) : Except ConfigTrouble Config :=
  match tree.read path with
  | .error reason => .error (.unreadable path reason)
  | .ok text =>
    match Config.ofToml? text with
    | some config => .ok config
    | none => .error (.malformed path)

/-- Where the configuration of a folder is kept. -/
def configPath (folder : Path) : Path :=
  folder.join "ctxlint.toml"

/-- The configuration of a folder, if it has one. -/
def configOf (folder : Path) : Except ConfigTrouble (Option Config) :=
  if tree.exists? (configPath folder) then (tree.configAt (configPath folder)).map some
  else .ok none

/-- Whether a file of a folder is taken for a dump. -/
def isDump (names : List String) : Bool :=
  match names.getLast? with
  | some name => Path.extension? name == some "json"
  | none => false

/-- Whether a search below a folder finds a file: it is taken for a dump, and the folder it is in
can be listed. -/
def isFound (path : Path) (names : List String) : Bool :=
  isDump names && !isTooLong (names.dropLast.foldl Path.join path)

/-- The dumps at a path: the file itself, or all files below a folder with the extension of dumps,
in the order of paths. -/
def gather (path : Path) : Except Failure (List Path) :=
  match tree.locate path with
  | .error _ => .error (.io path.text "no such file or directory")
  | .ok (place, .folder) =>
    .ok ((((tree.filesBelow place).filter (isFound path)).map (·.foldl Path.join path)).mergeSort
      Path.notAfter)
  | .ok _ => .ok [path]

/-- Loads the dump at a path. -/
def load (path : Path) : Except Failure Program :=
  match tree.read path with
  | .error reason => .error (.io path.text reason.message)
  | .ok text => Program.ofText path.text text

/-- Analyzes the dump at a path. -/
def analyzeAtM {m : Type → Type} [Evaluation m] (settings : Settings) (includeTests : Bool)
    (path : Path) : m (Except Failure Analysis) :=
  match tree.load path with
  | .error failure => pure (.error failure)
  | .ok p => p.analyzeM settings includeTests

end FileTree

end LeastContext
