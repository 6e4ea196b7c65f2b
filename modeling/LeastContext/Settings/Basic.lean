import LeastContext.Failure

namespace LeastContext

/-- A name split into the path of its package and the name within it. -/
structure QualifiedName where
  path : String
  name : String
  deriving DecidableEq, Inhabited, Repr

/-- Splits a name at its last dot; both sides must hold something. -/
def QualifiedName.parse? (text : String) : Option QualifiedName :=
  let (name, path) := text.toList.reverse.span (· != '.')
  match name, path with
  | _ :: _, _ :: path@(_ :: _) =>
    some ⟨String.ofList path.reverse, String.ofList name.reverse⟩
  | _, _ => none

/-- What a configuration file may set. -/
structure Config where
  baseContext : Option String
  testFilePattern : Option String
  memoizeFunctions : Option (List String)
  keyParamFunctions : Option (List String)
  outputFormat : Option String
  deriving DecidableEq, Inhabited, Repr

/-- How the patterns of a configuration are read: the names that a pattern is found in, if the text
is one. -/
abbrev PatternReader := String → Option (String → Bool)

/-- A pattern of file names, as it is written. -/
structure NamePattern where
  source : String
  isFoundIn : String → Bool

structure Settings where
  /-- The interface that makes a type a context. -/
  baseContext : QualifiedName
  /-- Files with a matching name are left out of reports. -/
  testFiles : NamePattern
  /-- Functions that memoize the function they are given. -/
  memoizeFunctions : List String
  /-- Functions that take a function that makes cache keys. -/
  keyParamFunctions : List String

def Config.empty : Config :=
  ⟨none, none, none, none, none⟩

namespace Settings

/-- Names that end in `_test.go`. -/
def defaultTestFiles : NamePattern where
  source := "_test\\.go$"
  isFoundIn name := "_test.go".toList.isSuffixOf name.toList

def default : Settings :=
  { baseContext := ⟨"context", "Context"⟩
    testFiles := defaultTestFiles
    memoizeFunctions := ["github.com/Khan/webapp/pkg/lib/cache.Cache"]
    keyParamFunctions := ["github.com/Khan/webapp/pkg/lib/cache.KeyParamsFxn"] }

/-- Applies a configuration over the defaults; its source only labels failures. -/
def ofConfig (read : PatternReader) (config : Config) (source : String) :
    Except Failure Settings := do
  let baseContext ←
    match config.baseContext with
    | none => pure default.baseContext
    | some name =>
      match QualifiedName.parse? name with
      | some base => pure base
      | none => throw (.config source s!"base_context `{name}` is not of the form path.Name")
  let testFiles ←
    match config.testFilePattern with
    | none => pure default.testFiles
    | some pattern =>
      match read pattern with
      | some isFoundIn => pure ⟨pattern, isFoundIn⟩
      | none => throw (.config source "invalid test_file_pattern")
  return {
    baseContext, testFiles
    memoizeFunctions := config.memoizeFunctions.getD default.memoizeFunctions
    keyParamFunctions := config.keyParamFunctions.getD default.keyParamFunctions }

def isTestFile (settings : Settings) (name : String) : Bool :=
  settings.testFiles.isFoundIn name

end Settings

end LeastContext
