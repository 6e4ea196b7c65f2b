import LeastContext.Settings.Basic
import LeastContext.Toml.Reader

namespace LeastContext

namespace Toml

def asText? : Value → Option String
  | .text value => some value
  | _ => none

def asTexts? : Value → Option (List String)
  | .array items => items.mapM asText?
  | _ => none

/-- The value under a key: absent, of the right type, or wrong. -/
def get? (decode : Value → Option α) (key : String) (fields : Fields) : Option (Option α) :=
  match fields.lookup key with
  | none => some none
  | some value => (decode value).map some

/-- The output format of an output table, which may also be written as a list of its fields. A date
passes for a table without known fields. -/
def outputFormat? : Value → Option (Option String)
  | .table _ fields => get? asText? "format" fields
  | .dateTime _ => some none
  | .array (format :: _) => (asText? format).map some
  | _ => none

end Toml

namespace Config

/-- Unknown keys are passed over; a known key must hold a value of its type. -/
def ofToml? (text : String) : Option Config := do
  let fields ← Toml.parse? text
  return {
    baseContext := ← Toml.get? Toml.asText? "base_context" fields
    testFilePattern := ← Toml.get? Toml.asText? "test_file_pattern" fields
    memoizeFunctions := ← Toml.get? Toml.asTexts? "memoize_functions" fields
    keyParamFunctions := ← Toml.get? Toml.asTexts? "key_param_functions" fields
    outputFormat := (← Toml.get? Toml.outputFormat? "output" fields).join }

/-- Whether reports are asked for as JSON; the case of the word does not matter. -/
def wantsJson (config : Config) : Bool :=
  match config.outputFormat with
  | some format => format.toLower == "json"
  | none => false

end Config

end LeastContext
