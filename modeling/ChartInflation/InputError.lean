import ChartInflation.FileSystem
import ChartInflation.Yaml.Fault

/-!
# Errors of inputs

What can be wrong with a file, a document or a text that the user or the renderer hands in, and how
it is reported.
-/

set_option autoImplicit false

namespace ChartInflation

inductive InputError where
  | yaml (fault : Yaml.Fault)
  | file (error : FileError)
  | inaccessible (path : Path) (reason : String)
  | outsideRoot (path root : Path)
  | notAResource (index : Nat) (reason : String)
  | unknownMergePolicy (text : String) (expected : String)
deriving DecidableEq, Repr

namespace InputError

def message : InputError → String
  | .yaml fault => "Failed to parse YAML: " ++ fault.message
  | .file error => "IO error: " ++ error.message
  | .inaccessible path reason => "Cannot load '" ++ path.text ++ "': " ++ reason
  | .outsideRoot path root =>
    "Security: '" ++ path.text ++ "' is not in or below '" ++ root.text ++ "'"
  | .notAResource index reason =>
    "Invalid resource in document " ++ toString index ++ ": " ++ reason
  | .unknownMergePolicy text expected =>
    "Invalid merge policy '" ++ text ++ "': must be one of " ++ expected

end InputError

end ChartInflation
