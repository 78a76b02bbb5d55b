import ChartInflation.Chart.Configuration

/-!
# Process settings

What the process as a whole is told about the renderer.  A setting that is given takes the place of
the same field of every chart configuration.
-/

set_option autoImplicit false

namespace ChartInflation

open Yaml (Value)

structure Settings where
  enabled : Bool := false
  command : String := ""
  /-- The version of the cluster, empty if charts decide. -/
  kubeVersion : String := ""
  /-- The API versions of the cluster, empty if charts decide. -/
  apiVersions : List String := []
  debug : Bool := false
deriving DecidableEq, Repr

namespace Settings

def override (s : Settings) (c : ChartConfiguration) : ChartConfiguration :=
  { c with
    kubeVersion := if s.kubeVersion.isEmpty then c.kubeVersion else some s.kubeVersion
    apiVersions := if s.apiVersions.isEmpty then c.apiVersions else s.apiVersions
    debug := s.debug || c.debug }

open Yaml in
def reader : FieldReader Settings := fun d field =>
  match field with
  | "enabled" => some fun s n => return { s with enabled := ← decodeFlag d n }
  | "command" => some fun s n => return { s with command := ← decodeText d n }
  | "kubeVersion" => some fun s n => return { s with kubeVersion := ← decodeText d n }
  | "apiVersions" => some fun s n => return { s with apiVersions := ← decodeTexts d n }
  | "debug" => some fun s n => return { s with debug := ← decodeFlag d n }
  | _ => none

def ofBytes (bytes : Bytes) : Except Yaml.Fault Settings :=
  Yaml.recordOfBytes reader {} bytes

def toValue (s : Settings) : Value :=
  .mapping [
    (.string "enabled", .bool s.enabled),
    (.string "command", .string s.command),
    (.string "kubeVersion", .string s.kubeVersion),
    (.string "apiVersions", .sequence (s.apiVersions.map .string)),
    (.string "debug", .bool s.debug)]

def print (s : Settings) : Except Yaml.Fault String :=
  s.toValue.print

end Settings

end ChartInflation
