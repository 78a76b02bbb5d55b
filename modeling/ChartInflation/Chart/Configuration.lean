import ChartInflation.Path
import ChartInflation.Yaml.Printer
import ChartInflation.Yaml.Record

/-!
# Chart configurations

What the user writes about one chart: which chart it is, where its values come from and how it is
rendered.
-/

set_option autoImplicit false

namespace ChartInflation

open Yaml (Value)

structure ChartConfiguration where
  name : String := ""
  version : Option String := none
  repo : Option String := none
  releaseName : Option String := none
  namespaceName : Option String := none
  nameTemplate : Option String := none
  chartHome : Option Path := none
  /-- The directory of the renderer's own settings. -/
  configHome : Option Path := none
  valuesFile : Option Path := none
  /-- Further values files, which the renderer reads after the effective values. -/
  additionalValuesFiles : List Path := []
  valuesInline : Value := .null
  valuesMerge : Option String := none
  includeCRDs : Bool := false
  skipHooks : Bool := false
  skipTests : Bool := false
  apiVersions : List String := []
  kubeVersion : Option String := none
  debug : Bool := false

namespace ChartConfiguration

open Yaml in
def reader : FieldReader ChartConfiguration := fun d field =>
  match field with
  | "name" => some fun c n => return { c with name := ← decodeText d n }
  | "version" => some fun c n => return { c with version := ← decodeOptionalText d n }
  | "repo" => some fun c n => return { c with repo := ← decodeOptionalText d n }
  | "releaseName" => some fun c n => return { c with releaseName := ← decodeOptionalText d n }
  | "namespace" => some fun c n => return { c with namespaceName := ← decodeOptionalText d n }
  | "nameTemplate" => some fun c n => return { c with nameTemplate := ← decodeOptionalText d n }
  | "chartHome" =>
    some fun c n => return { c with chartHome := (← decodeOptionalText d n).map .mk }
  | "configHome" =>
    some fun c n => return { c with configHome := (← decodeOptionalText d n).map .mk }
  | "valuesFile" =>
    some fun c n => return { c with valuesFile := (← decodeOptionalText d n).map .mk }
  | "additionalValuesFiles" =>
    some fun c n => return { c with additionalValuesFiles := (← decodeTexts d n).map .mk }
  | "valuesInline" => some fun c n => return { c with valuesInline := ← decodeInner d n }
  | "valuesMerge" => some fun c n => return { c with valuesMerge := ← decodeOptionalText d n }
  | "includeCRDs" => some fun c n => return { c with includeCRDs := ← decodeFlag d n }
  | "skipHooks" => some fun c n => return { c with skipHooks := ← decodeFlag d n }
  | "skipTests" => some fun c n => return { c with skipTests := ← decodeFlag d n }
  | "apiVersions" => some fun c n => return { c with apiVersions := ← decodeTexts d n }
  | "kubeVersion" => some fun c n => return { c with kubeVersion := ← decodeOptionalText d n }
  | "debug" => some fun c n => return { c with debug := ← decodeFlag d n }
  | _ => none

def ofBytes (bytes : Bytes) : Except Yaml.Fault ChartConfiguration :=
  Yaml.recordOfBytes reader {} bytes

def optional : Option String → Value
  | some s => .string s
  | none => .null

def optionalPath (p : Option Path) : Value :=
  optional (p.map (·.text))

/-- The mapping that a configuration is written as, with all its fields. -/
def toValue (c : ChartConfiguration) : Value :=
  .mapping [
    (.string "name", .string c.name),
    (.string "version", optional c.version),
    (.string "repo", optional c.repo),
    (.string "releaseName", optional c.releaseName),
    (.string "namespace", optional c.namespaceName),
    (.string "nameTemplate", optional c.nameTemplate),
    (.string "chartHome", optionalPath c.chartHome),
    (.string "configHome", optionalPath c.configHome),
    (.string "valuesFile", optionalPath c.valuesFile),
    (.string "additionalValuesFiles",
      .sequence (c.additionalValuesFiles.map fun p => .string p.text)),
    (.string "valuesInline", c.valuesInline),
    (.string "valuesMerge", optional c.valuesMerge),
    (.string "includeCRDs", .bool c.includeCRDs),
    (.string "skipHooks", .bool c.skipHooks),
    (.string "skipTests", .bool c.skipTests),
    (.string "apiVersions", .sequence (c.apiVersions.map .string)),
    (.string "kubeVersion", optional c.kubeVersion),
    (.string "debug", .bool c.debug)]

def print (c : ChartConfiguration) : Except Yaml.Fault String :=
  c.toValue.print

end ChartConfiguration

end ChartInflation
