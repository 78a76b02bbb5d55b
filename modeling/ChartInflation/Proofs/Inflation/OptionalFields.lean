import ChartInflation.Proofs.Inflation.Parameters

/-!
# Optional fields

An optional field that is written without a text counts as one that is not written.  Each of them is
read by its text only where there is one (`checked_writtenEmpty`, `assembled_writtenEmpty`), so writing
any of them empty changes nothing of what a configuration comes to (`ofConfiguration_writtenEmpty`).
-/

set_option autoImplicit false

namespace ChartInflation

inductive OptionalField where
  | version
  | repo
  | releaseName
  | namespaceName
  | nameTemplate
  | chartHome
  | configHome
  | valuesFile
  | valuesMerge
  | kubeVersion
deriving DecidableEq

/-- A field that is written as something where it was not given, if it is asked for. -/
def writtenAs {α : Type} (empty : α) (asked : Bool) : Option α → Option α
  | some value => some value
  | none => if asked then some empty else none

/-- A configuration with some of the fields that it does not give written without a text. -/
def ChartConfiguration.writtenEmpty (fields : OptionalField → Bool) (c : ChartConfiguration) :
    ChartConfiguration :=
  { c with
    version := writtenAs "" (fields .version) c.version
    repo := writtenAs "" (fields .repo) c.repo
    releaseName := writtenAs "" (fields .releaseName) c.releaseName
    namespaceName := writtenAs "" (fields .namespaceName) c.namespaceName
    nameTemplate := writtenAs "" (fields .nameTemplate) c.nameTemplate
    chartHome := writtenAs ⟨""⟩ (fields .chartHome) c.chartHome
    configHome := writtenAs ⟨""⟩ (fields .configHome) c.configHome
    valuesFile := writtenAs ⟨""⟩ (fields .valuesFile) c.valuesFile
    valuesMerge := writtenAs "" (fields .valuesMerge) c.valuesMerge
    kubeVersion := writtenAs "" (fields .kubeVersion) c.kubeVersion }

@[simp] theorem unlessEmpty_writtenAs (asked : Bool) (field : Option String) :
    unlessEmpty (writtenAs "" asked field) = unlessEmpty field := by
  cases field with
  | some value => rfl
  | none => cases asked <;> rfl

namespace Parameters

@[simp] theorem unlessEmptyPath_writtenAs (asked : Bool) (field : Option Path) :
    unlessEmptyPath (writtenAs ⟨""⟩ asked field) = unlessEmptyPath field := by
  cases field with
  | some value => rfl
  | none => cases asked <;> rfl

variable (s : Settings) (c : ChartConfiguration) (loader : Loader) (fs : FileSystem)
  (fields : OptionalField → Bool)

theorem checked_writtenEmpty : checked (c.writtenEmpty fields) loader fs = checked c loader fs := by
  simp only [checked, policyOf, ChartConfiguration.writtenEmpty, unlessEmpty_writtenAs]

theorem chartOf_writtenEmpty (root : Path) :
    chartOf (c.writtenEmpty fields) root = chartOf c root := by
  simp only [chartOf, ChartReference.of, ChartConfiguration.writtenEmpty, unlessEmpty_writtenAs,
    unlessEmptyPath_writtenAs]

theorem unlessEmpty_override_writtenEmpty :
    unlessEmpty (s.override (c.writtenEmpty fields)).kubeVersion =
      unlessEmpty (s.override c).kubeVersion := by
  simp only [Settings.override, ChartConfiguration.writtenEmpty]
  split
  · exact unlessEmpty_writtenAs _ _
  · rfl

theorem assembled_writtenEmpty (root : Path) (policy : MergePolicy) (additional : List Path) :
    assembled s.command (s.override (c.writtenEmpty fields)) root policy additional =
      assembled s.command (s.override c) root policy additional := by
  have chart : chartOf (s.override (c.writtenEmpty fields)) root = chartOf (s.override c) root :=
    chartOf_writtenEmpty c fields root
  have kube := unlessEmpty_override_writtenEmpty s c fields
  simp only [assembled, renderOf, chart, kube]
  simp only [Settings.override, ChartConfiguration.writtenEmpty, unlessEmpty_writtenAs,
    unlessEmptyPath_writtenAs]

/-- Fields that are written without a text change nothing: the configuration is refused for the same
reason as without them, or gives the same parameters. -/
theorem ofConfiguration_writtenEmpty :
    ofConfiguration s (c.writtenEmpty fields) loader fs = ofConfiguration s c loader fs := by
  rw [ofConfiguration_eq, ofConfiguration_eq, checked_writtenEmpty]
  simp only [assembled_writtenEmpty]

end Parameters

end ChartInflation
