import ChartInflation.Inflation.Parameters
import ChartInflation.Proofs.Outcome

/-!
# What parameters are put together from

The settings are checked first and then the configuration, whose check they have no part in.  What is
accepted is put together from the configuration's fields, as the settings leave them
(`ofConfiguration_eq`).
-/

set_option autoImplicit false

namespace ChartInflation.Parameters

def chartOf (c : ChartConfiguration) (root : Path) : ChartReference :=
  .of c.name c.version c.repo ((unlessEmptyPath c.chartHome).getD standardChartHome) root

def renderOf (c : ChartConfiguration) : RenderOptions where
  releaseName := unlessEmpty c.releaseName
  namespaceName := unlessEmpty c.namespaceName
  nameTemplate := unlessEmpty c.nameTemplate
  includeCRDs := c.includeCRDs
  skipHooks := c.skipHooks
  skipTests := c.skipTests
  apiVersions := c.apiVersions
  kubeVersion := unlessEmpty c.kubeVersion
  debug := c.debug

def assembled (command : String) (c : ChartConfiguration) (root : Path) (policy : MergePolicy)
    (additional : List Path) : Parameters where
  command := command
  chart := chartOf c root
  values := {
    file := (unlessEmptyPath c.valuesFile).getD (chartOf c root).defaultValuesFile
    additionalFiles := additional
    inline := c.valuesInline
    policy := policy }
  render := renderOf c
  configHome := unlessEmptyPath c.configHome

def checked (c : ChartConfiguration) (loader : Loader) (fs : FileSystem) :
    Except InflationError (MergePolicy × List Path) := do
  if onlyBlanks c.name then throw (.invalid "chart name cannot be empty")
  let policy ← policyOf c.valuesMerge
  return (policy, ← additionalFiles loader fs c.additionalValuesFiles)

variable {s : Settings} {c : ChartConfiguration} {loader : Loader} {fs : FileSystem}
  {p : Parameters}

theorem ofConfiguration_eq (s : Settings) (c : ChartConfiguration) (loader : Loader)
    (fs : FileSystem) : ofConfiguration s c loader fs = do
      checkSettings s
      let found ← checked c loader fs
      return assembled s.command (s.override c) loader.root found.1 found.2 := by
  unfold ofConfiguration checked
  cases checkSettings s with
  | error e => rfl
  | ok _ =>
      simp only [Outcome.ok_bind]
      by_cases blank : onlyBlanks c.name
      · have name : onlyBlanks (s.override c).name := blank
        rw [if_pos name, if_pos blank]
        rfl
      · have name : ¬ onlyBlanks (s.override c).name := blank
        rw [if_neg name, if_neg blank]
        have policies : (s.override c).valuesMerge = c.valuesMerge := rfl
        have files : (s.override c).additionalValuesFiles = c.additionalValuesFiles := rfl
        rw [policies, files]
        cases policyOf c.valuesMerge with
        | error e => rfl
        | ok policy =>
            cases additionalFiles loader fs c.additionalValuesFiles with
            | error e => rfl
            | ok additional => rfl

theorem ofConfiguration_eq_ok_iff : ofConfiguration s c loader fs = .ok p ↔
    checkSettings s = .ok () ∧ ∃ policy additional, checked c loader fs = .ok (policy, additional) ∧
      p = assembled s.command (s.override c) loader.root policy additional := by
  rw [ofConfiguration_eq]
  simp only [Outcome.bind_eq_ok_iff, Outcome.pure_eq_ok, Except.ok.injEq, Prod.exists]
  constructor
  · rintro ⟨_, allowed, policy, additional, inOrder, rfl⟩
    exact ⟨allowed, policy, additional, inOrder, rfl⟩
  · rintro ⟨allowed, policy, additional, inOrder, rfl⟩
    exact ⟨(), allowed, policy, additional, inOrder, rfl⟩

end ChartInflation.Parameters
