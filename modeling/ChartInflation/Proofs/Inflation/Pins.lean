import ChartInflation.Proofs.Inflation.Arguments
import ChartInflation.Proofs.Inflation.Parameters
import ChartInflation.Proofs.Inflation.Positionals

/-!
# What settings pin

Process settings may pin the version of the cluster, its API versions and debug output.  What they pin
is rendered, whatever a configuration has in its place; what they do not pin comes from the
configuration; and nothing else of the parameters, nor whether there are any, hangs on it
(`settings_decide_pins`).
-/

set_option autoImplicit false

namespace ChartInflation

structure Pins where
  kubeVersion : Option String
  apiVersions : List String
  debug : Bool

def RenderOptions.pins (r : RenderOptions) : Pins :=
  ⟨r.kubeVersion, r.apiVersions, r.debug⟩

def Rendering.pins (r : Rendering) : Pins :=
  ⟨r.kubeVersion, r.apiVersions, r.debug⟩

/-- The fields as settings pin them; the others are those of the configuration. -/
def Settings.pins (s : Settings) (c : ChartConfiguration) : Pins where
  kubeVersion := if s.kubeVersion = "" then unlessEmpty c.kubeVersion else some s.kubeVersion
  apiVersions := if s.apiVersions = [] then c.apiVersions else s.apiVersions
  debug := if s.debug then true else c.debug

def ChartConfiguration.unpinned (c : ChartConfiguration) : ChartConfiguration :=
  { c with kubeVersion := none, apiVersions := [], debug := false }

def Parameters.unpinned (p : Parameters) : Parameters :=
  { p with render := { p.render with kubeVersion := none, apiVersions := [], debug := false } }

/-- Two configurations differ at most in fields that the settings pin. -/
structure Settings.Hides (s : Settings) (c c' : ChartConfiguration) : Prop where
  kubeVersion : s.kubeVersion = "" → c.kubeVersion = c'.kubeVersion
  apiVersions : s.apiVersions = [] → c.apiVersions = c'.apiVersions
  debug : s.debug = false → c.debug = c'.debug
  unpinned : c.unpinned = c'.unpinned

namespace Settings

variable {s : Settings} {c c' : ChartConfiguration}

theorem override_eq (s : Settings) (c : ChartConfiguration) : s.override c =
    { c.unpinned with
      kubeVersion := if s.kubeVersion = "" then c.kubeVersion else some s.kubeVersion
      apiVersions := if s.apiVersions = [] then c.apiVersions else s.apiVersions
      debug := s.debug || c.debug } := by
  simp only [override, ChartConfiguration.unpinned, String.isEmpty_iff, List.isEmpty_iff]

theorem override_congr (hidden : s.Hides c c') : s.override c = s.override c' := by
  have kube : (if s.kubeVersion = "" then c.kubeVersion else some s.kubeVersion) =
      if s.kubeVersion = "" then c'.kubeVersion else some s.kubeVersion := by
    split
    next free => exact hidden.kubeVersion free
    next => rfl
  have versions : (if s.apiVersions = [] then c.apiVersions else s.apiVersions) =
      if s.apiVersions = [] then c'.apiVersions else s.apiVersions := by
    split
    next free => exact hidden.apiVersions free
    next => rfl
  have debug : (s.debug || c.debug) = (s.debug || c'.debug) := by
    cases free : s.debug with
    | true => rfl
    | false => exact hidden.debug free
  rw [override_eq, override_eq, hidden.unpinned, kube, versions, debug]

theorem pins_renderOf (s : Settings) (c : ChartConfiguration) :
    (Parameters.renderOf (s.override c)).pins = s.pins c := by
  have kube : unlessEmpty (if s.kubeVersion = "" then c.kubeVersion else some s.kubeVersion) =
      if s.kubeVersion = "" then unlessEmpty c.kubeVersion else some s.kubeVersion := by
    split
    next => rfl
    next pinned => simp [unlessEmpty, Option.filter, pinned]
  have debug : (s.debug || c.debug) = if s.debug then true else c.debug := by
    cases s.debug <;> rfl
  rw [override_eq, pins, ← kube, ← debug]
  rfl

end Settings

namespace Parameters

variable {s : Settings} {c c' : ChartConfiguration} {loader : Loader} {fs : FileSystem}
  {p : Parameters}

theorem checked_congr (same : c.unpinned = c'.unpinned) (loader : Loader) (fs : FileSystem) :
    checked c loader fs = checked c' loader fs := by
  have blind : ∀ c : ChartConfiguration, checked c.unpinned loader fs = checked c loader fs :=
    fun _ => rfl
  rw [← blind c, same, blind c']

/-- The settings give the command; they change nothing else that they do not pin. -/
theorem unpinned_assembled (s : Settings) (c : ChartConfiguration) (command : String) (root : Path)
    (policy : MergePolicy) (additional : List Path) :
    (assembled command (s.override c) root policy additional).unpinned =
      assembled command c.unpinned root policy additional :=
  rfl

/-- What may be pinned stands in its places between the other arguments. -/
theorem exists_templateArguments (p : Parameters) (file : Path) : ∃ front back,
    templateArguments p.unpinned file = front ++ back ∧
      templateArguments p file = front ++ options "--api-versions" p.render.pins.apiVersions ++
        option "--kube-version" p.render.pins.kubeVersion ++ back ++
        flag "--debug" p.render.pins.debug := by
  refine ⟨["template", p.render.releaseName.getD "--generate-name", p.chart.directory.text] ++
    option "--namespace" p.render.namespaceName ++ option "--name-template" p.render.nameTemplate ++
    ["-f", file.text] ++ options "-f" (p.values.additionalFiles.map (·.text)),
    flag "--include-crds" p.render.includeCRDs ++ flag "--skip-tests" p.render.skipTests ++
    flag "--no-hooks" p.render.skipHooks, ?_, ?_⟩
  · have versions : options "--api-versions" [] = [] := rfl
    have kube : option "--kube-version" none = [] := rfl
    have debug : flag "--debug" false = [] := rfl
    simp [templateArguments, unpinned, versions, kube, debug]
  · simp [templateArguments, RenderOptions.pins]

/-- Settings decide what they pin and nothing else.  Configurations that differ in it only come to the
same, it is what is rendered, and without it the parameters, or the reason to refuse them, are the same
under all settings of one command. -/
theorem settings_decide_pins (s : Settings) (c : ChartConfiguration) (loader : Loader)
    (fs : FileSystem) :
    (∀ c', s.Hides c c' → ofConfiguration s c' loader fs = ofConfiguration s c loader fs) ∧
    (∀ p, ofConfiguration s c loader fs = .ok p →
      p.render.pins = s.pins c ∧
      (∃ policy additional, checked c loader fs = .ok (policy, additional) ∧
        p.unpinned = assembled s.command c.unpinned loader.root policy additional) ∧
      ∀ file,
        (Rendering.ofArguments (templateArguments p file)).map (·.pins) = some (s.pins c) ∧
        ∃ front back, templateArguments p.unpinned file = front ++ back ∧
          templateArguments p file = front ++ options "--api-versions" (s.pins c).apiVersions ++
            option "--kube-version" (s.pins c).kubeVersion ++ back ++
            flag "--debug" (s.pins c).debug) ∧
    (∀ s' : Settings, s'.enabled = s.enabled → s'.command = s.command →
      (ofConfiguration s' c loader fs).map unpinned =
        (ofConfiguration s c loader fs).map unpinned) := by
  refine ⟨fun c' hidden => ?_, fun p accepted => ?_, fun s' enabled command => ?_⟩
  · rw [ofConfiguration_eq, ofConfiguration_eq, checked_congr hidden.unpinned,
      Settings.override_congr hidden]
  · obtain ⟨_, policy, additional, inOrder, rfl⟩ := ofConfiguration_eq_ok_iff.mp accepted
    have pins := s.pins_renderOf c
    have unpinned := unpinned_assembled s c s.command loader.root policy additional
    refine ⟨pins, ⟨policy, additional, inOrder, unpinned⟩, fun file => ⟨?_, ?_⟩⟩
    · rw [ofArguments_eq, ← pins]
      rfl
    · rw [← pins]
      exact exists_templateArguments _ file
  · have settings : checkSettings s' = checkSettings s := by
      rw [checkSettings, checkSettings, enabled, command]
    rw [ofConfiguration_eq, ofConfiguration_eq, settings, command]
    cases checkSettings s with
    | error e => rfl
    | ok _ =>
        cases checked c loader fs with
        | error e => rfl
        | ok found => rfl

def pinningSettings : Settings :=
  { permissive with kubeVersion := "1.30", debug := true }

def wishfulChart : ChartConfiguration :=
  { name := "web", kubeVersion := some "1.20", apiVersions := ["batch/v1"] }

theorem settings_decide_pins_in_part :
    ∃ p q, ofConfiguration pinningSettings wishfulChart workLoader .empty = .ok p ∧
      pinningSettings.Hides wishfulChart { wishfulChart with kubeVersion := none, debug := true } ∧
      ofConfiguration pinningSettings { wishfulChart with kubeVersion := none, debug := true }
        workLoader .empty = .ok p ∧
      p.render.pins = ⟨some "1.30", ["batch/v1"], true⟩ ∧
      ofConfiguration { permissive with apiVersions := ["apps/v1"] } wishfulChart workLoader .empty =
        .ok q ∧
      q.render.pins = ⟨some "1.20", ["apps/v1"], false⟩ ∧ q.unpinned = p.unpinned := by
  have evaluated : (ofConfiguration pinningSettings wishfulChart workLoader .empty).toOption.map
      (·.command) = some "helm" := by decide +kernel
  have evaluated' : (ofConfiguration { permissive with apiVersions := ["apps/v1"] } wishfulChart
      workLoader .empty).toOption.map (·.command) = some "helm" := by decide +kernel
  obtain ⟨p, accepted, _⟩ := Outcome.exists_ok_of_toOption evaluated
  obtain ⟨q, accepted', _⟩ := Outcome.exists_ok_of_toOption evaluated'
  have hidden : pinningSettings.Hides wishfulChart
      { wishfulChart with kubeVersion := none, debug := true } :=
    ⟨fun free => absurd free (by decide), fun _ => rfl, fun free => absurd free (by decide), rfl⟩
  obtain ⟨same, pins, rest⟩ := settings_decide_pins pinningSettings wishfulChart workLoader .empty
  obtain ⟨_, pins', _⟩ := settings_decide_pins { permissive with apiVersions := ["apps/v1"] }
    wishfulChart workLoader .empty
  have unpinned := rest { permissive with apiVersions := ["apps/v1"] } rfl rfl
  rw [accepted, accepted'] at unpinned
  refine ⟨p, q, accepted, hidden, (same _ hidden).trans accepted, (pins p accepted).1, accepted',
    (pins' q accepted').1, Except.ok.inj unpinned⟩

end Parameters

end ChartInflation
