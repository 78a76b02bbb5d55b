import ChartInflation.CommandLine.Run
import ChartInflation.Proofs.CommandLine.Arguments

/-!
# What hangs on the variables

An inflation is asked for by what the arguments give and by the variables that it looks up
(`requestOf_eq_inflate_iff`).  How it is run hangs on one variable more, that of the colours
(`runInflate_congr`).
-/

set_option autoImplicit false

namespace ChartInflation.CommandLine

namespace Environment

def unset (env : Environment) (key : String) : Environment :=
  env.filter (·.1 != key)

def AgreeBut (key : String) (env env' : Environment) : Prop :=
  ∀ other, other ≠ key → env'.lookup other = env.lookup other

theorem lookup_unset (env : Environment) (key : String) : (env.unset key).lookup key = none := by
  rw [List.lookup_eq_none_iff]
  intro entry member
  have isOther : entry.1 ≠ key := by simpa using (List.mem_filter.mp member).2
  simpa using isOther.symm

theorem agreeBut_unset (env : Environment) (key : String) : AgreeBut key env (env.unset key) := by
  intro other isOther
  induction env with
  | nil => rfl
  | cons entry rest ih =>
      obtain ⟨name, value⟩ := entry
      by_cases isKey : name = key
      · have dropped : unset ((name, value) :: rest) key = unset rest key := by
          simp [unset, isKey]
        have notHere : (other == name) = false := by simpa [isKey] using isOther
        rw [dropped, ih, List.lookup_cons, notHere]
      · have kept : unset ((name, value) :: rest) key = (name, value) :: unset rest key := by
          simp [unset, isKey]
        rw [kept, List.lookup_cons, List.lookup_cons, ih]

theorem agreeBut_set (env : Environment) (key value : String) :
    AgreeBut key ((key, value) :: env) (env.unset key) := by
  intro other isOther
  have notHere : (other == key) = false := by simpa using isOther
  rw [agreeBut_unset env key other isOther, List.lookup_cons, notHere]

end Environment

/-! ## Running -/

section Running
variable {env env' : Environment}

theorem styled_congr (agree : env'.lookup "CLICOLOR_FORCE" = env.lookup "CLICOLOR_FORCE") :
    styled env' = styled env := by
  funext codes text
  rw [styled, styled, agree]

variable (same : styled env' = styled env)
include same

theorem shownFor_congr (request : InflateRequest) (values : ValuesSource) :
    shownFor env' request values = shownFor env request values := by
  simp only [shownFor, shownValues, same]

theorem writeResources_congr (here : Location) (directory : Path) (index : Nat) (rs : Resources)
    (fs : FileSystem) (printed : String) :
    writeResources env' here directory index rs fs printed =
      writeResources env here directory index rs fs printed := by
  induction rs generalizing index fs printed with
  | nil => rfl
  | cons r rest ih => simp only [writeResources, same, ih]

theorem present_congr (m : Machine) (request : InflateRequest) (values : ValuesSource)
    (rs : Resources) (w : World) :
    present m env' request values rs w = present m env request values rs w := by
  simp only [present, deliver, shownFor_congr same, writeResources_congr same]

/-- An inflation looks up no variable but that of the colours. -/
theorem runInflate_congr (m : Machine) (request : InflateRequest) (w : World) :
    runInflate m env' request w = runInflate m env request w := by
  simp only [runInflate, present_congr same]

end Running

/-! ## Asking -/

inductive AsksInflation : Given → List String → Given → Prop where
  | command {g given : Given} {arguments : List String}
      (read : readArguments inflateGrammar false none .nothing arguments = .ok given) :
      AsksInflation g ("inflate" :: arguments) given
  | debug {g g' given : Given} {text : String} {arguments : List String}
      (shape : shapeOf text = .long "debug" none) (added : g.addFlag "debug" = .ok g')
      (more : AsksInflation g' arguments given) :
      AsksInflation g (text :: arguments) given

section Asking
variable {env : Environment} {g given : Given} {arguments : List String} {request : InflateRequest}

theorem commandRequest_eq_inflate_iff {name : String} :
    commandRequest env name arguments = .ok (.inflate request) ↔ name = "inflate" ∧
      ∃ given, readArguments inflateGrammar false none .nothing arguments = .ok given ∧
        inflateRequest given env = .ok (.inflate request) := by
  unfold commandRequest
  split
  next isInflate => simp [isInflate, Outcome.bind_eq_ok_iff]
  next other =>
    simp only [other, false_and, iff_false]
    split
    next => simp [Outcome.bind_eq_ok_iff]
    next =>
      split
      next =>
        split
        next => simp
        next => split <;> simp
        next => simp
      next => simp

theorem requestOf_eq_inflate_iff : requestOf env g arguments = .ok (.inflate request) ↔
    ∃ given, AsksInflation g arguments given ∧
      inflateRequest given env = .ok (.inflate request) := by
  constructor
  · intro accepted
    induction arguments generalizing g with
    | nil => cases accepted
    | cons text rest ih =>
        unfold requestOf at accepted
        dsimp only at accepted
        split at accepted
        next => cases accepted
        next =>
          obtain ⟨rfl, given, read, accepted⟩ := commandRequest_eq_inflate_iff.mp accepted
          exact ⟨given, .command read, accepted⟩
        next shape =>
          obtain ⟨g', added, accepted⟩ := Outcome.bind_eq_ok_iff.mp accepted
          obtain ⟨given, asks, accepted⟩ := ih accepted
          exact ⟨given, .debug shape added asks, accepted⟩
        next => cases accepted
  · rintro ⟨given, asks, accepted⟩
    induction asks with
    | command read =>
        have plain : shapeOf "inflate" = .plain := by decide
        have isCommand := commandRequest_eq_inflate_iff.mpr ⟨rfl, _, read, accepted⟩
        simp only [requestOf, plain, request?, isCommand]
    | debug shape added more ih => simp [requestOf, shape, request?, added, ih accepted]

/-- Without an option the arguments ask for an inflation as before, and give the same but for its
value. -/
theorem asksInflation_without {rule : OptionRule} {value : String}
    (known : inflateGrammar.Knows rule) (kind : rule.kind ≠ .flag) (name : rule.name ≠ "debug")
    {front spelled back : List String} (spells : Spells rule value spelled)
    (options : "--" ∉ front) (asks : AsksInflation g (front ++ spelled ++ back) given) :
    ∃ given', AsksInflation g (front ++ back) given' ∧ given'.OneMore rule value given := by
  induction front generalizing g with
  | nil =>
      -- an option of the command cannot stand in front of it
      have plain : shapeOf "inflate" = .plain := by decide
      cases spells with
      | joined shape =>
          cases asks with
          | command read => cases plain.symm.trans shape
          | debug shape' added more =>
              exact absurd (Shape.long.inj (shape.symm.trans shape')).1 name
      | apart shape =>
          cases asks with
          | command read => cases plain.symm.trans shape
          | debug shape' added more =>
              exact absurd (Shape.long.inj (shape.symm.trans shape')).1 name
  | cons text rest ih =>
      rw [List.mem_cons, not_or] at options
      cases asks with
      | command read =>
          obtain ⟨given', read', more⟩ := readArguments_without known kind spells options.2 read
          exact ⟨given', .command read', more⟩
      | debug shape added asks =>
          obtain ⟨given', asks', more⟩ := ih options.2 asks
          exact ⟨given', .debug shape added asks', more⟩

end Asking

/-! ## What is asked for -/

section Requests
variable {g g' : Given} {env env' : Environment} {name : String} {request : InflateRequest}

theorem flagOr_congr {flag key : String} (alike : g'.hasFlag flag = g.hasFlag flag)
    (agree : env'.lookup key = env.lookup key) :
    flagOr g' flag key env' = flagOr g flag key env := by
  rw [flagOr, flagOr, alike, agree]

theorem valueOr?_congr {option key : String} (alike : g'.value? option = g.value? option)
    (agree : env'.lookup key = env.lookup key) :
    valueOr? g' option key env' = valueOr? g option key env := by
  rw [valueOr?, valueOr?, alike, agree]

theorem valuesOr_congr {option key : String} (alike : g'.valuesOf option = g.valuesOf option)
    (agree : env'.lookup key = env.lookup key) :
    valuesOr g' option key env' = valuesOr g option key env := by
  rw [valuesOr, valuesOr, alike, agree]

theorem settingsOf_eq_ok_iff {s : Settings} : settingsOf g env = .ok s ↔
    flagOr g "enable-helm" "HELMGEN_ENABLE_HELM" env = .ok s.enabled ∧
    flagOr g "helm-debug" "HELMGEN_HELM_DEBUG" env = .ok s.debug ∧
    s.command = (valueOr? g "helm-command" "HELMGEN_HELM_COMMAND" env).getD "helm" ∧
    s.kubeVersion = (valueOr? g "helm-kube-version" "HELMGEN_KUBE_VERSION" env).getD "" ∧
    s.apiVersions = valuesOr g "helm-api-versions" "HELMGEN_API_VERSIONS" env := by
  simp only [settingsOf, Outcome.bind_eq_ok_iff, Outcome.pure_eq_ok, Except.ok.injEq]
  constructor
  · rintro ⟨enabled, isEnabled, debug, isDebug, rfl⟩
    exact ⟨isEnabled, isDebug, rfl, rfl, rfl⟩
  · rintro ⟨isEnabled, isDebug, command, kubeVersion, apiVersions⟩
    refine ⟨s.enabled, isEnabled, s.debug, isDebug, ?_⟩
    rw [rendererCommand, ← command, ← kubeVersion, ← apiVersions]

/-- What was given describes all of a request but its settings. -/
structure Describes (g : Given) (request : InflateRequest) : Prop where
  configuration : g.argument = some request.configuration.text
  root : request.root = (g.value? "root").map .mk
  restriction : restrictionOf g = .ok request.restriction
  outputDirectory : request.outputDirectory = (g.value? "output-dir").map .mk
  json : request.json = g.hasFlag "json"
  showValues : request.showValues = g.hasFlag "show-values"
  apart : (request.json && (g.value? "output-dir").isSome) = false

theorem inflateRequest_eq_ok_iff : inflateRequest g env = .ok (.inflate request) ↔
    settingsOf g env = .ok request.settings ∧ Describes g request := by
  simp only [inflateRequest, Outcome.bind_eq_ok_iff]
  constructor
  · rintro ⟨settings, isSettings, restriction, isRestriction, accepted⟩
    split at accepted
    next => cases accepted
    next configuration argument =>
      split at accepted
      next => cases accepted
      next apart =>
        obtain rfl := Request.inflate.inj (Except.ok.inj accepted)
        rw [Bool.not_eq_true] at apart
        exact ⟨isSettings, argument, rfl, isRestriction, rfl, rfl, rfl, apart⟩
  · rintro ⟨settings, describes⟩
    refine ⟨_, settings, _, describes.restriction, ?_⟩
    simp only [describes.configuration, ← describes.json, describes.apart, Bool.false_eq_true,
      if_false, ← describes.root, ← describes.outputDirectory, ← describes.showValues]
    rfl

theorem Describes.withSettings (describes : Describes g request) (alike : g'.AlikeBut name g)
    (ofSettings : name ∉ ["root", "load-restrictor", "output-dir"]) (s : Settings) :
    Describes g' { request with settings := s } := by
  have values {other : String} (isOther : other ≠ name) : g'.value? other = g.value? other :=
    (alike.value? isOther).symm
  simp only [List.mem_cons, List.not_mem_nil, or_false, not_or] at ofSettings
  obtain ⟨notRoot, notRestrictor, notDirectory⟩ := ofSettings
  obtain ⟨configuration, root, restriction, outputDirectory, json, showValues, apart⟩ := describes
  rw [← values (Ne.symm notRoot)] at root
  rw [← values (Ne.symm notDirectory)] at outputDirectory apart
  rw [restrictionOf, ← values (Ne.symm notRestrictor)] at restriction
  exact ⟨alike.argument.symm.trans configuration, root, restriction, outputDirectory,
    json.trans (alike.hasFlag _), showValues.trans (alike.hasFlag _), apart⟩

end Requests

end ChartInflation.CommandLine
