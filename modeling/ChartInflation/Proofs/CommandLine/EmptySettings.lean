import ChartInflation.Proofs.CommandLine.ExitCodes
import ChartInflation.Proofs.CommandLine.Variables
import ChartInflation.Proofs.Inflation.ApiVersions

/-!
# Settings that are given as empty texts

A version of the cluster that is given as an empty text is as good as none.  API versions are not:
an empty text is one that is given, takes the place of the configuration's own and is handed to the
renderer (`empty_settings`).
-/

set_option autoImplicit false

namespace ChartInflation.CommandLine

/-- A setting that takes the place of a field of a configuration unless it is left open. -/
inductive OpenSetting where
  | kubeVersion
  | apiVersions

namespace OpenSetting

def rule : OpenSetting → OptionRule
  | .kubeVersion => ⟨"helm-kube-version", .single, anything⟩
  | .apiVersions => ⟨"helm-api-versions", .many, anything⟩

def key : OpenSetting → String
  | .kubeVersion => "HELMGEN_KUBE_VERSION"
  | .apiVersions => "HELMGEN_API_VERSIONS"

end OpenSetting

/-- The variables and the arguments of a command in which a setting is given as an empty text, and
those of the same command without it.  Behind two dashes alone nothing is an option. -/
inductive GivenEmpty (setting : OpenSetting) :
    Environment → List String → Environment → List String → Prop where
  | byVariable (env : Environment) (arguments : List String) :
      GivenEmpty setting ((setting.key, "") :: env) arguments (env.unset setting.key) arguments
  | byOption (env : Environment) {front spelled back : List String} (options : "--" ∉ front)
      (spells : Spells setting.rule "" spelled) :
      GivenEmpty setting env (front ++ spelled ++ back) (env.unset setting.key) (front ++ back)

def InflateRequest.withVersions (request : InflateRequest) (versions : List String) :
    InflateRequest :=
  { request with settings := request.settings.withVersions versions }

/-- What is given in the two cases: the same arguments and an empty variable, or an empty value more
than without it. -/
def EmptyIn (setting : OpenSetting) (env : Environment) (given given' : Given) : Prop :=
  (given' = given ∧ env.lookup setting.key = some "") ∨ given'.OneMore setting.rule "" given

section Settings
variable {setting : OpenSetting} {env env' : Environment} {arguments arguments' : List String}
  {given given' : Given} {request : InflateRequest}

theorem GivenEmpty.agree (empty : GivenEmpty setting env arguments env' arguments') :
    env.AgreeBut setting.key env' := by
  cases empty with
  | byVariable env arguments => exact Environment.agreeBut_set env setting.key ""
  | byOption env options spells => exact Environment.agreeBut_unset env setting.key

theorem GivenEmpty.unset (empty : GivenEmpty setting env arguments env' arguments') :
    env'.lookup setting.key = none := by
  cases empty with
  | byVariable env arguments => exact Environment.lookup_unset env setting.key
  | byOption env options spells => exact Environment.lookup_unset env setting.key

theorem GivenEmpty.colours (empty : GivenEmpty setting env arguments env' arguments') :
    env'.lookup "CLICOLOR_FORCE" = env.lookup "CLICOLOR_FORCE" :=
  empty.agree _ (by cases setting <;> decide)

/-- Without the setting the command still asks for an inflation, and is given the same but for the
setting. -/
theorem exists_given_without (empty : GivenEmpty setting env arguments env' arguments')
    (accepted : requestOf env .nothing arguments = .ok (.inflate request)) :
    ∃ given given', inflateRequest given env = .ok (.inflate request) ∧
      (∀ request', inflateRequest given' env' = .ok (.inflate request') →
        requestOf env' .nothing arguments' = .ok (.inflate request')) ∧
      EmptyIn setting env given given' := by
  obtain ⟨given, asks, fromGiven⟩ := requestOf_eq_inflate_iff.mp accepted
  cases empty with
  | byVariable env arguments =>
      refine ⟨given, given, fromGiven, fun request' accepted' => ?_, .inl ⟨rfl, ?_⟩⟩
      · exact requestOf_eq_inflate_iff.mpr ⟨given, asks, accepted'⟩
      · exact List.lookup_cons_self
  | byOption env options spells =>
      have known : inflateGrammar.Knows setting.rule := by
        cases setting <;> rfl
      have kind : setting.rule.kind ≠ .flag := by
        cases setting <;> decide
      have name : setting.rule.name ≠ "debug" := by
        cases setting <;> decide
      obtain ⟨given', asks', more⟩ := asksInflation_without known kind name spells options asks
      refine ⟨given, given', fromGiven, fun request' accepted' => ?_, .inr more⟩
      exact requestOf_eq_inflate_iff.mpr ⟨given', asks', accepted'⟩

theorem EmptyIn.alike (empty : EmptyIn setting env given given') :
    given'.AlikeBut setting.rule.name given := by
  rcases empty with ⟨rfl, _⟩ | more
  · exact ⟨rfl, rfl, fun _ _ => rfl⟩
  · exact more.toAlikeBut

/-- Nothing of a request but the two settings hangs on whether one of them is given. -/
theorem inflateRequest_without (alike : given'.AlikeBut setting.rule.name given)
    (agree : env.AgreeBut setting.key env')
    (accepted : inflateRequest given env = .ok (.inflate request)) :
    inflateRequest given' env' = .ok (.inflate { request with
      settings := { request.settings with
        kubeVersion := (valueOr? given' "helm-kube-version" "HELMGEN_KUBE_VERSION" env').getD ""
        apiVersions := valuesOr given' "helm-api-versions" "HELMGEN_API_VERSIONS" env' } }) := by
  obtain ⟨settings, describes⟩ := inflateRequest_eq_ok_iff.mp accepted
  obtain ⟨enabled, debug, command, _, _⟩ := settingsOf_eq_ok_iff.mp settings
  have isFlag (flag : String) : given'.hasFlag flag = given.hasFlag flag :=
    (alike.hasFlag flag).symm
  have isCommand : given'.value? "helm-command" = given.value? "helm-command" :=
    (alike.value? (by cases setting <;> decide)).symm
  rw [← flagOr_congr (isFlag _) (agree _ (by cases setting <;> decide))] at enabled debug
  rw [← valueOr?_congr isCommand (agree _ (by cases setting <;> decide))] at command
  refine inflateRequest_eq_ok_iff.mpr ⟨settingsOf_eq_ok_iff.mpr ⟨enabled, debug, command, rfl, rfl⟩,
    describes.withSettings alike (by cases setting <;> decide) _⟩

theorem kubeVersion_without (unset : env'.lookup "HELMGEN_KUBE_VERSION" = none)
    (empty : EmptyIn .kubeVersion env given given') :
    (valueOr? given' "helm-kube-version" "HELMGEN_KUBE_VERSION" env').getD "" =
      (valueOr? given "helm-kube-version" "HELMGEN_KUBE_VERSION" env).getD "" := by
  rcases empty with ⟨rfl, isEmpty⟩ | more
  · rw [OpenSetting.key] at isEmpty
    rw [valueOr?, valueOr?, unset, isEmpty]
    cases given'.value? "helm-kube-version" <;> rfl
  · obtain ⟨before, after, own, own', alone⟩ := more.own
    obtain ⟨rfl, rfl⟩ := alone (by decide)
    have without : given'.value? "helm-kube-version" = none := congrArg List.head? own
    have isEmpty : given.value? "helm-kube-version" = some "" := congrArg List.head? own'
    rw [valueOr?, valueOr?, without, unset, isEmpty]
    rfl

theorem valuesOr_of_none {name key : String} (unset : env.lookup key = none) :
    valuesOr given name key env = (given.valuesOf name).flatMap (piecesOf ',') := by
  unfold valuesOr
  split <;> simp_all

theorem valuesOr_of_given {name key : String} (isGiven : given.valuesOf name ≠ []) :
    valuesOr given name key env = (given.valuesOf name).flatMap (piecesOf ',') := by
  unfold valuesOr
  split <;> simp_all

theorem apiVersions_without (unset : env'.lookup "HELMGEN_API_VERSIONS" = none)
    (empty : EmptyIn .apiVersions env given given') :
    let versions := valuesOr given "helm-api-versions" "HELMGEN_API_VERSIONS" env
    let versions' := valuesOr given' "helm-api-versions" "HELMGEN_API_VERSIONS" env'
    versions' = versions ∨
      ∃ before after, versions = before ++ "" :: after ∧ versions' = before ++ after := by
  rcases empty with ⟨rfl, isEmpty⟩ | more
  · by_cases isGiven : given'.valuesOf "helm-api-versions" = []
    · right
      refine ⟨[], [], ?_, ?_⟩
      · rw [OpenSetting.key] at isEmpty
        rw [valuesOr, isGiven, isEmpty]
        rfl
      · rw [valuesOr, isGiven, unset]
        rfl
    · left
      rw [valuesOr_of_given isGiven, valuesOr_of_given isGiven]
  · right
    obtain ⟨before, after, own, own', _⟩ := more.own
    change given'.valuesOf "helm-api-versions" = _ at own
    change given.valuesOf "helm-api-versions" = _ at own'
    have isGiven : given.valuesOf "helm-api-versions" ≠ [] := by
      intro isNil
      exact absurd (own'.symm.trans isNil) (by simp)
    refine ⟨before.flatMap (piecesOf ','), after.flatMap (piecesOf ','), ?_, ?_⟩
    · have piece : piecesOf ',' "" = [""] := rfl
      rw [valuesOr_of_given isGiven, own', List.flatMap_append, List.flatMap_cons, piece,
        List.singleton_append]
    · rw [valuesOr_of_none unset, own, List.flatMap_append]

theorem requestOf_without_kubeVersion
    (empty : GivenEmpty .kubeVersion env arguments env' arguments')
    (accepted : requestOf env .nothing arguments = .ok (.inflate request)) :
    requestOf env' .nothing arguments' = .ok (.inflate request) := by
  obtain ⟨given, given', fromGiven, without, isEmpty⟩ := exists_given_without empty accepted
  have fromGiven' := inflateRequest_without isEmpty.alike empty.agree fromGiven
  obtain ⟨_, _, _, kubeVersion, apiVersions⟩ :=
    settingsOf_eq_ok_iff.mp (inflateRequest_eq_ok_iff.mp fromGiven).1
  have same : valuesOr given' "helm-api-versions" "HELMGEN_API_VERSIONS" env' =
      valuesOr given "helm-api-versions" "HELMGEN_API_VERSIONS" env :=
    valuesOr_congr (isEmpty.alike.others _ (by decide)).symm (empty.agree _ (by decide))
  rw [kubeVersion_without empty.unset isEmpty, ← kubeVersion, same, ← apiVersions] at fromGiven'
  exact without _ fromGiven'

/-- A command in which API versions are an empty text asks for one version more than without it,
unless its option takes the place of its variable. -/
theorem requestOf_without_apiVersions
    (empty : GivenEmpty .apiVersions env arguments env' arguments')
    (accepted : requestOf env .nothing arguments = .ok (.inflate request)) :
    requestOf env' .nothing arguments' = .ok (.inflate request) ∨
      ∃ before after, request.settings.apiVersions = before ++ "" :: after ∧
        requestOf env' .nothing arguments' =
          .ok (.inflate (request.withVersions (before ++ after))) := by
  obtain ⟨given, given', fromGiven, without, isEmpty⟩ := exists_given_without empty accepted
  have fromGiven' := inflateRequest_without isEmpty.alike empty.agree fromGiven
  obtain ⟨_, _, _, kubeVersion, apiVersions⟩ :=
    settingsOf_eq_ok_iff.mp (inflateRequest_eq_ok_iff.mp fromGiven).1
  have same : valueOr? given' "helm-kube-version" "HELMGEN_KUBE_VERSION" env' =
      valueOr? given "helm-kube-version" "HELMGEN_KUBE_VERSION" env :=
    valueOr?_congr (isEmpty.alike.value? (by decide)).symm (empty.agree _ (by decide))
  rw [same, ← kubeVersion] at fromGiven'
  rcases apiVersions_without empty.unset isEmpty with left | ⟨before, after, isFull, isLeft⟩
  · rw [left, ← apiVersions] at fromGiven'
    exact .inl (without _ fromGiven')
  · rw [isLeft] at fromGiven'
    exact .inr ⟨before, after, apiVersions.trans isFull, without _ fromGiven'⟩

end Settings

/-! ## How the chart is rendered -/

def Renders (m : Machine) (request : InflateRequest) (w : World) (c : ChartConfiguration)
    (p : Parameters) (scratch file : Path) (made : List Call) : Prop :=
  ∃ configuration loader w₄, Opened m request w configuration loader ∧
    ChartConfiguration.ofBytes configuration = .ok c ∧
    Parameters.resolve request.settings configuration loader w.files = .ok p ∧
    Inflation.Prepared m loader (.new p) w scratch file made w₄

def rendering (p : Parameters) (scratch file : Path) (versions : List String) : List Call :=
  Renderer.sent (Inflation.renderCall (.new (p.withVersions versions)) scratch file)

section Rendering
variable {m : Machine} (env : Environment) {request : InflateRequest} {w w' : World}
  {configuration : Bytes} {loader : Loader} {p : Parameters} {i : Inflation}

def finish (m : Machine) (env : Environment) (request : InflateRequest) (i : Inflation)
    (w : World) : Ending × World :=
  match i.result with
  | .error e => (.failure (.inflation e) "", w)
  | .ok resources => present m env request i.parameters.values resources w

theorem runInflate_of_generate (opened : Opened m request w configuration loader)
    (resolved : Parameters.resolve request.settings configuration loader w.files = .ok p)
    (ran : (Inflation.new p).generate m loader w = (i, w')) :
    runInflate m env request w = finish m env request i w' := by
  obtain ⟨isRead, isOpened⟩ := opened
  rw [Read] at isRead
  cases ended : i.result <;>
    simp only [runInflate, isRead, isOpened, resolved, ran, finish, ended]

theorem runInflate_of_refused {e : InflationError}
    (opened : Opened m request w configuration loader)
    (refused : Parameters.resolve request.settings configuration loader w.files = .error e) :
    runInflate m env request w = (.failure (.inflation e) "", w) := by
  obtain ⟨isRead, isOpened⟩ := opened
  rw [Read] at isRead
  simp only [runInflate, isRead, isOpened, refused]

theorem calls_finish : (finish m env request i w).2.calls = w.calls := by
  unfold finish present
  cases i.result with
  | error e => rfl
  | ok rs =>
      dsimp only
      split <;> rfl

/-- The call that renders has the API versions of the settings, or else of the configuration. -/
theorem calls_of_renders {c : ChartConfiguration} {scratch file : Path} {made : List Call}
    (renders : Renders m request w c p scratch file made) (versions : List String) :
    (runInflate m env (request.withVersions versions) w).2.calls = w.calls ++ made ++
      rendering p scratch file (if versions = [] then c.apiVersions else versions) := by
  obtain ⟨configuration, loader, w₄, opened, isRead, resolved, prepared⟩ := renders
  have opened' : Opened m (request.withVersions versions) w configuration loader := opened
  have resolved' : Parameters.resolve (request.withVersions versions).settings configuration loader
      w.files = .ok (p.withVersions (if versions = [] then c.apiVersions else versions)) := by
    rw [InflateRequest.withVersions, Parameters.resolve_withVersions isRead, resolved]
    rfl
  have calls := Inflation.calls_withVersions (if versions = [] then c.apiVersions else versions)
    prepared
  rcases ran : ((Inflation.new p).withVersions
    (if versions = [] then c.apiVersions else versions)).generate m loader w with ⟨i, w'⟩
  rw [ran] at calls
  rw [runInflate_of_generate env opened' resolved' ran, calls_finish env]
  exact calls

theorem finish_withVersions (versions effective : List String) :
    finish m env (request.withVersions versions) (i.withVersions effective) w =
      finish m env request i w :=
  rfl

theorem runInflate_of_unopened (versions : List String)
    (unopened : ∀ configuration loader, ¬ Opened m request w configuration loader) :
    runInflate m env (request.withVersions versions) w = runInflate m env request w := by
  have root : (request.withVersions versions).loadRoot = request.loadRoot := rfl
  simp only [runInflate, root]
  simp only [InflateRequest.withVersions]
  cases isRead : w.files.read m.directory request.configuration with
  | error e => rfl
  | ok configuration =>
      cases isOpened : Loader.ofDirectory w.files m.directory request.loadRoot
          request.restriction with
      | error e => rfl
      | ok loader => exact absurd ⟨isRead, isOpened⟩ (unopened configuration loader)

theorem runInflate_withVersions (versions : List String)
    (never : ∀ c p scratch file made, ¬ Renders m request w c p scratch file made) :
    runInflate m env (request.withVersions versions) w = runInflate m env request w := by
  by_cases opens : ∃ configuration loader, Opened m request w configuration loader
  · obtain ⟨configuration, loader, opened⟩ := opens
    have opened' : Opened m (request.withVersions versions) w configuration loader := opened
    cases resolved : Parameters.resolve request.settings configuration loader w.files with
    | error e =>
        have resolved' := Parameters.resolve_withVersions_of_error resolved versions
        rw [runInflate_of_refused env opened' resolved', runInflate_of_refused env opened resolved]
    | ok p =>
        obtain ⟨c, isRead, resolved'⟩ := Parameters.resolve_withVersions_of_ok resolved versions
        rcases ran : (Inflation.new p).generate m loader w with ⟨i, w'⟩
        have ran' := Inflation.generate_withVersions
          ((request.settings.withVersions versions).pins c).apiVersions
          fun d file made w₄ prepared => never c p d file made
            ⟨configuration, loader, w₄, opened, isRead, resolved, prepared⟩
        rw [ran] at ran'
        rw [runInflate_of_generate env opened' resolved' ran',
          runInflate_of_generate env opened resolved ran, finish_withVersions env]
  · exact runInflate_of_unopened env versions fun configuration loader opened =>
      opens ⟨configuration, loader, opened⟩

end Rendering

/-- Commands of one request run alike under variables that agree on colours. -/
theorem run_congr {m : Machine} {env env' : Environment} {arguments arguments' : List String}
    {request : InflateRequest}
    (colours : env'.lookup "CLICOLOR_FORCE" = env.lookup "CLICOLOR_FORCE")
    (accepted : requestOf env .nothing arguments = .ok (.inflate request))
    (accepted' : requestOf env' .nothing arguments' = .ok (.inflate request)) (w : World) :
    run m env arguments w = run m env' arguments' w := by
  rw [run_of_request accepted', run_of_request accepted, runRequest, runRequest,
    runInflate_congr (styled_congr colours)]

/-- A command in which the version of the cluster is given as an empty text does what the same one
without it does.  One in which API versions are given as an empty text does not, unless its option
takes the place of its variable: both make the same calls before the chart is rendered, but where
the one without it renders with the versions that are left, or else with those of the configuration,
this one renders with the empty text among those that are left.  Only where nothing is rendered do
both do the same. -/
theorem empty_settings {setting : OpenSetting} {env env' : Environment}
    {arguments arguments' : List String} {request : InflateRequest}
    (empty : GivenEmpty setting env arguments env' arguments')
    (accepted : requestOf env .nothing arguments = .ok (.inflate request)) :
    (setting = .kubeVersion → ∀ m w, run m env arguments w = run m env' arguments' w) ∧
    (setting = .apiVersions →
      (requestOf env' .nothing arguments' = .ok (.inflate request) ∧
        ∀ m w, run m env arguments w = run m env' arguments' w) ∨
      ∃ before after, request.settings.apiVersions = before ++ "" :: after ∧
        requestOf env' .nothing arguments' =
          .ok (.inflate (request.withVersions (before ++ after))) ∧
        ∀ m w,
          (∀ c p scratch file made, Renders m request w c p scratch file made →
            (run m env arguments w).2.calls =
              w.calls ++ made ++ rendering p scratch file (before ++ "" :: after) ∧
            (run m env' arguments' w).2.calls = w.calls ++ made ++ rendering p scratch file
              (if before ++ after = [] then c.apiVersions else before ++ after)) ∧
          ((∀ c p scratch file made, ¬ Renders m request w c p scratch file made) →
            run m env arguments w = run m env' arguments' w)) := by
  have colours := empty.colours
  constructor
  · rintro rfl m w
    exact run_congr colours accepted (requestOf_without_kubeVersion empty accepted) w
  · rintro rfl
    rcases requestOf_without_apiVersions empty accepted with
      accepted' | ⟨before, after, isFull, accepted'⟩
    · exact .inl ⟨accepted', fun m w => run_congr colours accepted accepted' w⟩
    · refine .inr ⟨before, after, isFull, accepted', fun m w =>
        ⟨fun c p scratch file made renders => ⟨?_, ?_⟩, fun never => ?_⟩⟩
      · have own : request.withVersions (before ++ "" :: after) = request := by
          rw [← isFull]
          rfl
        have calls := calls_of_renders env renders (before ++ "" :: after)
        rw [own, if_neg (by simp)] at calls
        rw [run_of_request accepted]
        exact calls
      · rw [run_of_request accepted']
        exact calls_of_renders env' renders (before ++ after)
      · rw [run_of_request accepted, run_of_request accepted', runRequest, runRequest,
          runInflate_withVersions env' (before ++ after) never,
          runInflate_congr (styled_congr colours)]

def wishing : World :=
  { furnished with
    files := furnished.files.put ["chart.yaml"] (.file (Bytes.ofString
      "name: web\napiVersions: [batch/v1]\n") false) }

theorem versions_wishing :
    (run Inflation.obliging [("HELMGEN_API_VERSIONS", "")] inflating wishing).2.calls.getLast?.map
      (·.arguments.drop 5) = some ["--api-versions", ""] ∧
    (run Inflation.obliging [] inflating wishing).2.calls.getLast?.map (·.arguments.drop 5) =
      some ["--api-versions", "batch/v1"] := by
  decide +kernel

theorem empty_settings_furnished :
    run Inflation.obliging [] (inflating ++ ["--helm-kube-version="] ++ ["--json"]) furnished =
      run Inflation.obliging [] (inflating ++ ["--json"]) furnished ∧
    ∃ (c : ChartConfiguration) (p : Parameters) (scratch file : Path) (made : List Call),
      (run Inflation.obliging [("HELMGEN_API_VERSIONS", "")] inflating wishing).2.calls =
        made ++ rendering p scratch file [""] ∧
      (run Inflation.obliging [] inflating wishing).2.calls =
        made ++ rendering p scratch file c.apiVersions := by
  have spells : Spells OpenSetting.kubeVersion.rule "" ["--helm-kube-version="] :=
    .joined (by decide)
  have byOption : GivenEmpty .kubeVersion [] (inflating ++ ["--helm-kube-version="] ++ ["--json"])
      [] (inflating ++ ["--json"]) := .byOption [] (by decide) spells
  have byVariable : GivenEmpty .apiVersions [("HELMGEN_API_VERSIONS", "")] inflating [] inflating :=
    .byVariable [] inflating
  have accepted : requestOf [] .nothing (inflating ++ ["--helm-kube-version="] ++ ["--json"]) =
      .ok (.inflate { asked with json := true }) := by
    decide +kernel
  have accepted' : requestOf [("HELMGEN_API_VERSIONS", "")] .nothing inflating =
      .ok (.inflate (asked.withVersions [""])) := by
    decide +kernel
  have differ : run Inflation.obliging [("HELMGEN_API_VERSIONS", "")] inflating wishing ≠
      run Inflation.obliging [] inflating wishing := by
    intro same
    obtain ⟨isEmpty, isOwn⟩ := versions_wishing
    rw [same, isOwn] at isEmpty
    exact absurd isEmpty (by decide)
  refine ⟨(empty_settings byOption accepted).1 rfl Inflation.obliging furnished, ?_⟩
  rcases (empty_settings byVariable accepted').2 rfl with
    ⟨_, same⟩ | ⟨before, after, one, _, both⟩
  · exact absurd (same Inflation.obliging wishing) differ
  · have noOther : before = [] ∧ after = [] := by
      have count := congrArg List.length one
      simp [asked, InflateRequest.withVersions, Settings.withVersions] at count
      exact ⟨List.eq_nil_of_length_eq_zero (by omega), List.eq_nil_of_length_eq_zero (by omega)⟩
    obtain ⟨rfl, rfl⟩ := noOther
    obtain ⟨rendered, unrendered⟩ := both Inflation.obliging wishing
    by_contra nowhere
    refine differ (unrendered fun c p scratch file made renders => nowhere ?_)
    exact ⟨c, p, scratch, file, made, rendered c p scratch file made renders⟩

/-- An empty text takes the place of the API version of the configuration, and the renderer is
called otherwise than without it. -/
theorem empty_settings_lost :
    (run Inflation.obliging [("HELMGEN_API_VERSIONS", "")] inflating wishing).2.calls ≠
      (run Inflation.obliging [] inflating wishing).2.calls ∧
    (run Inflation.obliging [("HELMGEN_API_VERSIONS", "")] inflating wishing).2.calls.getLast?.map
      (·.arguments.drop 5) = some ["--api-versions", ""] ∧
    (run Inflation.obliging [] inflating wishing).2.calls.getLast?.map (·.arguments.drop 5) =
      some ["--api-versions", "batch/v1"] := by
  obtain ⟨isEmpty, isOwn⟩ := versions_wishing
  refine ⟨fun same => ?_, isEmpty, isOwn⟩
  rw [same, isOwn] at isEmpty
  exact absurd isEmpty (by decide)

end ChartInflation.CommandLine
