import ChartInflation.Proofs.Inflation.EffectiveValues
import ChartInflation.Proofs.Inflation.Scratch
import ChartInflation.Proofs.Inflation.Steps

/-!
# The course of an inflation

An inflation passes milestones: its scratch directory is made, a supported version is printed, the
chart is there, the values are written.  The renderer is called only behind the milestones that a
call needs, and the result is what it prints last, if all of them are passed (`generate_course`).
Nothing is supposed of what the renderer does.
-/

set_option autoImplicit false

namespace ChartInflation

namespace Renderer

variable {m : Machine} {r : Renderer} {arguments : List String} {w w' : World}

theorem calls_of_run {printed : Printed} (run : r.run m arguments w = (.ok printed, w')) :
    w'.calls = w.calls ++ [r.call arguments] := by
  rcases run_cases run with ⟨⟨e, isError⟩, _⟩ | ⟨_, _, _, _, rfl⟩
  · cases isError
  · rfl

theorem calls_of_failed_run {e : InflationError} (run : r.run m arguments w = (.error e, w')) :
    w'.calls = w.calls ∨ w'.calls = w.calls ++ [r.call arguments] := by
  rcases run_cases run with ⟨_, rfl⟩ | ⟨_, _, _, _, rfl⟩
  · exact Or.inl rfl
  · exact Or.inr rfl

end Renderer

namespace Inflation

section Milestones
variable (m : Machine) (loader : Loader) (i : Inflation) (w : World)

def versionCall (scratch : Path) : Call :=
  (renderer i.parameters scratch).call Renderer.versionArguments

def pullCall (scratch : Path) : Call :=
  (renderer i.parameters scratch).call i.parameters.chart.pullArguments

def renderCall (scratch file : Path) : Call :=
  (renderer i.parameters scratch).call (templateArguments i.parameters file)

def Begun (scratch : Path) (w₁ : World) : Prop :=
  ∃ s, i.scratch.path m w = (.ok scratch, s, w₁)

def Accepted (scratch : Path) (w₂ : World) : Prop :=
  ∃ w₁ printed version, Begun m i w scratch w₁ ∧
    (renderer i.parameters scratch).run m Renderer.versionArguments w₁ = (.ok printed, w₂) ∧
    Renderer.acceptVersion printed = .ok version

/-- The chart is there, behind these calls: it was before, or it has been pulled. -/
inductive Ready (scratch : Path) : List Call → World → Prop where
  | present {w₂ : World} (accepted : Accepted m i w scratch w₂)
      (isThere : w₂.files.isDirectory m.directory i.parameters.chart.directory) :
      Ready scratch [versionCall i scratch] w₂
  | pulled {w₂ w₃ : World} {printed : Printed} (accepted : Accepted m i w scratch w₂)
      (absent : w₂.files.isDirectory m.directory i.parameters.chart.directory = false)
      (known : i.parameters.chart.repository.isSome)
      (pull : (renderer i.parameters scratch).run m i.parameters.chart.pullArguments w₂ =
        (.ok printed, w₃)) :
      Ready scratch [versionCall i scratch, pullCall i scratch] w₃

/-- The effective values are in a file, behind these calls. -/
def Prepared (scratch file : Path) (made : List Call) (w₄ : World) : Prop :=
  ∃ w₃ values files, Ready m i w scratch made w₃ ∧
    i.parameters.values.write i.parameters.chart.name loader m.directory scratch w₃.files =
      (.ok file, values, files) ∧
    w₄ = { w₃ with files := files }

/-- The calls that an inflation may have made, each with what it needs. -/
inductive MayCall : List Call → Prop where
  | nothing : MayCall []
  | version {scratch : Path} {w₁ : World} (begun : Begun m i w scratch w₁) :
      MayCall [versionCall i scratch]
  | pull {scratch : Path} {w₂ : World} (accepted : Accepted m i w scratch w₂)
      (absent : w₂.files.isDirectory m.directory i.parameters.chart.directory = false)
      (known : i.parameters.chart.repository.isSome) :
      MayCall [versionCall i scratch, pullCall i scratch]
  | render {scratch file : Path} {made : List Call} {w₄ : World}
      (prepared : Prepared m loader i w scratch file made w₄) :
      MayCall (made ++ [renderCall i scratch file])

/-- All milestones are passed, and resources are printed. -/
def Succeeds (rs : Resources) : Prop :=
  ∃ scratch file made w₄ printed w₅, Prepared m loader i w scratch file made w₄ ∧
    (renderer i.parameters scratch).run m (templateArguments i.parameters file) w₄ =
      (.ok printed, w₅) ∧
    Output.resources printed.stdout = .ok rs

variable {m loader i w}

/-! ## What the milestones determine -/

theorem begun_unique {d d' : Path} {w₁ w₁' : World} (one : Begun m i w d w₁)
    (other : Begun m i w d' w₁') : d = d' ∧ w₁ = w₁' := by
  obtain ⟨s, made⟩ := one
  obtain ⟨s', made'⟩ := other
  rw [made] at made'
  simp only [Prod.mk.injEq, Except.ok.injEq] at made'
  exact ⟨made'.1, made'.2.2⟩

theorem accepted_unique {d d' : Path} {w₂ w₂' : World} (one : Accepted m i w d w₂)
    (other : Accepted m i w d' w₂') : d = d' ∧ w₂ = w₂' := by
  obtain ⟨w₁, _, _, begun, run, _⟩ := one
  obtain ⟨w₁', _, _, begun', run', _⟩ := other
  obtain ⟨rfl, rfl⟩ := begun_unique begun begun'
  rw [run] at run'
  exact ⟨rfl, (Prod.mk.inj run').2⟩

theorem ready_unique {d d' : Path} {made made' : List Call} {w₃ w₃' : World}
    (one : Ready m i w d made w₃) (other : Ready m i w d' made' w₃') :
    d = d' ∧ made = made' ∧ w₃ = w₃' := by
  cases one with
  | present accepted isThere =>
      cases other with
      | present accepted' _ =>
          obtain ⟨rfl, rfl⟩ := accepted_unique accepted accepted'
          exact ⟨rfl, rfl, rfl⟩
      | pulled accepted' absent _ _ =>
          obtain ⟨rfl, rfl⟩ := accepted_unique accepted accepted'
          simp [isThere] at absent
  | pulled accepted absent _ pull =>
      cases other with
      | present accepted' isThere =>
          obtain ⟨rfl, rfl⟩ := accepted_unique accepted accepted'
          simp [isThere] at absent
      | pulled accepted' _ _ pull' =>
          obtain ⟨rfl, rfl⟩ := accepted_unique accepted accepted'
          rw [pull] at pull'
          exact ⟨rfl, rfl, (Prod.mk.inj pull').2⟩

theorem prepared_unique {d d' file file' : Path} {made made' : List Call} {w₄ w₄' : World}
    (one : Prepared m loader i w d file made w₄) (other : Prepared m loader i w d' file' made' w₄') :
    d = d' ∧ file = file' ∧ w₄ = w₄' := by
  obtain ⟨w₃, _, _, ready, write, rfl⟩ := one
  obtain ⟨w₃', _, _, ready', write', rfl⟩ := other
  obtain ⟨rfl, rfl, rfl⟩ := ready_unique ready ready'
  rw [write] at write'
  simp only [Prod.mk.injEq, Except.ok.injEq] at write'
  obtain ⟨rfl, rfl, rfl⟩ := write'
  exact ⟨rfl, rfl, rfl⟩

/-! ## The calls behind the milestones -/

theorem calls_of_begun {d : Path} {w₁ : World} (begun : Begun m i w d w₁) : w₁.calls = w.calls := by
  obtain ⟨_, asked⟩ := begun
  exact Scratch.calls_of_path asked

theorem calls_of_accepted {d : Path} {w₂ : World} (accepted : Accepted m i w d w₂) :
    w₂.calls = w.calls ++ [versionCall i d] := by
  obtain ⟨w₁, _, _, begun, run, _⟩ := accepted
  rw [Renderer.calls_of_run run, calls_of_begun begun]
  rfl

theorem calls_of_ready {d : Path} {made : List Call} {w₃ : World} (ready : Ready m i w d made w₃) :
    w₃.calls = w.calls ++ made := by
  cases ready with
  | present accepted _ => exact calls_of_accepted accepted
  | pulled accepted _ _ pull =>
      rw [Renderer.calls_of_run pull, calls_of_accepted accepted, List.append_assoc]
      rfl

theorem mayCall_of_ready {d : Path} {made : List Call} {w₃ : World}
    (ready : Ready m i w d made w₃) : MayCall m loader i w made := by
  cases ready with
  | present accepted _ =>
      obtain ⟨w₁, _, _, begun, _, _⟩ := accepted
      exact .version begun
  | pulled accepted absent known _ => exact .pull accepted absent known

theorem calls_of_prepared {d file : Path} {made : List Call} {w₄ : World}
    (prepared : Prepared m loader i w d file made w₄) :
    w₄.calls = w.calls ++ made ∧ MayCall m loader i w made := by
  obtain ⟨w₃, _, _, ready, _, rfl⟩ := prepared
  have calls := calls_of_ready ready
  exact ⟨calls, mayCall_of_ready ready⟩

theorem ready_of_succeeds {rs : Resources} (succeeds : Succeeds m loader i w rs) :
    ∃ d made w₃, Ready m i w d made w₃ := by
  obtain ⟨d, _, made, _, _, _, ⟨w₃, _, _, ready, _, _⟩, _, _⟩ := succeeds
  exact ⟨d, made, w₃, ready⟩

theorem accepted_of_succeeds {rs : Resources} (succeeds : Succeeds m loader i w rs) :
    ∃ d w₂, Accepted m i w d w₂ := by
  obtain ⟨d, _, _, ready⟩ := ready_of_succeeds succeeds
  cases ready with
  | present accepted _ => exact ⟨d, _, accepted⟩
  | pulled accepted _ _ _ => exact ⟨d, _, accepted⟩

theorem begun_of_accepted {d : Path} {w₂ : World} (accepted : Accepted m i w d w₂) :
    ∃ w₁, Begun m i w d w₁ := by
  obtain ⟨w₁, _, _, begun, _, _⟩ := accepted
  exact ⟨w₁, begun⟩

/-! ## Missed milestones -/

theorem version_missed {d : Path} {w₁ : World} (begun : Begun m i w d w₁)
    (refused : ∀ printed w₂, (renderer i.parameters d).run m Renderer.versionArguments w₁ =
      (.ok printed, w₂) → ∀ version, Renderer.acceptVersion printed ≠ .ok version)
    (rs : Resources) : ¬ Succeeds m loader i w rs := by
  intro succeeds
  obtain ⟨d', w₂, w₁', printed, version, begun', run, accepted⟩ := accepted_of_succeeds succeeds
  obtain ⟨rfl, rfl⟩ := begun_unique begun begun'
  exact refused printed w₂ run version accepted

theorem chart_missed {d : Path} {w₂ : World} (accepted : Accepted m i w d w₂)
    (absent : w₂.files.isDirectory m.directory i.parameters.chart.directory = false)
    (notPulled : i.parameters.chart.repository.isSome → ∀ printed w₃,
      (renderer i.parameters d).run m i.parameters.chart.pullArguments w₂ ≠ (.ok printed, w₃))
    (rs : Resources) : ¬ Succeeds m loader i w rs := by
  intro succeeds
  obtain ⟨d', made, w₃, ready⟩ := ready_of_succeeds succeeds
  cases ready with
  | present accepted' isThere =>
      obtain ⟨rfl, rfl⟩ := accepted_unique accepted accepted'
      simp [isThere] at absent
  | pulled accepted' _ known pull =>
      obtain ⟨rfl, rfl⟩ := accepted_unique accepted accepted'
      exact notPulled known _ _ pull

theorem values_missed {d : Path} {made : List Call} {w₃ : World} (ready : Ready m i w d made w₃)
    (failed : ∀ file values files, i.parameters.values.write i.parameters.chart.name loader
      m.directory d w₃.files ≠ (.ok file, values, files))
    (rs : Resources) : ¬ Succeeds m loader i w rs := by
  rintro ⟨d', file, made', w₄, _, _, ⟨w₃', values, files, ready', written, rfl⟩, _, _⟩
  obtain ⟨rfl, rfl, rfl⟩ := ready_unique ready ready'
  exact failed file values files written

theorem succeeds_of_prepared_iff {d file : Path} {made : List Call} {w₄ : World}
    (prepared : Prepared m loader i w d file made w₄) (rs : Resources) :
    Succeeds m loader i w rs ↔ ∃ printed w₅,
      (renderer i.parameters d).run m (templateArguments i.parameters file) w₄ =
        (.ok printed, w₅) ∧ Output.resources printed.stdout = .ok rs := by
  constructor
  · rintro ⟨d', file', made', w₄', printed, w₅, prepared', run, accepted⟩
    obtain ⟨rfl, rfl, rfl⟩ := prepared_unique prepared prepared'
    exact ⟨printed, w₅, run, accepted⟩
  · rintro ⟨printed, w₅, run, accepted⟩
    exact ⟨d, file, made, w₄, printed, w₅, prepared, run, accepted⟩

/-! ## Step by step -/

theorem additionalFiles_of_write {s updated : ValuesSource} {chart : String} {here : Location}
    {directory file : Path} {fs fs' : FileSystem}
    (written : s.write chart loader here directory fs = (.ok file, updated, fs')) :
    updated.additionalFiles = s.additionalFiles := by
  obtain ⟨_, bytes, made, _⟩ := ValuesSource.write_eq_ok_iff.mp written
  by_cases empty : Values.isEmpty s.inline
  · obtain ⟨_, rfl⟩ := (ValuesSource.content_of_empty empty bytes).mp made
    rfl
  · rw [Bool.not_eq_true] at empty
    obtain ⟨_, _, _, _, _, rfl⟩ := (ValuesSource.content_of_inhabited empty bytes).mp made
    rfl

def Course (m : Machine) (loader : Loader) (i : Inflation) (w : World) (now : Inflation)
    (w' : World) : Prop :=
  match now.phase with
  | .start => now = i.goTo .start ∧ w' = w
  | .checkVersion d => now.parameters = i.parameters ∧ Begun m i w d w'
  | .lookUp d => now.parameters = i.parameters ∧ Accepted m i w d w'
  | .pull d => now.parameters = i.parameters ∧ Accepted m i w d w' ∧
      w'.files.isDirectory m.directory i.parameters.chart.directory = false ∧
      i.parameters.chart.repository.isSome
  | .writeValues d => now.parameters = i.parameters ∧ ∃ made, Ready m i w d made w'
  | .render d file => renderer now.parameters d = renderer i.parameters d ∧
      templateArguments now.parameters file = templateArguments i.parameters file ∧
      ∃ made, Prepared m loader i w d file made w'
  | .release result | .finished result =>
      (∃ made, w'.calls = w.calls ++ made ∧ MayCall m loader i w made) ∧
        ∀ rs, result = .ok rs ↔ Succeeds m loader i w rs

theorem course_of_failure (made : List Call) {p : Parameters} {s : Scratch} {e : InflationError}
    {w' : World} (calls : w'.calls = w.calls ++ made) (may : MayCall m loader i w made)
    (missed : ∀ rs, ¬ Succeeds m loader i w rs) :
    Course m loader i w ⟨p, s, .release (.error e)⟩ w' := by
  refine ⟨⟨made, calls, may⟩, fun rs => ⟨fun isOk => ?_, fun succeeds => absurd succeeds (missed rs)⟩⟩
  cases isOk

theorem course_of_failed_call (made : List Call) {p : Parameters} {s : Scratch} {r : Renderer}
    {arguments : List String} {e : InflationError} {w' w'' : World}
    (failed : r.run m arguments w' = (.error e, w'')) (calls : w'.calls = w.calls ++ made)
    (may : MayCall m loader i w made) (mayNext : MayCall m loader i w (made ++ [r.call arguments]))
    (missed : ∀ rs, ¬ Succeeds m loader i w rs) :
    Course m loader i w ⟨p, s, .release (.error e)⟩ w'' := by
  rcases Renderer.calls_of_failed_run failed with same | one
  · exact course_of_failure made (same.trans calls) may missed
  · refine course_of_failure _ ?_ mayNext missed
    rw [one, calls, List.append_assoc]

/-- A milestone is missed at a call that fails, whichever phase makes it. -/
theorem course_of_callFailed {p : Parameters} {s : Scratch} {phase : Phase} {w' w'' : World}
    {d : Path} {arguments : List String} {e : InflationError}
    (asks : phase.request? p = some (d, arguments))
    (failed : (renderer p d).run m arguments w' = (.error e, w''))
    (course : Course m loader i w ⟨p, s, phase⟩ w') :
    Course m loader i w ⟨p, s, .release (.error e)⟩ w'' := by
  cases phase with
  | checkVersion scratch =>
      obtain ⟨rfl, rfl⟩ := Prod.mk.inj (Option.some.inj asks)
      obtain ⟨rfl, begun⟩ := course
      have calls := calls_of_begun begun
      refine course_of_failed_call [] failed (by rw [calls, List.append_nil]) .nothing
        (.version begun) (version_missed begun fun printed w₂ run => ?_)
      rw [failed] at run
      simp at run
  | pull scratch =>
      obtain ⟨rfl, rfl⟩ := Prod.mk.inj (Option.some.inj asks)
      obtain ⟨rfl, accepted, absent, known⟩ := course
      obtain ⟨w₁, begun⟩ := begun_of_accepted accepted
      refine course_of_failed_call _ failed (calls_of_accepted accepted) (.version begun)
        (.pull accepted absent known) (chart_missed accepted absent fun _ printed w₃ run => ?_)
      rw [failed] at run
      simp at run
  | render scratch file =>
      obtain ⟨rfl, rfl⟩ := Prod.mk.inj (Option.some.inj asks)
      obtain ⟨sameRenderer, sameArguments, made, prepared⟩ := course
      obtain ⟨calls, may⟩ := calls_of_prepared prepared
      rw [sameRenderer, sameArguments] at failed
      refine course_of_failed_call _ failed calls may (.render prepared) fun rs => ?_
      simp [succeeds_of_prepared_iff prepared, failed]
  | _ => simp [Phase.request?] at asks

theorem course_of_moves {now next : Inflation} {w' w'' : World}
    (moves : Moves m loader now w' next w'') (course : Course m loader i w now w') :
    Course m loader i w next w'' := by
  cases moves with
  | makeScratch made =>
      obtain ⟨isStart, rfl⟩ := course
      obtain ⟨rfl, rfl, _⟩ := Inflation.mk.inj isStart
      exact ⟨rfl, _, made⟩
  | noScratch failed =>
      obtain ⟨isStart, rfl⟩ := course
      obtain ⟨rfl, rfl, _⟩ := Inflation.mk.inj isStart
      have calls := Scratch.calls_of_path failed
      refine course_of_failure [] (by rw [calls, List.append_nil]) .nothing ?_
      intro rs succeeds
      obtain ⟨d, w₂, accepted⟩ := accepted_of_succeeds succeeds
      obtain ⟨w₁, s, made⟩ := begun_of_accepted accepted
      rw [failed] at made
      simp at made
  | callFailed asks failed => exact course_of_callFailed asks failed course
  | acceptVersion called accepted =>
      obtain ⟨rfl, begun⟩ := course
      exact ⟨rfl, _, _, _, begun, called, accepted⟩
  | refuseVersion called refused =>
      obtain ⟨rfl, begun⟩ := course
      refine course_of_failure [versionCall i _] ?_ (.version begun)
        (version_missed begun fun printed w₂ run version accepted => ?_)
      · rw [Renderer.calls_of_run called, calls_of_begun begun]
        rfl
      · rw [called] at run
        obtain ⟨same, _⟩ := Prod.mk.inj run
        rw [← Except.ok.inj same, refused] at accepted
        cases accepted
  | findChart present =>
      obtain ⟨rfl, accepted⟩ := course
      exact ⟨rfl, _, .present accepted present⟩
  | missChart absent known =>
      obtain ⟨rfl, accepted⟩ := course
      exact ⟨rfl, accepted, absent, known⟩
  | noChart absent unknown =>
      obtain ⟨rfl, accepted⟩ := course
      obtain ⟨w₁, begun⟩ := begun_of_accepted accepted
      refine course_of_failure _ (calls_of_accepted accepted) (.version begun)
        (chart_missed accepted absent fun known => ?_)
      simp [unknown] at known
  | pull pulled =>
      obtain ⟨rfl, accepted, absent, known⟩ := course
      exact ⟨rfl, _, .pulled accepted absent known pulled⟩
  | writeValues written =>
      obtain ⟨rfl, made, ready⟩ := course
      have sameFiles := additionalFiles_of_write written
      refine ⟨rfl, ?_, made, _, _, _, ready, written, rfl⟩
      simp only [templateArguments, sameFiles]
  | failValues failed =>
      obtain ⟨rfl, made, ready⟩ := course
      have calls := calls_of_ready ready
      refine course_of_failure made calls (mayCall_of_ready ready)
        (values_missed ready fun file values files written => ?_)
      rw [failed] at written
      simp at written
  | @render p s w' w'' d file printed rendered =>
      obtain ⟨sameRenderer, sameArguments, made, prepared⟩ := course
      obtain ⟨calls, _⟩ := calls_of_prepared prepared
      rw [sameRenderer, sameArguments] at rendered
      refine ⟨⟨made ++ [renderCall i d file], ?_, .render prepared⟩, fun rs => ?_⟩
      · rw [Renderer.calls_of_run rendered, calls, List.append_assoc]
        rfl
      · simp [succeeds_of_prepared_iff prepared, rendered]
  | release released =>
      obtain ⟨⟨made, calls, may⟩, outcome⟩ := course
      obtain ⟨_, same, _⟩ := Scratch.release_cases released
      exact ⟨⟨made, same.trans calls, may⟩, outcome⟩
  | stay => exact course

/-! ## Whole runs -/

/-- The calls are those of a run without failures, up to some point. -/
theorem prefix_of_mayCall {made : List Call} (may : MayCall m loader i w made) :
    ∃ scratch file pulls, (pulls = [] ∨ pulls = [pullCall i scratch]) ∧
      made <+: versionCall i scratch :: (pulls ++ [renderCall i scratch file]) := by
  cases may with
  | nothing => exact ⟨⟨""⟩, ⟨""⟩, [], Or.inl rfl, List.nil_prefix⟩
  | version begun => exact ⟨_, ⟨""⟩, [], Or.inl rfl, [_], rfl⟩
  | pull accepted absent known => exact ⟨_, ⟨""⟩, [_], Or.inr rfl, [_], rfl⟩
  | @render scratch file made w₄ prepared =>
      obtain ⟨w₃, _, _, ready, _, _⟩ := prepared
      cases ready with
      | present accepted isThere => exact ⟨scratch, file, [], Or.inl rfl, List.prefix_rfl⟩
      | pulled accepted absent known pull =>
          exact ⟨scratch, file, [_], Or.inr rfl, List.prefix_rfl⟩

/-- What an inflation calls, and when it succeeds, whatever the renderer does.  A configuration that
is refused calls nothing. -/
theorem generate_course (m : Machine) (loader : Loader) (i : Inflation) (w : World) :
    (∃ made, (i.generate m loader w).2.calls = w.calls ++ made ∧ MayCall m loader i w made ∧
      ∃ scratch file pulls, (pulls = [] ∨ pulls = [pullCall i scratch]) ∧
        made <+: versionCall i scratch :: (pulls ++ [renderCall i scratch file]) ∧
        ∀ c ∈ made, c.command = i.parameters.command ∧
          let home := i.parameters.configHome.getD (scratch.joinName "helm")
          c.environment = [("HELM_CONFIG_HOME", home), ("HELM_CACHE_HOME", home.joinName ".cache"),
            ("HELM_DATA_HOME", home.joinName ".data")]) ∧
    (∀ rs, (i.generate m loader w).1.result = .ok rs ↔ Succeeds m loader i w rs) ∧
    ∀ s configuration e, Parameters.resolve s configuration loader w.files = .error e →
      inflate m s configuration loader w = (.error e, w) := by
  have course : Course m loader i w (i.generate m loader w).1 (i.generate m loader w).2 :=
    generate_keeps course_of_moves ⟨rfl, rfl⟩
  obtain ⟨result, finished⟩ := generate_finished m loader i w
  rw [Course, finished] at course
  obtain ⟨⟨made, calls, may⟩, outcome⟩ := course
  refine ⟨⟨made, calls, may, ?_⟩, ?_, ?_⟩
  · obtain ⟨scratch, file, pulls, atMostOne, isPrefix⟩ := prefix_of_mayCall may
    refine ⟨scratch, file, pulls, atMostOne, isPrefix, fun c member => ?_⟩
    have among : c = versionCall i scratch ∨ c = pullCall i scratch ∨
        c = renderCall i scratch file := by
      have inWhole := isPrefix.subset member
      rcases atMostOne with rfl | rfl
      · simp only [List.nil_append, List.mem_cons, List.not_mem_nil, or_false] at inWhole
        exact inWhole.imp_right Or.inr
      · simpa using inWhole
    rcases among with rfl | rfl | rfl <;> exact ⟨rfl, rfl⟩
  · intro rs
    rw [Inflation.result, finished]
    exact outcome rs
  · intro s configuration e refused
    rw [inflate, refused]

def obliging : Machine where
  directory := []
  scratchHome := ⟨"/tmp"⟩
  tool _ call files :=
    let printed := match call.arguments.head? with
      | some "version" => "v3.14.0"
      | some "template" => "apiVersion: v1\nkind: A\n"
      | _ => ""
    (.exited 0 (Bytes.ofString printed) [], files)

def pulling : Inflation :=
  .new {
    command := "helm"
    chart := ⟨"web", none, some "https://charts.example", ⟨"/charts"⟩⟩
    values := ⟨⟨"values.yaml"⟩, [], .mapping [(.string "b", .int 2)], .replace⟩
    render := {}
    configHome := none }

def untouched : World := ⟨⟨[(["tmp"], .directory)]⟩, [], 0⟩

theorem generate_course_pulled :
    (∃ rs, Succeeds obliging (Loader.ofFiles ⟨"/"⟩ []) pulling untouched rs ∧ rs ≠ []) ∧
    ∃ e, inflate obliging {} [] (Loader.ofFiles ⟨"/"⟩ []) untouched = (.error e, untouched) := by
  have one : (pulling.generate obliging (Loader.ofFiles ⟨"/"⟩ []) untouched).1.result.toOption.map
      List.length = some 1 := by
    decide +kernel
  obtain ⟨_, succeeds, refused⟩ :=
    generate_course obliging (Loader.ofFiles ⟨"/"⟩ []) pulling untouched
  constructor
  · cases result : (pulling.generate obliging (Loader.ofFiles ⟨"/"⟩ []) untouched).1.result with
    | error e => simp [result, Except.toOption] at one
    | ok rs =>
        refine ⟨rs, (succeeds rs).mp result, ?_⟩
        rintro rfl
        simp [result, Except.toOption] at one
  · exact ⟨_, refused {} [] _ rfl⟩

end Milestones

end Inflation

end ChartInflation
