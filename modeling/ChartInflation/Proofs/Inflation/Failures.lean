import ChartInflation.Proofs.Inflation.Course

/-!
# How an inflation fails

The stages of an inflation come one after the other, and the first one that fails decides the error
(`result_error_iff`).
-/

set_option autoImplicit false

namespace ChartInflation

namespace Inflation

inductive Stage where
  | makeScratch
  | checkVersion
  | findChart
  | pull
  | writeValues
  | render
  | readOutput
deriving DecidableEq, Repr

section Failures
variable (m : Machine) (loader : Loader) (i : Inflation) (w : World)

/-- A stage fails with an error, and all milestones that lie before it are passed. -/
inductive Fails : Stage → InflationError → Prop where
  | makeScratch {cause : FileError} {s : Scratch} {w₁ : World}
      (failed : i.scratch.path m w = (.error cause, s, w₁)) :
      Fails .makeScratch (.invalid "unable to create tmp dir for HELM_CONFIG_HOME: <io>")
  | askVersion {d : Path} {w₁ w₂ : World} {e : InflationError} (begun : Begun m i w d w₁)
      (failed : (renderer i.parameters d).run m Renderer.versionArguments w₁ = (.error e, w₂)) :
      Fails .checkVersion e
  | refuseVersion {d : Path} {w₁ w₂ : World} {printed : Printed} {e : InflationError}
      (begun : Begun m i w d w₁)
      (called : (renderer i.parameters d).run m Renderer.versionArguments w₁ = (.ok printed, w₂))
      (refused : Renderer.acceptVersion printed = .error e) : Fails .checkVersion e
  | findChart {d : Path} {w₂ : World} (accepted : Accepted m i w d w₂)
      (absent : w₂.files.isDirectory m.directory i.parameters.chart.directory = false)
      (unknown : i.parameters.chart.repository = none) :
      Fails .findChart (.chartNotFound i.parameters.chart.directory)
  | pull {d : Path} {w₂ w₃ : World} {e : InflationError} (accepted : Accepted m i w d w₂)
      (absent : w₂.files.isDirectory m.directory i.parameters.chart.directory = false)
      (known : i.parameters.chart.repository.isSome)
      (failed : (renderer i.parameters d).run m i.parameters.chart.pullArguments w₂ =
        (.error e, w₃)) : Fails .pull e
  | writeValues {d : Path} {made : List Call} {w₃ : World} {e : InflationError}
      {values : ValuesSource} {files : FileSystem} (ready : Ready m i w d made w₃)
      (failed : i.parameters.values.write i.parameters.chart.name loader m.directory d w₃.files =
        (.error e, values, files)) : Fails .writeValues e
  | render {d file : Path} {made : List Call} {w₄ w₅ : World} {e : InflationError}
      (prepared : Prepared m loader i w d file made w₄)
      (failed : (renderer i.parameters d).run m (templateArguments i.parameters file) w₄ =
        (.error e, w₅)) : Fails .render e
  | readOutput {d file : Path} {made : List Call} {w₄ w₅ : World} {printed : Printed}
      {e : InflationError} (prepared : Prepared m loader i w d file made w₄)
      (rendered : (renderer i.parameters d).run m (templateArguments i.parameters file) w₄ =
        (.ok printed, w₅))
      (refused : Output.resources printed.stdout = .error e) : Fails .readOutput e

def Reaches (p : Parameters) (phase : Phase) (w' : World) : Prop :=
  ∃ n s, steps m loader n (i.goTo .start) w = (⟨p, s, phase⟩, w')

variable {m loader i w}

/-! ## Forwards -/

theorem Reaches.move {p p' : Parameters} {phase phase' : Phase} {w' w'' : World}
    (reaches : Reaches m loader i w p phase w')
    (moves : ∀ s, ∃ s', Moves m loader ⟨p, s, phase⟩ w' ⟨p', s', phase'⟩ w'') :
    Reaches m loader i w p' phase' w'' := by
  obtain ⟨n, s, run⟩ := reaches
  obtain ⟨s', move⟩ := moves s
  exact ⟨n + 1, s', by rw [steps_succ_last, run, step_of_moves move]⟩

theorem reaches_first {phase : Phase} {s : Scratch} {w' : World}
    (moves : Moves m loader (i.goTo .start) w ⟨i.parameters, s, phase⟩ w') :
    Reaches m loader i w i.parameters phase w' :=
  ⟨1, s, step_of_moves moves⟩

theorem reaches_begun {d : Path} {w₁ : World} (begun : Begun m i w d w₁) :
    Reaches m loader i w i.parameters (.checkVersion d) w₁ := by
  obtain ⟨s, made⟩ := begun
  exact reaches_first (.makeScratch made)

theorem reaches_accepted {d : Path} {w₂ : World} (accepted : Accepted m i w d w₂) :
    Reaches m loader i w i.parameters (.lookUp d) w₂ := by
  obtain ⟨w₁, printed, version, begun, called, accepted⟩ := accepted
  exact (reaches_begun begun).move fun s => ⟨s, .acceptVersion called accepted⟩

theorem reaches_ready {d : Path} {made : List Call} {w₃ : World} (ready : Ready m i w d made w₃) :
    Reaches m loader i w i.parameters (.writeValues d) w₃ := by
  cases ready with
  | present accepted isThere =>
      exact (reaches_accepted accepted).move fun s => ⟨s, .findChart isThere⟩
  | pulled accepted absent known pull =>
      have missing : Reaches m loader i w i.parameters (.pull d) _ :=
        (reaches_accepted accepted).move fun s => ⟨s, .missChart absent known⟩
      exact missing.move fun s => ⟨s, .pull pull⟩

theorem reaches_prepared {d file : Path} {made : List Call} {w₄ : World}
    (prepared : Prepared m loader i w d file made w₄) :
    ∃ p, Reaches m loader i w p (.render d file) w₄ ∧ renderer p d = renderer i.parameters d ∧
      templateArguments p file = templateArguments i.parameters file := by
  obtain ⟨w₃, values, files, ready, written, rfl⟩ := prepared
  refine ⟨{ i.parameters with values := values },
    (reaches_ready ready).move fun s => ⟨s, .writeValues written⟩, rfl, ?_⟩
  simp only [templateArguments, additionalFiles_of_write written]

/-- Where the end comes in sight nothing but the removal is left. -/
theorem Reaches.generate {p : Parameters} {result : Except InflationError Resources} {w' : World}
    (reaches : Reaches m loader i w p (.release result) w') :
    ∃ (s s' : Scratch) (w'' : World), s.release m w' = (s', w'') ∧
      i.generate m loader w = (⟨p, s', .finished result⟩, w'') := by
  obtain ⟨n, s, run⟩ := reaches
  rcases released : s.release m w' with ⟨s', w''⟩
  have ended : steps m loader (n + 1) (i.goTo .start) w = (⟨p, s', .finished result⟩, w'') := by
    rw [steps_succ_last, run, step_of_moves (.release released)]
  exact ⟨s, s', w'', released, generate_of_steps ended rfl⟩

theorem Reaches.result {p : Parameters} {result : Except InflationError Resources} {w' : World}
    (reaches : Reaches m loader i w p (.release result) w') :
    (i.generate m loader w).1.result = result := by
  obtain ⟨_, _, _, _, run⟩ := reaches.generate
  rw [run]
  rfl

theorem result_of_fails {stage : Stage} {e : InflationError} (fails : Fails m loader i w stage e) :
    (i.generate m loader w).1.result = .error e := by
  cases fails with
  | makeScratch failed =>
      exact (reaches_first (.noScratch failed)).result
  | askVersion begun failed =>
      exact ((reaches_begun begun).move fun s => ⟨s, .callFailed rfl failed⟩).result
  | refuseVersion begun called refused =>
      exact ((reaches_begun begun).move fun s => ⟨s, .refuseVersion called refused⟩).result
  | findChart accepted absent unknown =>
      exact ((reaches_accepted accepted).move fun s => ⟨s, .noChart absent unknown⟩).result
  | pull accepted absent known failed =>
      have missing : Reaches m loader i w i.parameters (.pull _) _ :=
        (reaches_accepted accepted).move fun s => ⟨s, .missChart absent known⟩
      exact (missing.move fun s => ⟨s, .callFailed rfl failed⟩).result
  | writeValues ready failed =>
      exact ((reaches_ready ready).move fun s => ⟨s, .failValues failed⟩).result
  | render prepared failed =>
      obtain ⟨p, reaches, sameRenderer, sameArguments⟩ := reaches_prepared prepared
      rw [← sameRenderer, ← sameArguments] at failed
      exact (reaches.move fun s => ⟨s, .callFailed rfl failed⟩).result
  | readOutput prepared rendered refused =>
      obtain ⟨p, reaches, sameRenderer, sameArguments⟩ := reaches_prepared prepared
      rw [← sameRenderer, ← sameArguments] at rendered
      exact refused ▸ (reaches.move fun s => ⟨s, .render rendered⟩).result

/-! ## Backwards -/

def Explained (m : Machine) (loader : Loader) (i : Inflation) (w : World) : Phase → Prop
  | .release (.error e) | .finished (.error e) => ∃ stage, Fails m loader i w stage e
  | _ => True

theorem explained_of_moves {now next : Inflation} {w' w'' : World}
    (moves : Moves m loader now w' next w'') (course : Course m loader i w now w')
    (explained : Explained m loader i w now.phase) : Explained m loader i w next.phase := by
  cases moves with
  | noScratch failed =>
      obtain ⟨isStart, rfl⟩ := course
      obtain ⟨rfl, rfl, _⟩ := Inflation.mk.inj isStart
      exact ⟨_, .makeScratch failed⟩
  | @callFailed p s phase w' w'' d arguments e asks failed =>
      cases phase with
      | checkVersion scratch =>
          obtain ⟨rfl, rfl⟩ := Prod.mk.inj (Option.some.inj asks)
          obtain ⟨rfl, begun⟩ := course
          exact ⟨_, .askVersion begun failed⟩
      | pull scratch =>
          obtain ⟨rfl, rfl⟩ := Prod.mk.inj (Option.some.inj asks)
          obtain ⟨rfl, accepted, absent, known⟩ := course
          exact ⟨_, .pull accepted absent known failed⟩
      | render scratch file =>
          obtain ⟨rfl, rfl⟩ := Prod.mk.inj (Option.some.inj asks)
          obtain ⟨sameRenderer, sameArguments, made, prepared⟩ := course
          rw [sameRenderer, sameArguments] at failed
          exact ⟨_, .render prepared failed⟩
      | _ => simp [Phase.request?] at asks
  | refuseVersion called refused =>
      obtain ⟨rfl, begun⟩ := course
      exact ⟨_, .refuseVersion begun called refused⟩
  | noChart absent unknown =>
      obtain ⟨rfl, accepted⟩ := course
      exact ⟨_, .findChart accepted absent unknown⟩
  | failValues failed =>
      obtain ⟨rfl, made, ready⟩ := course
      exact ⟨_, .writeValues ready failed⟩
  | @render p s w' w'' d file printed rendered =>
      obtain ⟨sameRenderer, sameArguments, made, prepared⟩ := course
      rw [sameRenderer, sameArguments] at rendered
      cases refused : Output.resources printed.stdout with
      | ok rs => trivial
      | error e => exact ⟨_, .readOutput prepared rendered refused⟩
  | @release p s s' w' w'' result released =>
      cases result with
      | ok rs => trivial
      | error e => exact explained
  | stay => exact explained
  | _ => trivial

/-- An inflation ends with an error exactly if a stage fails with it, behind those that are
passed. -/
theorem result_error_iff (e : InflationError) :
    (i.generate m loader w).1.result = .error e ↔ ∃ stage, Fails m loader i w stage e := by
  constructor
  · intro failed
    have kept : Course m loader i w (i.generate m loader w).1 (i.generate m loader w).2 ∧
        Explained m loader i w (i.generate m loader w).1.phase :=
      @generate_keeps m loader
        (fun now w' => Course m loader i w now w' ∧ Explained m loader i w now.phase)
        (fun moves both => ⟨course_of_moves moves both.1, explained_of_moves moves both.1 both.2⟩)
        i w ⟨⟨rfl, rfl⟩, trivial⟩
    obtain ⟨result, finished⟩ := generate_finished m loader i w
    rw [Inflation.result, finished] at failed
    obtain rfl : result = .error e := failed
    rw [finished] at kept
    exact kept.2
  · rintro ⟨stage, fails⟩
    exact result_of_fails fails

end Failures

end Inflation

end ChartInflation
