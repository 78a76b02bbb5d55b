import ChartInflation.Proofs.Inflation.Failures
import ChartInflation.Proofs.Inflation.Pins

/-!
# How far API versions reach

Nothing but the call that renders the chart is told the API versions.  With other ones an inflation
takes the same steps up to this call, and all the same steps if it does not come to it
(`generate_withVersions`, `calls_withVersions`).
-/

set_option autoImplicit false

namespace ChartInflation

def Settings.withVersions (s : Settings) (versions : List String) : Settings :=
  { s with apiVersions := versions }

def Parameters.withVersions (p : Parameters) (versions : List String) : Parameters :=
  { p with render := { p.render with apiVersions := versions } }

/-! ## Parameters -/

namespace Parameters

variable {s : Settings} {c : ChartConfiguration} {loader : Loader} {fs : FileSystem}
  {configuration : Bytes} {p : Parameters}

theorem ofConfiguration_withVersions (s : Settings) (c : ChartConfiguration)
    (versions : List String) (loader : Loader) (fs : FileSystem) :
    ofConfiguration (s.withVersions versions) c loader fs = (ofConfiguration s c loader fs).map
      (·.withVersions ((s.withVersions versions).pins c).apiVersions) := by
  have settings : checkSettings (s.withVersions versions) = checkSettings s := rfl
  rw [ofConfiguration_eq, ofConfiguration_eq, settings, Settings.override_eq, Settings.override_eq]
  cases checkSettings s with
  | error e => rfl
  | ok _ =>
      cases checked c loader fs with
      | error e => rfl
      | ok found => rfl

theorem resolve_withVersions (isRead : ChartConfiguration.ofBytes configuration = .ok c)
    (versions : List String) :
    resolve (s.withVersions versions) configuration loader fs =
      (resolve s configuration loader fs).map
        (·.withVersions ((s.withVersions versions).pins c).apiVersions) := by
  have settings : checkSettings (s.withVersions versions) = checkSettings s := rfl
  rw [resolve, resolve, settings, isRead]
  cases checkSettings s with
  | error e => rfl
  | ok _ => exact ofConfiguration_withVersions s c versions loader fs

theorem resolve_withVersions_of_error {e : InflationError}
    (refused : resolve s configuration loader fs = .error e) (versions : List String) :
    resolve (s.withVersions versions) configuration loader fs = .error e := by
  cases decoded : ChartConfiguration.ofBytes configuration with
  | ok c =>
      rw [resolve_withVersions decoded, refused]
      rfl
  | error fault =>
      have settings : checkSettings (s.withVersions versions) = checkSettings s := rfl
      rw [resolve, decoded] at refused ⊢
      rw [settings]
      exact refused

theorem resolve_withVersions_of_ok (resolved : resolve s configuration loader fs = .ok p)
    (versions : List String) : ∃ c, ChartConfiguration.ofBytes configuration = .ok c ∧
      resolve (s.withVersions versions) configuration loader fs =
        .ok (p.withVersions ((s.withVersions versions).pins c).apiVersions) := by
  cases decoded : ChartConfiguration.ofBytes configuration with
  | ok c =>
      refine ⟨c, rfl, ?_⟩
      rw [resolve_withVersions decoded, resolved]
      rfl
  | error fault =>
      rw [resolve, decoded] at resolved
      obtain ⟨_, _, resolved⟩ := Outcome.bind_eq_ok_iff.mp resolved
      cases resolved

end Parameters

/-! ## Calls -/

namespace Renderer

/-- What is called: nothing if a text of the call holds a NUL. -/
def sent (c : Call) : List Call :=
  if holdsNul c then [] else [c]

theorem calls_run (m : Machine) (r : Renderer) (arguments : List String) (w : World) :
    (r.run m arguments w).2.calls = w.calls ++ sent (r.call arguments) := by
  unfold run sent
  cases nul : holdsNul (r.call arguments) with
  | true => simp [nul]
  | false => simp [nul, Machine.perform]

end Renderer

namespace Inflation

def withVersions (i : Inflation) (versions : List String) : Inflation :=
  { i with parameters := i.parameters.withVersions versions }

section Versions
variable {m : Machine} {loader : Loader} {i i' : Inflation} {w w' : World} {d file : Path}
  {made : List Call} {w₄ : World}

/-! ## Without rendering -/

/-- A step that does not render is not told the API versions. -/
theorem moves_withVersions (versions : List String) (moves : Moves m loader i w i' w')
    (early : ∀ d file, i.phase ≠ .render d file) :
    Moves m loader (i.withVersions versions) w (i'.withVersions versions) w' := by
  cases moves with
  | makeScratch made => exact .makeScratch made
  | noScratch failed => exact .noScratch failed
  | @callFailed p s phase w w' scratch arguments e asks failed =>
      have asks' : phase.request? (p.withVersions versions) = some (scratch, arguments) := by
        cases phase with
        | render d file => exact absurd rfl (early d file)
        | _ => exact asks
      exact .callFailed asks' failed
  | acceptVersion called accepted => exact .acceptVersion called accepted
  | refuseVersion called refused => exact .refuseVersion called refused
  | findChart present => exact .findChart present
  | missChart absent known => exact .missChart absent known
  | noChart absent unknown => exact .noChart absent unknown
  | pull pulled => exact .pull pulled
  | writeValues written => exact .writeValues written
  | failValues failed => exact .failValues failed
  | render rendered => exact absurd rfl (early _ _)
  | release released => exact .release released
  | stay => exact .stay

theorem steps_withVersions (versions : List String) (n : Nat)
    (early : ∀ k d file, (steps m loader k i w).1.phase ≠ .render d file) :
    steps m loader n (i.withVersions versions) w =
      ((steps m loader n i w).1.withVersions versions, (steps m loader n i w).2) := by
  induction n with
  | zero => rfl
  | succ n ih =>
      rw [steps_succ_last, ih, steps_succ_last]
      exact step_of_moves (moves_withVersions versions (step_moves rfl) (early n))

theorem prepared_of_render {k : Nat} (phase : (steps m loader k (i.goTo .start) w).1.phase =
    .render d file) : ∃ made w₄, Prepared m loader i w d file made w₄ := by
  have course : Course m loader i w (steps m loader k (i.goTo .start) w).1
      (steps m loader k (i.goTo .start) w).2 := steps_keep course_of_moves k ⟨rfl, rfl⟩
  simp only [Course, phase] at course
  obtain ⟨_, _, made, prepared⟩ := course
  exact ⟨made, _, prepared⟩

/-- An inflation that does not come to the rendering takes the same steps whatever the API
versions. -/
theorem generate_withVersions (versions : List String)
    (never : ∀ d file made w₄, ¬ Prepared m loader i w d file made w₄) :
    (i.withVersions versions).generate m loader w =
      ((i.generate m loader w).1.withVersions versions, (i.generate m loader w).2) := by
  have started : (i.withVersions versions).goTo .start =
      (i.goTo .start).withVersions versions := rfl
  unfold generate
  rw [started]
  refine steps_withVersions versions 7 fun k d file phase => ?_
  obtain ⟨made, w₄, prepared⟩ := prepared_of_render phase
  exact never d file made w₄ prepared

/-! ## With rendering -/

theorem prepared_withVersions (versions : List String)
    (prepared : Prepared m loader i w d file made w₄) :
    Prepared m loader (i.withVersions versions) w d file made w₄ := by
  obtain ⟨w₃, values, files, ready, written, rfl⟩ := prepared
  refine ⟨w₃, values, files, ?_, written, rfl⟩
  cases ready with
  | present accepted isThere => exact .present accepted isThere
  | pulled accepted absent known pull => exact .pulled accepted absent known pull

theorem calls_of_rendering (prepared : Prepared m loader i w d file made w₄) :
    (i.generate m loader w).2.calls = w.calls ++ made ++ Renderer.sent (renderCall i d file) := by
  obtain ⟨p, before, sameRenderer, sameArguments⟩ := reaches_prepared prepared
  rcases called : (renderer p d).run m (templateArguments p file) w₄ with ⟨result, w₅⟩
  have rendered : ∃ result, Reaches m loader i w p (.release result) w₅ := by
    cases result with
    | ok printed => exact ⟨_, before.move fun s => ⟨s, .render called⟩⟩
    | error e => exact ⟨_, before.move fun s => ⟨s, .callFailed rfl called⟩⟩
  obtain ⟨result, reaches⟩ := rendered
  obtain ⟨s, s', w₆, released, run⟩ := reaches.generate
  obtain ⟨_, sameCalls, _⟩ := Scratch.release_cases released
  obtain ⟨calls, _⟩ := calls_of_prepared prepared
  have rendering := Renderer.calls_run m (renderer p d) (templateArguments p file) w₄
  rw [called, sameRenderer, sameArguments] at rendering
  rw [run, sameCalls, ← calls]
  exact rendering

/-- An inflation that comes to the rendering makes the same calls before, and then renders with its
API versions. -/
theorem calls_withVersions (versions : List String)
    (prepared : Prepared m loader i w d file made w₄) :
    ((i.withVersions versions).generate m loader w).2.calls =
      w.calls ++ made ++ Renderer.sent (renderCall (i.withVersions versions) d file) :=
  calls_of_rendering (prepared_withVersions versions prepared)

end Versions

end Inflation

end ChartInflation
