import ChartInflation.Inflation.Run

/-!
# What a step does

All that one step of an inflation can do (`Moves`, `step_moves`), and what a run of steps keeps if
each step does (`steps_keep`).  Each step brings the end nearer, so that seven of them reach it from
the start (`generate_finished`).
-/

set_option autoImplicit false

namespace ChartInflation

/-- A call that a text with a NUL keeps from being made fails, and changes nothing; any other one
is made, and yields what the program says. -/
theorem Renderer.run_cases {m : Machine} {r : Renderer} {arguments : List String} {w w' : World}
    {result : Except InflationError Printed}
    (run : r.run m arguments w = (result, w')) :
    ((∃ e, result = .error e) ∧ w' = w) ∨
      ∃ outcome files, m.tool w.calls (r.call arguments) w.files = (outcome, files) ∧
        result = Renderer.judge (r.call arguments) outcome ∧
        w' = { w with files := files, calls := w.calls ++ [r.call arguments] } := by
  by_cases nul : Renderer.holdsNul (r.call arguments)
  · left
    simp only [Renderer.run, nul, if_true, Prod.mk.injEq] at run
    obtain ⟨rfl, rfl⟩ := run
    exact ⟨⟨_, rfl⟩, rfl⟩
  · right
    rw [Bool.not_eq_true] at nul
    simp only [Renderer.run, nul, Bool.false_eq_true, if_false, Machine.perform,
      Prod.mk.injEq] at run
    obtain ⟨rfl, rfl⟩ := run
    exact ⟨_, _, rfl, rfl, rfl⟩

/-- The scratch directory with which a phase calls the renderer, and the arguments. -/
def Phase.request? (p : Parameters) : Phase → Option (Path × List String)
  | .checkVersion scratch => some (scratch, Renderer.versionArguments)
  | .pull scratch => some (scratch, p.chart.pullArguments)
  | .render scratch file => some (scratch, templateArguments p file)
  | _ => none

def Phase.left : Phase → Nat
  | .start => 7
  | .checkVersion _ => 6
  | .lookUp _ => 5
  | .pull _ => 4
  | .writeValues _ => 3
  | .render _ _ => 2
  | .release _ => 1
  | .finished _ => 0

namespace Inflation

section Moves
variable (m : Machine) (loader : Loader)

inductive Moves : Inflation → World → Inflation → World → Prop where
  | makeScratch {p : Parameters} {s s' : Scratch} {w w' : World} {scratch : Path}
      (made : s.path m w = (.ok scratch, s', w')) :
      Moves ⟨p, s, .start⟩ w ⟨p, s', .checkVersion scratch⟩ w'
  | noScratch {p : Parameters} {s s' : Scratch} {w w' : World} {e : FileError}
      (failed : s.path m w = (.error e, s', w')) :
      Moves ⟨p, s, .start⟩ w ⟨p, s', .release (.error
        (.invalid "unable to create tmp dir for HELM_CONFIG_HOME: <io>"))⟩ w'
  | callFailed {p : Parameters} {s : Scratch} {phase : Phase} {w w' : World} {scratch : Path}
      {arguments : List String} {e : InflationError}
      (asks : phase.request? p = some (scratch, arguments))
      (failed : (renderer p scratch).run m arguments w = (.error e, w')) :
      Moves ⟨p, s, phase⟩ w ⟨p, s, .release (.error e)⟩ w'
  | acceptVersion {p : Parameters} {s : Scratch} {w w' : World} {scratch : Path}
      {printed : Printed} {version : String}
      (called : (renderer p scratch).run m Renderer.versionArguments w = (.ok printed, w'))
      (accepted : Renderer.acceptVersion printed = .ok version) :
      Moves ⟨p, s, .checkVersion scratch⟩ w ⟨p, s, .lookUp scratch⟩ w'
  | refuseVersion {p : Parameters} {s : Scratch} {w w' : World} {scratch : Path}
      {printed : Printed} {e : InflationError}
      (called : (renderer p scratch).run m Renderer.versionArguments w = (.ok printed, w'))
      (refused : Renderer.acceptVersion printed = .error e) :
      Moves ⟨p, s, .checkVersion scratch⟩ w ⟨p, s, .release (.error e)⟩ w'
  | findChart {p : Parameters} {s : Scratch} {w : World} {scratch : Path}
      (present : w.files.isDirectory m.directory p.chart.directory) :
      Moves ⟨p, s, .lookUp scratch⟩ w ⟨p, s, .writeValues scratch⟩ w
  | missChart {p : Parameters} {s : Scratch} {w : World} {scratch : Path}
      (absent : w.files.isDirectory m.directory p.chart.directory = false)
      (known : p.chart.repository.isSome) :
      Moves ⟨p, s, .lookUp scratch⟩ w ⟨p, s, .pull scratch⟩ w
  | noChart {p : Parameters} {s : Scratch} {w : World} {scratch : Path}
      (absent : w.files.isDirectory m.directory p.chart.directory = false)
      (unknown : p.chart.repository = none) :
      Moves ⟨p, s, .lookUp scratch⟩ w
        ⟨p, s, .release (.error (.chartNotFound p.chart.directory))⟩ w
  | pull {p : Parameters} {s : Scratch} {w w' : World} {scratch : Path} {printed : Printed}
      (pulled : (renderer p scratch).run m p.chart.pullArguments w = (.ok printed, w')) :
      Moves ⟨p, s, .pull scratch⟩ w ⟨p, s, .writeValues scratch⟩ w'
  | writeValues {p : Parameters} {s : Scratch} {w : World} {scratch file : Path}
      {values : ValuesSource} {files : FileSystem}
      (written : p.values.write p.chart.name loader m.directory scratch w.files =
        (.ok file, values, files)) :
      Moves ⟨p, s, .writeValues scratch⟩ w
        ⟨{ p with values := values }, s, .render scratch file⟩ { w with files := files }
  | failValues {p : Parameters} {s : Scratch} {w : World} {scratch : Path}
      {values : ValuesSource} {files : FileSystem} {e : InflationError}
      (failed : p.values.write p.chart.name loader m.directory scratch w.files =
        (.error e, values, files)) :
      Moves ⟨p, s, .writeValues scratch⟩ w
        ⟨{ p with values := values }, s, .release (.error e)⟩ { w with files := files }
  | render {p : Parameters} {s : Scratch} {w w' : World} {scratch file : Path} {printed : Printed}
      (rendered : (renderer p scratch).run m (templateArguments p file) w = (.ok printed, w')) :
      Moves ⟨p, s, .render scratch file⟩ w ⟨p, s, .release (Output.resources printed.stdout)⟩ w'
  | release {p : Parameters} {s s' : Scratch} {w w' : World}
      {result : Except InflationError Resources} (released : s.release m w = (s', w')) :
      Moves ⟨p, s, .release result⟩ w ⟨p, s', .finished result⟩ w'
  | stay {p : Parameters} {s : Scratch} {w : World} {result : Except InflationError Resources} :
      Moves ⟨p, s, .finished result⟩ w ⟨p, s, .finished result⟩ w

variable {m loader}

theorem callRenderer_cases {i i' : Inflation} {w w' : World} {scratch : Path}
    {arguments : List String} {next : Printed → Phase}
    (called : i.callRenderer m scratch arguments next w = (i', w')) :
    (∃ e, (renderer i.parameters scratch).run m arguments w = (.error e, w') ∧ i' = i.fail e) ∨
      ∃ printed, (renderer i.parameters scratch).run m arguments w = (.ok printed, w') ∧
        i' = i.goTo (next printed) := by
  unfold callRenderer at called
  split at called
  next printed after run =>
      obtain ⟨rfl, rfl⟩ := Prod.mk.inj called
      exact Or.inr ⟨printed, run, rfl⟩
  next e after run =>
      obtain ⟨rfl, rfl⟩ := Prod.mk.inj called
      exact Or.inl ⟨e, run, rfl⟩

theorem lookUp_cases (c : ChartReference) (fs : FileSystem) (here : Location) :
    (fs.isDirectory here c.directory ∧ c.lookUp fs here = .ok (.present c.directory)) ∨
    (fs.isDirectory here c.directory = false ∧ c.repository.isSome ∧
      c.lookUp fs here = .ok .mustPull) ∨
    (fs.isDirectory here c.directory = false ∧ c.repository = none ∧
      c.lookUp fs here = .error (.chartNotFound c.directory)) := by
  unfold ChartReference.lookUp
  by_cases present : fs.isDirectory here c.directory
  · left
    exact ⟨present, if_pos present⟩
  · right
    rw [if_neg present]
    cases c.repository with
    | none => exact Or.inr ⟨by simpa using present, rfl, rfl⟩
    | some repository => exact Or.inl ⟨by simpa using present, rfl, rfl⟩

theorem step_moves {i i' : Inflation} {w w' : World} (does : i.step m loader w = (i', w')) :
    Moves m loader i w i' w' := by
  obtain ⟨p, s, phase⟩ := i
  cases phase with
  | start =>
      simp only [step, Inflation.makeScratch] at does
      split at does
      next scratch s' after made =>
          obtain ⟨rfl, rfl⟩ := Prod.mk.inj does
          exact .makeScratch made
      next e s' after failed =>
          obtain ⟨rfl, rfl⟩ := Prod.mk.inj does
          exact .noScratch failed
  | checkVersion scratch =>
      rcases callRenderer_cases does with ⟨e, failed, rfl⟩ | ⟨printed, run, rfl⟩
      · exact .callFailed rfl failed
      · cases accepted : Renderer.acceptVersion printed with
        | ok version => exact .acceptVersion run accepted
        | error e => exact .refuseVersion run accepted
  | lookUp scratch =>
      rcases lookUp_cases p.chart w.files m.directory with
        ⟨present, found⟩ | ⟨absent, known, found⟩ | ⟨absent, unknown, found⟩
      · simp only [step, found] at does
        obtain ⟨rfl, rfl⟩ := Prod.mk.inj does
        exact .findChart present
      · simp only [step, found] at does
        obtain ⟨rfl, rfl⟩ := Prod.mk.inj does
        exact .missChart absent known
      · simp only [step, found] at does
        obtain ⟨rfl, rfl⟩ := Prod.mk.inj does
        exact .noChart absent unknown
  | pull scratch =>
      rcases callRenderer_cases does with ⟨e, failed, rfl⟩ | ⟨printed, run, rfl⟩
      · exact .callFailed rfl failed
      · exact .pull run
  | writeValues scratch =>
      simp only [step, Inflation.writeValues] at does
      rcases run : p.values.write p.chart.name loader m.directory scratch w.files with
        ⟨result, values, files⟩
      rw [run] at does
      cases result with
      | ok file =>
          obtain ⟨rfl, rfl⟩ := Prod.mk.inj does
          exact .writeValues run
      | error e =>
          obtain ⟨rfl, rfl⟩ := Prod.mk.inj does
          exact .failValues run
  | render scratch file =>
      rcases callRenderer_cases does with ⟨e, failed, rfl⟩ | ⟨printed, run, rfl⟩
      · exact .callFailed rfl failed
      · exact .render run
  | release result =>
      obtain ⟨rfl, rfl⟩ := Prod.mk.inj does
      exact .release rfl
  | finished result =>
      obtain ⟨rfl, rfl⟩ := Prod.mk.inj does
      exact .stay

/-- A step does what it can do: there is but one way on. -/
theorem step_of_moves {i i' : Inflation} {w w' : World} (moves : Moves m loader i w i' w') :
    i.step m loader w = (i', w') := by
  cases moves with
  | makeScratch made => simp only [step, Inflation.makeScratch, made]
  | noScratch failed => simp only [step, Inflation.makeScratch, failed, fail, goTo]
  | @callFailed p s phase w w' scratch arguments e asks failed =>
      cases phase with
      | checkVersion d | pull d | render d file =>
          obtain ⟨rfl, rfl⟩ := Prod.mk.inj (Option.some.inj asks)
          simp only [step, callRenderer, failed, fail, goTo]
      | _ => simp [Phase.request?] at asks
  | acceptVersion called accepted => simp only [step, callRenderer, called, accepted, goTo]
  | refuseVersion called refused => simp only [step, callRenderer, called, refused, goTo]
  | @findChart p s w scratch present =>
      simp only [step, ChartReference.lookUp, present, if_true, goTo]
  | @missChart p s w scratch absent known =>
      simp [step, ChartReference.lookUp, absent, Option.isNone_eq_false_iff.mpr known, goTo]
  | noChart absent unknown => simp [step, ChartReference.lookUp, absent, unknown, fail, goTo]
  | pull pulled => simp only [step, callRenderer, pulled, goTo]
  | writeValues written => simp only [step, Inflation.writeValues, written, goTo]
  | failValues failed => simp only [step, Inflation.writeValues, failed, fail, goTo]
  | render rendered => simp only [step, callRenderer, rendered, goTo]
  | release released => simp only [step, released]
  | stay => rfl

theorem moves_of_finished {p : Parameters} {s : Scratch} {next : Inflation} {w w' : World}
    {result : Except InflationError Resources}
    (moves : Moves m loader ⟨p, s, .finished result⟩ w next w') :
    next = ⟨p, s, .finished result⟩ ∧ w' = w := by
  cases moves with
  | callFailed asks failed => simp [Phase.request?] at asks
  | stay => exact ⟨rfl, rfl⟩

/-! ## Runs -/

theorem steps_succ (n : Nat) (i : Inflation) (w : World) : steps m loader (n + 1) i w =
    steps m loader n (i.step m loader w).1 (i.step m loader w).2 :=
  rfl

theorem steps_succ_last (n : Nat) (i : Inflation) (w : World) : steps m loader (n + 1) i w =
    (steps m loader n i w).1.step m loader (steps m loader n i w).2 := by
  induction n generalizing i w with
  | zero => rfl
  | succ n ih => rw [steps_succ, ih, ← steps_succ]

theorem steps_add (k n : Nat) (i : Inflation) (w : World) : steps m loader (k + n) i w =
    steps m loader n (steps m loader k i w).1 (steps m loader k i w).2 := by
  induction n with
  | zero => rfl
  | succ n ih => rw [← Nat.add_assoc, steps_succ_last, ih, ← steps_succ_last]

theorem steps_finished (n : Nat) {i : Inflation} {w : World}
    {result : Except InflationError Resources} (finished : i.phase = .finished result) :
    steps m loader n i w = (i, w) := by
  obtain ⟨p, s, phase⟩ := i
  obtain rfl : phase = .finished result := finished
  induction n with
  | zero => rfl
  | succ n ih => rw [steps_succ_last, ih, step_of_moves .stay]

/-- What each step keeps, every run keeps. -/
theorem steps_keep {Kept : Inflation → World → Prop}
    (step : ∀ {i w i' w'}, Moves m loader i w i' w' → Kept i w → Kept i' w') (n : Nat)
    {i : Inflation} {w : World} (start : Kept i w) :
    Kept (steps m loader n i w).1 (steps m loader n i w).2 := by
  induction n generalizing i w with
  | zero => exact start
  | succ n ih =>
      rw [steps_succ]
      exact ih (step (step_moves rfl) start)

theorem left_of_moves {i i' : Inflation} {w w' : World} (moves : Moves m loader i w i' w') :
    i'.phase.left ≤ i.phase.left - 1 := by
  cases moves with
  | @callFailed p s phase w w' scratch arguments e asks failed =>
      cases phase <;> simp [Phase.request?, Phase.left] at asks ⊢
  | _ => simp [Phase.left]

theorem left_of_steps (n : Nat) (i : Inflation) (w : World) :
    (steps m loader n i w).1.phase.left ≤ i.phase.left - n := by
  induction n generalizing i w with
  | zero => exact Nat.le_refl _
  | succ n ih =>
      have nearer : (i.step m loader w).1.phase.left ≤ i.phase.left - 1 :=
        left_of_moves (step_moves rfl)
      have rest := ih (i.step m loader w).1 (i.step m loader w).2
      rw [steps_succ]
      omega

variable (m loader) in
theorem generate_finished (i : Inflation) (w : World) :
    ∃ result, (i.generate m loader w).1.phase = .finished result := by
  have nothingLeft : (i.generate m loader w).1.phase.left ≤ 0 :=
    left_of_steps 7 (i.goTo .start) w
  cases phase : (i.generate m loader w).1.phase with
  | finished result => exact ⟨result, rfl⟩
  | _ => simp [phase, Phase.left] at nothingLeft

theorem generate_of_steps {n : Nat} {i i' : Inflation} {w w' : World}
    {result : Except InflationError Resources} (run : steps m loader n (i.goTo .start) w = (i', w'))
    (finished : i'.phase = .finished result) : i.generate m loader w = (i', w') := by
  obtain ⟨last, ended⟩ := generate_finished m loader i w
  have onward : steps m loader (7 + n) (i.goTo .start) w = _ := steps_add 7 n (i.goTo .start) w
  rw [Nat.add_comm, steps_add, run, steps_finished 7 finished] at onward
  exact (onward.trans (steps_finished n ended)).symm

theorem generate_keeps {Kept : Inflation → World → Prop}
    (step : ∀ {i w i' w'}, Moves m loader i w i' w' → Kept i w → Kept i' w')
    {i : Inflation} {w : World} (start : Kept (i.goTo .start) w) :
    Kept (i.generate m loader w).1 (i.generate m loader w).2 :=
  steps_keep step 7 start

end Moves

end Inflation

end ChartInflation
