import ChartInflation.CommandLine.Run
import ChartInflation.Proofs.Inflation.ScratchNames

/-!
# Uses of scratch directories

A program has any number of scratches, which it asks for their directories, releases, drops and
replaces, and gives to inflations, in any order (`Use`).  Whatever the use, a scratch is asked or
released, or a program is called or a file written in between (`Event`), so what each of these keeps
is kept by every use (`use_keeps`).
-/

set_option autoImplicit false

namespace ChartInflation

/-- Whether an inflation is between the making of its scratch directory and its removal. -/
def Phase.IsInside : Phase → Prop
  | .checkVersion _ | .lookUp _ | .pull _ | .writeValues _ | .render _ _ => True
  | .start | .release _ | .finished _ => False

namespace Scratch

open Function (update)

/-! ## Uses -/

/-- A use of the scratches of a program, which are told apart by numbers. -/
inductive Use where
  | ask (k : Nat)
  | release (k : Nat)
  /-- Drops a scratch, which removes its directory, and puts a new one in its place. -/
  | replace (k : Nat)
  | generate (k : Nat) (p : Parameters) (loader : Loader)
  | checkVersion (env : CommandLine.Environment) (command : String)

def Use.GivesUp (k : Nat) : Use → Prop
  | .release j | .replace j | .generate j _ _ => j = k
  | .ask _ | .checkVersion _ _ => False

structure Program where
  scratch : Nat → Scratch
  world : World

namespace Program

def start (w : World) : Program :=
  ⟨fun _ => .new, w⟩

def answer (m : Machine) (now : Program) (k : Nat) : Except FileError Path :=
  ((now.scratch k).path m now.world).1

def use (m : Machine) (now : Program) : Use → Program
  | .ask k =>
    let (_, s, w) := (now.scratch k).path m now.world
    ⟨update now.scratch k s, w⟩
  | .release k =>
    let (s, w) := (now.scratch k).release m now.world
    ⟨update now.scratch k s, w⟩
  | .replace k => ⟨update now.scratch k .new, ((now.scratch k).release m now.world).2⟩
  | .generate k p loader =>
    let (i, w) := Inflation.generate m loader ⟨p, now.scratch k, .start⟩ now.world
    ⟨update now.scratch k i.scratch, w⟩
  | .checkVersion env command =>
    ⟨now.scratch, (CommandLine.runCheckVersion m env command now.world).2⟩

def after (m : Machine) (now : Program) (uses : List Use) : Program :=
  uses.foldl (use m) now

end Program

/-! ## What happens to a scratch -/

/-- A change of the world between the uses of a scratch: a call of a program, a file that is
written, or none. -/
inductive Work (m : Machine) (w w' : World) : Prop where
  | call (c : Call) (made : w' = (m.perform c w).2)
  | write (path : Path) (content : Bytes) {files : FileSystem}
      (written : w.files.write m.directory path content = .ok files)
      (put : w' = { w with files := files })
  | none (same : w' = w)

inductive Event (m : Machine) (s : Scratch) (w : World) (s' : Scratch) (w' : World) : Prop where
  | ask (result : Except FileError Path) (asked : s.path m w = (result, s', w'))
  | release (released : s.release m w = (s', w'))
  | work (same : s' = s) (does : Work m w w')

inductive Turn (m : Machine) (i : Inflation) (w : World) (i' : Inflation) (w' : World) : Prop where
  | make {d : Path} (begins : i.phase = .start)
      (asked : i.scratch.path m w = (.ok d, i'.scratch, w')) (next : i'.phase.IsInside)
  | fail {e : FileError} {result : Except InflationError Resources} (begins : i.phase = .start)
      (asked : i.scratch.path m w = (.error e, i'.scratch, w'))
      (next : i'.phase = .release result)
  | work (inside : i.phase.IsInside) (same : i'.scratch = i.scratch) (does : Work m w w')
      (next : i'.phase.IsInside ∨ ∃ result, i'.phase = .release result)
  | release {result : Except InflationError Resources} (ends : i.phase = .release result)
      (released : i.scratch.release m w = (i'.scratch, w')) (next : i'.phase = .finished result)
  | stay {result : Except InflationError Resources} (isFinished : i.phase = .finished result)
      (same : i' = i) (unchanged : w' = w)

variable {m : Machine} {w w' : World}

theorem work_of_run {r : Renderer} {arguments : List String}
    {result : Except InflationError Printed} (run : r.run m arguments w = (result, w')) :
    Work m w w' := by
  rcases Renderer.run_cases run with ⟨_, same⟩ | ⟨outcome, files, called, _, rfl⟩
  · exact .none same
  · exact .call (r.call arguments) (by simp only [Machine.perform, called])

theorem drawn_of_work (work : Work m w w') : w'.drawn = w.drawn := by
  cases work with
  | call c made => rw [made, Machine.perform]
  | write path content written put => rw [put]
  | none same => rw [same]

theorem turn_of_moves {loader : Loader} {i i' : Inflation}
    (moves : Inflation.Moves m loader i w i' w') : Turn m i w i' w' := by
  cases moves with
  | makeScratch made => exact .make rfl made trivial
  | noScratch failed => exact .fail rfl failed rfl
  | @callFailed p s phase w w' scratch arguments e asks failed =>
      have inside : phase.IsInside := by
        cases phase <;> simp [Phase.request?, Phase.IsInside] at asks ⊢
      exact .work inside rfl (work_of_run failed) (Or.inr ⟨_, rfl⟩)
  | acceptVersion called accepted =>
      exact .work trivial rfl (work_of_run called) (Or.inl trivial)
  | refuseVersion called refused =>
      exact .work trivial rfl (work_of_run called) (Or.inr ⟨_, rfl⟩)
  | findChart present => exact .work trivial rfl (.none rfl) (Or.inl trivial)
  | missChart absent known => exact .work trivial rfl (.none rfl) (Or.inl trivial)
  | noChart absent unknown => exact .work trivial rfl (.none rfl) (Or.inr ⟨_, rfl⟩)
  | pull pulled => exact .work trivial rfl (work_of_run pulled) (Or.inl trivial)
  | writeValues written =>
      obtain ⟨_, bytes, _, put⟩ := ValuesSource.write_eq_ok_iff.mp written
      exact .work trivial rfl (.write _ bytes put rfl) (Or.inl trivial)
  | failValues failed =>
      obtain rfl := (ValuesSource.write_eq_error_iff.mp failed).1
      exact .work trivial rfl (.none rfl) (Or.inr ⟨_, rfl⟩)
  | render rendered => exact .work trivial rfl (work_of_run rendered) (Or.inr ⟨_, rfl⟩)
  | release released => exact .release rfl released rfl
  | stay => exact .stay rfl rfl rfl

theorem Turn.event {i i' : Inflation} (turn : Turn m i w i' w') :
    Event m i.scratch w i'.scratch w' := by
  cases turn with
  | make _ asked => exact .ask _ asked
  | fail _ asked => exact .ask _ asked
  | work _ same does => exact .work same does
  | release _ released => exact .release released
  | stay _ same unchanged => exact .work (by rw [same]) (.none unchanged)

theorem work_of_checkVersion {r : Renderer} {result : Except InflationError String}
    (checked : r.checkVersion m w = (result, w')) : Work m w w' := by
  rcases run : r.run m Renderer.versionArguments w with ⟨printed, after⟩
  rw [Renderer.checkVersion, run] at checked
  exact (Prod.mk.inj checked).2 ▸ work_of_run run

theorem runCheckVersion_cases {env : CommandLine.Environment} {command : String}
    {ending : CommandLine.Ending}
    (ran : CommandLine.runCheckVersion m env command w = (ending, w')) :
    (∃ e s, Scratch.new.path m w = (.error e, s, w')) ∨
      ∃ d s w₁ w₂ s', Scratch.new.path m w = (.ok d, s, w₁) ∧ Work m w₁ w₂ ∧
        s.release m w₂ = (s', w') := by
  unfold CommandLine.runCheckVersion at ran
  split at ran
  next e s w₁ asked =>
    obtain ⟨_, rfl⟩ := Prod.mk.inj ran
    exact Or.inl ⟨e, s, asked⟩
  next d s w₁ asked =>
    rcases checked : Renderer.checkVersion m ⟨command, d.joinName "helm"⟩ w₁ with ⟨result, w₂⟩
    rcases released : s.release m w₂ with ⟨s', w₃⟩
    have last : w₃ = w' := by
      simp only [checked, released] at ran
      split at ran
      · exact (Prod.mk.inj ran).2
      · exact (Prod.mk.inj ran).2
    exact Or.inr ⟨d, s, w₁, w₂, s', asked, work_of_checkVersion checked, last ▸ released⟩

theorem release_new {s s' : Scratch} (released : s.release m w = (s', w')) : s' = .new :=
  congrArg Scratch.mk (release_cases released).1

/-! ## What each event keeps -/

namespace Program

def withMore (now : Program) (more : Scratch) : Option Nat → Scratch
  | none => more
  | some k => now.scratch k

theorem update_some (now : Program) (more : Scratch) (k : Nat) (s : Scratch) (w : World) :
    update (now.withMore more) (some k) s =
      withMore ⟨update now.scratch k s, w⟩ more := by
  funext j
  cases j with
  | none => simp [withMore]
  | some j => by_cases same : j = k <;> simp [withMore, same]

theorem update_none (now : Program) (more s : Scratch) :
    update (now.withMore more) none s = now.withMore s := by
  funext j
  cases j with
  | none => simp [withMore]
  | some j => simp [withMore]

/-- What holds of the scratches, one more that is used in passing, and the world, is kept by each
use if it is by each event. -/
theorem use_keeps {Kept : (Option Nat → Scratch) → World → Prop}
    (event : ∀ (slots : Option Nat → Scratch) (k : Option Nat) {s' : Scratch} {w w' : World},
      Event m (slots k) w s' w' → Kept slots w → Kept (update slots k s') w')
    (u : Use) {now : Program} (kept : Kept (now.withMore .new) now.world) :
    Kept ((now.use m u).withMore .new) (now.use m u).world := by
  cases u with
  | ask k =>
      rcases asked : (now.scratch k).path m now.world with ⟨answer, s, w⟩
      simp only [use, asked, ← update_some]
      exact event _ (some k) (.ask _ asked) kept
  | release k =>
      rcases released : (now.scratch k).release m now.world with ⟨s, w⟩
      simp only [use, released, ← update_some]
      exact event _ (some k) (.release released) kept
  | replace k =>
      rcases released : (now.scratch k).release m now.world with ⟨s, w⟩
      simp only [use, released, ← update_some]
      obtain rfl := release_new released
      exact event _ (some k) (.release released) kept
  | generate k p loader =>
      simp only [use, ← update_some]
      refine @Inflation.generate_keeps m loader
        (fun i w => Kept (update (now.withMore .new) (some k) i.scratch) w) ?_ _ _ ?_
      · intro i w i' w' moves kept
        have does := (turn_of_moves moves).event
        have next := event (update (now.withMore .new) (some k) i.scratch) (some k)
          (by rwa [Function.update_self]) kept
        rwa [Function.update_idem] at next
      · have same : update (now.withMore .new) (some k) (now.scratch k) = now.withMore .new :=
          Function.update_eq_self (some k) (now.withMore .new)
        simp only [Inflation.goTo, same]
        exact kept
  | checkVersion env command =>
      rcases ran : CommandLine.runCheckVersion m env command now.world with ⟨ending, w⟩
      simp only [use, ran]
      rcases runCheckVersion_cases ran with
        ⟨e, s, asked⟩ | ⟨d, s, w₁, w₂, s', asked, work, released⟩
      · obtain ⟨_, ⟨_, same, _⟩ | ⟨_, isOk, _⟩⟩ := path_of_none rfl asked
        · have kept₁ := event (now.withMore .new) none (.ask _ asked) kept
          rw [same, update_none] at kept₁
          exact kept₁
        · cases isOk
      · -- a check of the version makes a directory of its own, works in it and gives it up
        have kept₁ := event (now.withMore .new) none (.ask _ asked) kept
        rw [update_none] at kept₁
        have kept₂ := event (now.withMore s) none (.work rfl work) kept₁
        rw [update_none] at kept₂
        have kept₃ := event (now.withMore s) none (.release released) kept₂
        rw [update_none, release_new released] at kept₃
        exact kept₃

theorem after_keeps {Kept : Program → Prop} (step : ∀ now u, Kept now → Kept (now.use m u))
    {now : Program} (start : Kept now) (uses : List Use) : Kept (now.after m uses) := by
  induction uses generalizing now with
  | nil => exact start
  | cons u uses ih => exact ih (step now u start)

end Program

end Scratch

end ChartInflation
