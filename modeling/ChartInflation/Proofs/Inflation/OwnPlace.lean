import ChartInflation.Proofs.Inflation.Course
import ChartInflation.Proofs.Inflation.ScratchUses
import ChartInflation.Proofs.Inflation.Twin

/-!
# An inflation at its own place

What an inflation does alone it does among others: it begins so, under a name that no other one has
(`begin_alike`), and each further step changes nothing outside of its scratch directory and leads to
the same (`step_alike`).  It takes that the inflation has nothing to do with the scratch directories
of others (`Independent`).
-/

set_option autoImplicit false

namespace ChartInflation

open FileSystem (Alike IsEntryName)
open Scratch (pathOf MayStand SameOutside Steady)
open ValuesSource (target)

namespace Inflation

-- no names are to be drawn while statements are compared
attribute [local irreducible] Scratch.create Scratch.pathOf

def valuesName (i : Inflation) : String :=
  i.parameters.chart.name ++ "-helmgen-values.yaml"

/-- An inflation that has nothing to do with the scratch directories of others: its chart is local
and named by one name, the renderer's home is in its own scratch directory, and what it loads and
names is the same whatever comes to stand in scratch directories. -/
structure Independent (m : Machine) (loader : Loader) (start : FileSystem)
    (named : Call → List Path) (i : Inflation) : Prop where
  unowned : i.scratch = .new
  ownHome : i.parameters.configHome = none
  oneName : '/' ∉ i.parameters.chart.name.toList
  isLocal : start.isDirectory m.directory i.parameters.chart.directory
  loads : ∀ fs, SameOutside m start fs →
    loader.load fs i.parameters.values.file = loader.load start i.parameters.values.file
  asks : ∀ n, ∀ path ∈ named (versionCall i (pathOf m n)), Steady m start path
  renders : ∀ n, ∀ path ∈ named (renderCall i (pathOf m n)
      (target (pathOf m n) i.parameters.chart.name)),
    path = target (pathOf m n) i.parameters.chart.name ∨ Steady m start path

/-! ## Steps -/

section Steps
variable {m : Machine} {loader : Loader} {named : Call → List Path} {i now next : Inflation}
  {start alone shared : FileSystem} {n : Nat} {place : Location}

def Knows (m : Machine) (loader : Loader) (i : Inflation) (start : FileSystem) (n : Nat)
    (place : Location) (now : Inflation) (alone : FileSystem) : Prop :=
  match now.phase with
  | .checkVersion d | .lookUp d | .writeValues d =>
    d = pathOf m n ∧ now.parameters = i.parameters ∧ alone.entry? (place ++ [i.valuesName]) = none
  | .render d file =>
    d = pathOf m n ∧ file = target (pathOf m n) i.parameters.chart.name ∧
    renderer now.parameters d = renderer i.parameters d ∧
    templateArguments now.parameters file = templateArguments i.parameters file ∧
    (∀ target, alone.entry? (place ++ [i.valuesName]) ≠ some (.link target)) ∧
    ∃ bytes, i.parameters.values.content loader start = .ok (bytes, now.parameters.values) ∧
      alone.read m.directory file = .ok bytes
  | .release _ => True
  | .start | .pull _ | .finished _ => False

/-- An inflation has a scratch directory, alone and among others. -/
structure Occupies (m : Machine) (loader : Loader) (i : Inflation) (start : FileSystem) (n : Nat)
    (place : Location) (now : Inflation) (alone shared : FileSystem) : Prop where
  twin : Twin m start n place alone shared
  owned : now.scratch.directory = some (pathOf m n)
  knows : Knows m loader i start n place now alone

structure Retired (now : Inflation) : Prop where
  unowned : now.scratch = .new
  ended : ∃ result, now.phase = .release result ∨ now.phase = .finished result

theorem Independent.isEntryName (independent : Independent m loader start named i) :
    IsEntryName i.valuesName := by
  have text : i.valuesName.toList =
      i.parameters.chart.name.toList ++ "-helmgen-values.yaml".toList := by
    simp [valuesName]
  have long : 3 ≤ i.valuesName.toList.length := by
    rw [text, List.length_append]
    exact Nat.le_trans (by decide) (Nat.le_add_left _ _)
  refine ⟨by simp [text], ?_, ?_, ?_⟩
  · rw [text, List.mem_append, not_or]
    exact ⟨independent.oneName, by decide⟩
  · intro same
    simp [same] at long
  · intro same
    simp [same] at long

theorem Independent.home (independent : Independent m loader start named i) :
    (renderer i.parameters (pathOf m n)).home = (pathOf m n).joinName "helm" := by
  simp [renderer, Inflation.home, independent.ownHome]

theorem Independent.content (independent : Independent m loader start named i) {fs : FileSystem}
    (outside : SameOutside m start fs) :
    i.parameters.values.content loader fs = i.parameters.values.content loader start :=
  ValuesSource.content_congr (independent.loads fs outside)

/-- The values file stands beside the renderer's home. -/
theorem valuesName_outside_home (place : Location) (i : Inflation) :
    ¬ place ++ ["helm"] <+: place ++ [i.valuesName] := by
  rw [List.prefix_append_right_inj]
  intro same
  have sameName : "helm" = i.valuesName := by simpa using same
  have length := congrArg (fun s => s.toList.length) sameName
  have text : i.valuesName.toList.length = i.parameters.chart.name.toList.length + 20 := by
    simp [valuesName]
  simp [text] at length

variable {a a' w : World}

/-- A call that the inflation makes yields the same among others, and leaves the values file. -/
theorem call_alike (keeps : m.KeepsToItself named) (tree : start.IsTree)
    (independent : Independent m loader start named i) (outside : SameOutside m start w.files)
    (twin : Twin m start n place a.files w.files) {arguments : List String}
    (asks : ∀ path ∈ named ((renderer i.parameters (pathOf m n)).call arguments),
      Alike true m.directory path a.files w.files)
    {result : Except InflationError Printed}
    (run : (renderer i.parameters (pathOf m n)).run m arguments a = (result, a')) :
    ∃ w', (renderer i.parameters (pathOf m n)).run m arguments w = (result, w') ∧
      w'.drawn = w.drawn ∧ Twin m start n place a'.files w'.files ∧
      a'.files.entry? (place ++ [i.valuesName]) = a.files.entry? (place ++ [i.valuesName]) ∧
      ∀ l, ¬ place <+: l → w'.files.entry? l = w.files.entry? l := by
  obtain ⟨w', run', drawn, twin', elsewhere, elsewhere'⟩ :=
    run_alike keeps tree outside twin independent.home asks run
  refine ⟨w', run', drawn, twin', elsewhere _ (valuesName_outside_home place i), ?_⟩
  exact fun l outside => elsewhere' l fun below =>
    outside ((List.prefix_append place ["helm"]).trans below)

structure After (m : Machine) (loader : Loader) (i : Inflation) (start : FileSystem) (n : Nat)
    (place : Location) (next : Inflation) (alone : FileSystem) (w w' : World) : Prop where
  drawn : w'.drawn = w.drawn
  elsewhere : ∀ l, ¬ place <+: l → w'.files.entry? l = w.files.entry? l
  goes : Occupies m loader i start n place next alone w'.files ∨
    Retired next ∧ ∀ l, place <+: l → w'.files.entry? l = none

theorem Occupies.home (independent : Independent m loader start named i)
    (occupies : Occupies m loader i start n place now alone shared) {d : Path}
    {arguments : List String} (asks : now.phase.request? now.parameters = some (d, arguments)) :
    d = pathOf m n ∧ (renderer now.parameters d).home = (pathOf m n).joinName "helm" := by
  obtain ⟨_, _, knows⟩ := occupies
  obtain ⟨p, s, phase⟩ := now
  cases phase with
  | checkVersion scratch =>
      obtain ⟨rfl, _⟩ := Prod.mk.inj (Option.some.inj asks)
      obtain ⟨rfl, rfl, _⟩ := knows
      exact ⟨rfl, independent.home⟩
  | render scratch file =>
      obtain ⟨rfl, _⟩ := Prod.mk.inj (Option.some.inj asks)
      obtain ⟨rfl, _, sameRenderer, _⟩ := knows
      exact ⟨rfl, (congrArg Renderer.home sameRenderer).trans independent.home⟩
  | pull scratch => exact knows.elim
  | _ => simp [Phase.request?] at asks

/-- When it is to render, its values file holds what it wrote. -/
theorem Occupies.values (tree : start.IsTree) (outside : SameOutside m start shared)
    (independent : Independent m loader start named i)
    (occupies : Occupies m loader i start n place now alone shared) {d file : Path}
    (phase : now.phase = .render d file) :
    file = target (pathOf m n) i.parameters.chart.name ∧
      ∃ bytes, i.parameters.values.content loader start = .ok (bytes, now.parameters.values) ∧
        shared.read m.directory file = .ok bytes := by
  obtain ⟨twin, _, knows⟩ := occupies
  rw [Knows, phase] at knows
  obtain ⟨_, rfl, _, _, noLink, bytes, made, isRead⟩ := knows
  have alike : Alike true m.directory (target (pathOf m n) i.parameters.chart.name) alone shared :=
    twin.alike tree outside independent.isEntryName fun _ => noLink
  exact ⟨rfl, bytes, made, alike.read.trans isRead⟩

theorem Independent.version_alike (independent : Independent m loader start named i)
    (outside : SameOutside m start shared) (twin : Twin m start n place alone shared) :
    ∀ path ∈ named (versionCall i (pathOf m n)), Alike true m.directory path alone shared :=
  fun path member => twin.steady outside (independent.asks n path member)

theorem Independent.render_alike (tree : start.IsTree)
    (independent : Independent m loader start named i) (outside : SameOutside m start shared)
    (twin : Twin m start n place alone shared)
    (noLink : ∀ target, alone.entry? (place ++ [i.valuesName]) ≠ some (.link target)) :
    ∀ path ∈ named (renderCall i (pathOf m n) (target (pathOf m n) i.parameters.chart.name)),
      Alike true m.directory path alone shared := by
  intro path member
  rcases independent.renders n path member with rfl | steady
  · exact twin.alike tree outside independent.isEntryName fun _ => noLink
  · exact twin.steady outside steady

theorem Independent.present (tree : start.IsTree)
    (independent : Independent m loader start named i) (same : SameOutside m start shared) :
    shared.isDirectory m.directory i.parameters.chart.directory :=
  FileSystem.isDirectory_of_isPart (same.isPart tree) independent.isLocal

section ValuesFile
variable {values : ValuesSource} {alone' : FileSystem} (tree : start.IsTree)
  (independent : Independent m loader start named i) (outside : SameOutside m start shared)
  (twin : Twin m start n place alone shared)
  (nothing : alone.entry? (place ++ [i.valuesName]) = none)
include tree independent outside twin nothing

/-- The values file that is written alone is written among others, and is no link. -/
theorem write_alike {file : Path}
    (written : i.parameters.values.write i.parameters.chart.name loader m.directory (pathOf m n)
      alone = (.ok file, values, alone')) :
    file = target (pathOf m n) i.parameters.chart.name ∧
    (∃ shared', i.parameters.values.write i.parameters.chart.name loader m.directory (pathOf m n)
        shared = (.ok file, values, shared') ∧ Twin m start n place alone' shared' ∧
      ∀ l, ¬ place <+: l → shared'.entry? l = shared.entry? l) ∧
    (∀ target, alone'.entry? (place ++ [i.valuesName]) ≠ some (.link target)) ∧
    ∃ bytes, i.parameters.values.content loader start = .ok (bytes, values) ∧
      alone'.read m.directory file = .ok bytes := by
  obtain ⟨rfl, bytes, made, put⟩ := ValuesSource.write_eq_ok_iff.mp written
  rw [independent.content twin.sameOutside] at made
  rcases twin.write tree outside independent.isEntryName nothing bytes with
    ⟨e, refused, _⟩ | ⟨alone'', shared', put', putShared, twin', noLink, elsewhere⟩
  · cases refused.symm.trans put
  · obtain rfl := Except.ok.inj (put'.symm.trans put)
    have madeShared := (independent.content outside).trans made
    exact ⟨rfl, ⟨shared', ValuesSource.write_eq_ok_iff.mpr ⟨rfl, bytes, madeShared, putShared⟩, twin',
      elsewhere⟩, noLink, bytes, made, (FileSystem.write_spec put).1⟩

theorem failed_write_alike {e : InflationError}
    (failed : i.parameters.values.write i.parameters.chart.name loader m.directory (pathOf m n)
      alone = (.error e, values, alone')) :
    alone' = alone ∧
    i.parameters.values.write i.parameters.chart.name loader m.directory (pathOf m n) shared =
      (.error e, values, shared) := by
  obtain ⟨rfl, cause⟩ := ValuesSource.write_eq_error_iff.mp failed
  rw [independent.content twin.sameOutside, ← independent.content outside] at cause
  refine ⟨rfl, ValuesSource.write_eq_error_iff.mpr ⟨rfl, cause.imp_right ?_⟩⟩
  rintro ⟨bytes, cause, made, unwritten, isError⟩
  rcases twin.write tree outside independent.isEntryName nothing bytes with
    ⟨e, refused, refusedShared⟩ | ⟨_, _, put, _⟩
  · obtain rfl := Except.error.inj (refused.symm.trans unwritten)
    exact ⟨bytes, _, made, refusedShared, isError⟩
  · cases put.symm.trans unwritten

end ValuesFile

/-- What an inflation with a scratch directory does alone, it does among others. -/
theorem step_alike (keeps : m.KeepsToItself named) (tree : start.IsTree)
    (independent : Independent m loader start named i) (outside : SameOutside m start w.files)
    (occupies : Occupies m loader i start n place now a.files w.files)
    (moves : Moves m loader now a next a') :
    ∃ w', Moves m loader now w next w' ∧ After m loader i start n place next a'.files w w' := by
  obtain ⟨twin, owned, knows⟩ := occupies
  -- what a call of this inflation reads is the same alone and among others
  have versionAlike := independent.version_alike outside twin
  have renderAlike := independent.render_alike tree outside twin
  cases moves with
  | makeScratch made => exact knows.elim
  | noScratch failed => exact knows.elim
  | @callFailed p s phase a a' d arguments e asks failed =>
      cases phase with
      | checkVersion scratch =>
          obtain ⟨rfl, rfl⟩ := Prod.mk.inj (Option.some.inj asks)
          obtain ⟨rfl, rfl, _⟩ := knows
          obtain ⟨w', run, drawn, twin', _, elsewhere⟩ :=
            call_alike keeps tree independent outside twin versionAlike failed
          exact ⟨w', .callFailed rfl run, drawn, elsewhere, .inl ⟨twin', owned, trivial⟩⟩
      | render scratch file =>
          obtain ⟨rfl, rfl⟩ := Prod.mk.inj (Option.some.inj asks)
          obtain ⟨rfl, rfl, sameRenderer, sameArguments, noLink, _⟩ := knows
          rw [sameRenderer, sameArguments] at failed
          obtain ⟨w', run, drawn, twin', _, elsewhere⟩ :=
            call_alike keeps tree independent outside twin (renderAlike noLink) failed
          rw [← sameRenderer, ← sameArguments] at run
          exact ⟨w', .callFailed rfl run, drawn, elsewhere, .inl ⟨twin', owned, trivial⟩⟩
      | pull scratch => exact knows.elim
      | _ => simp [Phase.request?] at asks
  | @acceptVersion p s a a' d printed version called accepted =>
      obtain ⟨rfl, rfl, nothing⟩ := knows
      obtain ⟨w', run, drawn, twin', values, elsewhere⟩ :=
        call_alike keeps tree independent outside twin versionAlike called
      exact ⟨w', .acceptVersion run accepted, drawn, elsewhere,
        .inl ⟨twin', owned, rfl, rfl, values.trans nothing⟩⟩
  | @refuseVersion p s a a' d printed e called refused =>
      obtain ⟨rfl, rfl, nothing⟩ := knows
      obtain ⟨w', run, drawn, twin', values, elsewhere⟩ :=
        call_alike keeps tree independent outside twin versionAlike called
      exact ⟨w', .refuseVersion run refused, drawn, elsewhere, .inl ⟨twin', owned, trivial⟩⟩
  | findChart _ =>
      obtain ⟨rfl, rfl, nothing⟩ := knows
      exact ⟨w, .findChart (independent.present tree outside), rfl, fun _ _ => rfl,
        .inl ⟨twin, owned, rfl, rfl, nothing⟩⟩
  | missChart absent known =>
      obtain ⟨rfl, rfl, nothing⟩ := knows
      simp [independent.present tree twin.sameOutside] at absent
  | noChart absent unknown =>
      obtain ⟨rfl, rfl, nothing⟩ := knows
      simp [independent.present tree twin.sameOutside] at absent
  | pull pulled => exact knows.elim
  | @writeValues p s a d file values files written =>
      obtain ⟨rfl, rfl, nothing⟩ := knows
      have sameFiles := additionalFiles_of_write written
      obtain ⟨rfl, ⟨shared', writtenShared, twin', elsewhere⟩, noLink, bytes, made, isRead⟩ :=
        write_alike tree independent outside twin nothing written
      refine ⟨{ w with files := shared' }, .writeValues writtenShared, rfl, elsewhere,
        .inl ⟨twin', owned, rfl, rfl, rfl, ?_, noLink, bytes, made, isRead⟩⟩
      simp only [templateArguments, sameFiles]
  | @failValues p s a d values files e failed =>
      obtain ⟨rfl, rfl, nothing⟩ := knows
      obtain ⟨rfl, failedShared⟩ :=
        failed_write_alike tree independent outside twin nothing failed
      exact ⟨w, .failValues failedShared, rfl, fun _ _ => rfl, .inl ⟨twin, owned, trivial⟩⟩
  | @render p s a a' d file printed rendered =>
      obtain ⟨rfl, rfl, sameRenderer, sameArguments, noLink, _⟩ := knows
      rw [sameRenderer, sameArguments] at rendered
      obtain ⟨w', run, drawn, twin', _, elsewhere⟩ :=
        call_alike keeps tree independent outside twin (renderAlike noLink) rendered
      rw [← sameRenderer, ← sameArguments] at run
      exact ⟨w', .render run, drawn, elsewhere, .inl ⟨twin', owned, trivial⟩⟩
  | release released =>
      obtain ⟨found, foundShared⟩ := twin.found tree outside
      rw [Scratch.release_of_found owned found] at released
      obtain ⟨rfl, rfl⟩ := Prod.mk.inj released
      have notRoot := twin.may.vacant.notRoot
      refine ⟨_, .release (Scratch.release_of_found owned foundShared), rfl, fun l outside => ?_,
        .inr ⟨⟨rfl, _, .inr rfl⟩, fun l below => ?_⟩⟩
      · rw [FileSystem.entry?_removeTree _ notRoot, if_neg outside]
      · rw [FileSystem.entry?_removeTree _ notRoot, if_pos below]
  | stay => exact knows.elim

end Steps

/-! ## One step among others -/

section Moved
variable {m : Machine} {loader : Loader} {named : Call → List Path} {i now next : Inflation}
  {start files files' : FileSystem} {n : Nat}

/-- What a step of one inflation comes to among the others: it changes nothing but what is at its
place, or nothing at all. -/
inductive Moved (m : Machine) (loader : Loader) (i : Inflation) (start : FileSystem) (n : Nat)
    (now next : Inflation) (alone files files' : FileSystem) : Prop where
  | at (place : Location) (may : MayStand m start n place)
      (elsewhere : ∀ l, ¬ place <+: l → files'.entry? l = files.entry? l)
      (goes : Occupies m loader i start n place next alone files' ∨
        Retired next ∧ ∀ l, place <+: l → files'.entry? l = none)
  | nowhere (unowned : now.scratch.directory = none) (retired : Retired next)
      (same : files' = files)

/-- Who has no scratch directory any more does nothing to the world, whichever it is. -/
theorem moves_of_retired {a a' : World} (retired : Retired now)
    (moves : Moves m loader now a next a') :
    Retired next ∧ ∀ w, Moves m loader now w next w := by
  obtain ⟨unowned, result, ended⟩ := retired
  obtain ⟨p, s, phase⟩ := now
  obtain rfl : s = .new := unowned
  rcases ended with rfl | rfl
  · cases moves with
    | callFailed asks failed => simp [Phase.request?] at asks
    | release released =>
        obtain ⟨rfl, rfl⟩ := Prod.mk.inj released
        exact ⟨⟨rfl, result, .inr rfl⟩, fun w => .release rfl⟩
  · obtain ⟨rfl, rfl⟩ := moves_of_finished moves
    exact ⟨⟨rfl, result, .inr rfl⟩, fun w => .stay⟩

section Begin
variable {w v v' : World} (tree : w.files.IsTree) (outside : SameOutside m w.files v.files)
  (free : ∀ n place, v.drawn ≤ n → n < v'.drawn → MayStand m w.files n place →
    ∀ l, place <+: l → v.files.entry? l = none)
include tree outside free

theorem resolve_drawn {n : Nat} (notBefore : v.drawn ≤ n) (inside : n < v'.drawn) :
    v.files.resolve false m.directory (pathOf m n) =
      w.files.resolve false m.directory (pathOf m n) :=
  Scratch.resolve_free tree outside fun place may =>
    free n place notBefore inside may place List.prefix_rfl

theorem scratch_made_alike {d : Path} {s : Scratch} (made : Scratch.new.path m v = (.ok d, s, v')) :
    ∃ n place, v.drawn ≤ n ∧ n < v'.drawn ∧ MayStand m w.files n place ∧
      d = pathOf m n ∧ s = ⟨some (pathOf m n)⟩ ∧ v'.files = v.files.put place .directory ∧
      Scratch.new.path m { w with drawn := n } = (.ok (pathOf m n), ⟨some (pathOf m n)⟩,
        { w with files := w.files.put place .directory, drawn := n + 1 }) := by
  rcases Scratch.asked_cases made with
    ⟨_, owned, _⟩ | ⟨_, ⟨⟨_, isError⟩, _⟩ | ⟨n, notBefore, last, isOk, rfl, directory, _⟩⟩
  · cases owned
  · cases isError
  · obtain rfl := Except.ok.inj isOk
    have inside : n < v'.drawn := by omega
    obtain ⟨place, absent, isPut⟩ := FileSystem.makeDirectory_eq_ok_iff.mp directory
    have may : MayStand m w.files n place :=
      (resolve_drawn tree outside free notBefore inside).symm.trans absent
    exact ⟨n, place, notBefore, inside, may, rfl, rfl, isPut, Scratch.path_of_makeDirectory rfl
      (FileSystem.makeDirectory_eq_ok_iff.mpr ⟨place, may, rfl⟩)⟩

theorem scratch_missed_alike {e : FileError} {s : Scratch}
    (failed : Scratch.new.path m v = (.error e, s, v')) :
    s = .new ∧ v.drawn < v'.drawn ∧ v'.files = v.files ∧
      ∃ a', Scratch.new.path m { w with drawn := v.drawn } = (.error e, .new, a') := by
  rcases Scratch.path_cases failed with ⟨_, owned, _⟩ | ⟨_, made, ⟨_, isOk, _⟩ | ⟨_, _, rfl⟩⟩
  · cases owned
  · cases isOk
  · obtain ⟨a', failed'⟩ : ∃ a', Scratch.create m Scratch.tries { w with drawn := v.drawn } =
        (.error e, a') :=
      Scratch.create_alike (Eq.refl v.drawn)
        (fun n notBefore inside => (resolve_drawn tree outside free notBefore inside).symm) made
    have sameFiles : v'.files = v.files := by
      obtain ⟨_, _, ⟨_, files⟩ | ⟨_, _, _, isOk, _⟩⟩ := Scratch.create_cases _ made
      · exact files
      · cases isOk
    refine ⟨rfl, Scratch.drawn_of_create (by decide) made, sameFiles, a', ?_⟩
    simp only [Scratch.path, Scratch.new, failed']

/-- An inflation begins among others as it does alone if it draws the same names, or the one name
that it takes. -/
theorem begin_alike (independent : Independent m loader w.files named i)
    (moves : Moves m loader (i.goTo .start) v next v') :
    ∃ n a', v.drawn ≤ n ∧ n < v'.drawn ∧
      Moves m loader (i.goTo .start) { w with drawn := n } next a' ∧
      Moved m loader i w.files n (i.goTo .start) next a'.files v.files v'.files := by
  obtain ⟨p, s, phase⟩ := i
  obtain rfl : s = .new := independent.unowned
  cases moves with
  | makeScratch made =>
      obtain ⟨n, place, notBefore, inside, may, rfl, rfl, isPut, made'⟩ :=
        scratch_made_alike tree outside free made
      have nothing := free n place notBefore inside may
      have notRoot := may.vacant.notRoot
      refine ⟨n, _, notBefore, inside, .makeScratch made', .at place may (fun l outside => ?_)
        (.inl ⟨isPut ▸ twin_of_put tree may nothing, rfl, rfl, rfl, ?_⟩)⟩
      · rw [isPut, FileSystem.entry?_put v.files notRoot, if_neg]
        rintro rfl
        exact outside List.prefix_rfl
      · rw [FileSystem.entry?_put w.files notRoot, if_neg (by simp),
          may.nothing tree (List.prefix_append _ _)]
  | noScratch failed =>
      obtain ⟨rfl, drawn, sameFiles, a', failed'⟩ := scratch_missed_alike tree outside free failed
      exact ⟨v.drawn, a', Nat.le_refl _, drawn, .noScratch failed',
        .nowhere rfl ⟨rfl, _, .inl rfl⟩ sameFiles⟩
  | callFailed asks failed => simp [Phase.request?] at asks

end Begin

end Moved

end Inflation

end ChartInflation
