import ChartInflation.Proofs.FileSystem.Directories
import ChartInflation.Proofs.Inflation.Course

/-!
# What an inflation leaves behind

Beside what the renderer does to the files, an inflation changes only its scratch directory, which
is gone in the end (`generate_confined`).  It needs that the values file, which is named for the
chart, neither begins at the root nor goes up, and that the renderer does not redirect the way to
it.  A chart with a name such as `../web` has its values file elsewhere, where it stays
(`generate_unconfined`).
-/

set_option autoImplicit false

namespace ChartInflation

/-! ## Names -/

namespace Scratch

theorem letters_among (count n : Nat) : ∀ c ∈ letters count n, c ∈ alphabet := by
  induction count generalizing n with
  | zero => simp [letters]
  | succ count ih =>
      intro c member
      rw [letters, List.mem_append, List.mem_singleton] at member
      rcases member with earlier | rfl
      · exact ih _ c earlier
      · have inRange : n % alphabet.length < alphabet.length := Nat.mod_lt _ (by decide)
        rw [List.getD_eq_getElem?_getD, List.getElem?_eq_getElem inRange]
        exact List.getElem_mem inRange

theorem toList_nameOf (n : Nat) : (nameOf n).toList = "helmgen-helm-".toList ++ letters 6 n := by
  simp [nameOf]

theorem nameOf_not_mem {c : Char} (notInFront : c ∉ "helmgen-helm-".toList)
    (noLetter : c ∉ alphabet) (n : Nat) : c ∉ (nameOf n).toList := by
  rw [toList_nameOf, List.mem_append, not_or]
  exact ⟨notInFront, fun among => noLetter (letters_among 6 n c among)⟩

theorem nameOf_noSlash (n : Nat) : '/' ∉ (nameOf n).toList :=
  nameOf_not_mem (by decide) (by decide) n

theorem nameOf_continues (n : Nat) : Path.Continues ⟨nameOf n⟩ :=
  Path.continues_of_not_mem (by simp [toList_nameOf]) (nameOf_noSlash n)

theorem pathOf_endsInName (m : Machine) (n : Nat) : (pathOf m n).EndsInName :=
  Path.endsInName_join (nameOf_continues n)

end Scratch

namespace ValuesSource

def fileOf (chart : String) : Path := ⟨chart ++ "-helmgen-values.yaml"⟩

theorem fileOf_endsInName (chart : String) : (fileOf chart).EndsInName := by
  constructor
  · simp [fileOf]
  · simp [fileOf, Path.endsInSlash]

theorem fileOf_continues {chart : String} (below : (fileOf chart).StaysBelow) :
    (fileOf chart).Continues :=
  ⟨fileOf_endsInName chart, ((Path.staysBelow_iff _).mp below).1⟩

theorem staysBelow_fileOf {chart : String} (noSlash : '/' ∉ chart.toList) :
    (fileOf chart).StaysBelow := by
  have text : (chart ++ "-helmgen-values.yaml").toList =
      chart.toList ++ "-helmgen-values.yaml".toList := by simp
  have inhabited : (chart ++ "-helmgen-values.yaml").toList ≠ [] := by simp
  have noSlash' : '/' ∉ (chart ++ "-helmgen-values.yaml").toList := by
    rw [text, List.mem_append, not_or]
    exact ⟨noSlash, by decide⟩
  refine (Path.staysBelow_iff _).mpr
    ⟨(Path.continues_of_not_mem inhabited noSlash').relative, ?_⟩
  rw [fileOf, Path.names_of_not_mem inhabited noSlash', List.mem_singleton]
  intro up
  have length := congrArg (fun s => s.toList.length) up
  simp [text] at length

end ValuesSource

/-- Whether no call redirects the way to a file in a scratch directory: the directory's path leads
where it led, and no link is put at it or on the way below it. -/
def Machine.Spares (m : Machine) (file : Path) : Prop :=
  ∀ n place calls call fs,
    FileSystem.Leads m.directory (Scratch.pathOf m n) place file.inner fs →
    FileSystem.Leads m.directory (Scratch.pathOf m n) place file.inner (m.tool calls call fs).2

def Phase.Uses (d : Path) : Phase → Prop
  | .checkVersion scratch | .lookUp scratch | .pull scratch | .writeValues scratch => scratch = d
  | .render scratch _ => scratch = d
  | .start | .release _ => True
  | .finished _ => False

namespace Inflation

section Confined
variable {m : Machine} {loader : Loader} {n : Nat} {place : Location} {file : Path}

inductive Change (m : Machine) (place : Location) (w w' : World) : Prop where
  | call (c : Call) (made : w' = (m.perform c w).2)
  | own (calls : w'.calls = w.calls)
      (outside : ∀ l, ¬ place <+: l → w'.files.entry? l = w.files.entry? l)

theorem Change.refl (m : Machine) (place : Location) (w : World) : Change m place w w :=
  .own rfl fun _ _ => rfl

theorem change_of_run {r : Renderer} {arguments : List String} {w w' : World}
    {result : Except InflationError Printed} (run : r.run m arguments w = (result, w')) :
    Change m place w w' := by
  rcases Renderer.run_cases run with ⟨_, rfl⟩ | ⟨outcome, files, called, _, rfl⟩
  · exact .refl m place _
  · exact .call (r.call arguments) (by simp only [Machine.perform, called])

/-! ## With a scratch directory -/

/-- An inflation has a scratch directory to which its path leads. -/
structure Holds (m : Machine) (n : Nat) (place : Location) (file : Path) (now : Inflation)
    (w : World) : Prop where
  named : ValuesSource.fileOf now.parameters.chart.name = file
  owned : now.scratch.directory = some (Scratch.pathOf m n)
  uses : now.phase.Uses (Scratch.pathOf m n)
  leads : FileSystem.Leads m.directory (Scratch.pathOf m n) place file.inner w.files

/-- An inflation has given its scratch directory up, and nothing is left of it. -/
structure Released (place : Location) (now : Inflation) (w : World) : Prop where
  ended : ∃ result, now.phase = .finished result
  nothing : ∀ l, place <+: l → w.files.entry? l = none

def Held (m : Machine) (n : Nat) (place : Location) (file : Path) (now : Inflation) (w : World) :
    Prop :=
  Holds m n place file now w ∨ Released place now w

theorem leads_of_run {r : Renderer} {arguments : List String} {w w' : World}
    {result : Except InflationError Printed} (spares : m.Spares file)
    (run : r.run m arguments w = (result, w'))
    (leads : FileSystem.Leads m.directory (Scratch.pathOf m n) place file.inner w.files) :
    FileSystem.Leads m.directory (Scratch.pathOf m n) place file.inner w'.files := by
  rcases Renderer.run_cases run with ⟨_, rfl⟩ | ⟨outcome, files, called, _, rfl⟩
  · exact leads
  · have after := spares n place w.calls (r.call arguments) w.files leads
    rw [called] at after
    exact after

theorem change_of_release {s s' : Scratch} {w w' : World} {d : Path} {way : List String}
    (notRoot : place ≠ []) (owned : s.directory = some d)
    (leads : FileSystem.Leads m.directory d place way w.files)
    (released : s.release m w = (s', w')) :
    Change m place w w' ∧ ∀ l, place <+: l → w'.files.entry? l = none := by
  obtain ⟨_, calls, _, ⟨same, elsewhere⟩ | ⟨path, l, isOwned, found, removed⟩⟩ :=
    Scratch.release_cases released
  · refine ⟨.own calls fun l _ => by rw [same], fun l below => ?_⟩
    cases leads with
    | stands found _ => exact absurd found (elsewhere d place owned)
    | vacant _ nothing => rw [same, nothing l below]
  · obtain rfl := Option.some.inj (isOwned.symm.trans owned)
    obtain rfl : l = place := by
      cases leads with
      | stands found' _ => simpa [found] using found'
      | vacant absent _ => simp [found] at absent
    have entries := FileSystem.entry?_removeTree w.files notRoot
    refine ⟨.own calls fun l' outside => ?_, fun l' below => ?_⟩
    · rw [removed, entries, if_neg outside]
    · rw [removed, entries, if_pos below]

theorem holds_of_moves {now next : Inflation} {w w' : World} (below : file.StaysBelow)
    (notRoot : place ≠ []) (spares : m.Spares file) (moves : Moves m loader now w next w')
    (holds : Holds m n place file now w) :
    Change m place w w' ∧ Held m n place file next w' := by
  obtain ⟨named, owned, uses, leads⟩ := holds
  cases moves with
  | makeScratch made =>
      rcases Scratch.path_cases made with ⟨path, same, isPath, rfl, rfl⟩ | ⟨nothing, _⟩
      · obtain rfl := Except.ok.inj isPath
        obtain rfl := Option.some.inj (same.symm.trans owned)
        exact ⟨.refl m place _, Or.inl ⟨named, owned, rfl, leads⟩⟩
      · exact absurd (nothing.symm.trans owned) (by simp)
  | noScratch failed =>
      rcases Scratch.path_cases failed with ⟨path, _, isPath, _⟩ | ⟨nothing, _⟩
      · cases isPath
      · exact absurd (nothing.symm.trans owned) (by simp)
  | callFailed asks failed =>
      exact ⟨change_of_run failed, Or.inl ⟨named, owned, trivial,
        leads_of_run spares failed leads⟩⟩
  | acceptVersion called accepted =>
      exact ⟨change_of_run called, Or.inl ⟨named, owned, uses,
        leads_of_run spares called leads⟩⟩
  | refuseVersion called refused =>
      exact ⟨change_of_run called, Or.inl ⟨named, owned, trivial,
        leads_of_run spares called leads⟩⟩
  | findChart present =>
      exact ⟨.refl m place w, Or.inl ⟨named, owned, uses, leads⟩⟩
  | missChart absent known =>
      exact ⟨.refl m place w, Or.inl ⟨named, owned, uses, leads⟩⟩
  | noChart absent unknown =>
      exact ⟨.refl m place w, Or.inl ⟨named, owned, trivial, leads⟩⟩
  | pull pulled =>
      exact ⟨change_of_run pulled, Or.inl ⟨named, owned, uses,
        leads_of_run spares pulled leads⟩⟩
  | @writeValues p s w scratch target values files written =>
      -- the file is put below the place to which the scratch directory's path leads
      obtain rfl : scratch = Scratch.pathOf m n := uses
      obtain ⟨rfl, bytes, _, written⟩ := ValuesSource.write_eq_ok_iff.mp written
      subst named
      obtain ⟨executable, isPut⟩ := leads.write_inside (Scratch.pathOf_endsInName m n)
        (ValuesSource.fileOf_continues below) below written
      refine ⟨.own rfl fun l outside => ?_, Or.inl ⟨rfl, owned, rfl, leads.write written⟩⟩
      have other : l ≠ place ++ (ValuesSource.fileOf p.chart.name).inner := by
        rintro rfl
        exact outside (List.prefix_append _ _)
      rw [isPut, FileSystem.entry?_put _ (by simp [notRoot]), if_neg other]
  | failValues failed =>
      obtain rfl := (ValuesSource.write_eq_error_iff.mp failed).1
      exact ⟨.refl m place w, Or.inl ⟨named, owned, trivial, leads⟩⟩
  | render rendered =>
      exact ⟨change_of_run rendered, Or.inl ⟨named, owned, trivial,
        leads_of_run spares rendered leads⟩⟩
  | release released =>
      obtain ⟨change, nothing⟩ := change_of_release notRoot owned leads released
      exact ⟨change, Or.inr ⟨⟨_, rfl⟩, nothing⟩⟩
  | stay => exact uses.elim

theorem held_of_moves {now next : Inflation} {w w' : World} (below : file.StaysBelow)
    (notRoot : place ≠ []) (spares : m.Spares file) (moves : Moves m loader now w next w')
    (held : Held m n place file now w) : Change m place w w' ∧ Held m n place file next w' := by
  rcases held with holds | released
  · exact holds_of_moves below notRoot spares moves holds
  · obtain ⟨⟨result, ended⟩, nothing⟩ := released
    obtain ⟨p, s, phase⟩ := now
    obtain rfl : phase = .finished result := ended
    obtain ⟨rfl, rfl⟩ := moves_of_finished moves
    exact ⟨.refl m place _, Or.inr ⟨⟨result, rfl⟩, nothing⟩⟩

theorem nothing_of_held {now : Inflation} {w : World} {result : Except InflationError Resources}
    (held : Held m n place file now w)
    (finished : now.phase = .finished result) : ∀ l, place <+: l → w.files.entry? l = none := by
  rcases held with holds | released
  · have uses := holds.uses
    rw [finished] at uses
    exact uses.elim
  · exact released.nothing

theorem held_of_steps (loader : Loader) {i : Inflation} {w : World} (below : file.StaysBelow)
    (notRoot : place ≠ []) (spares : m.Spares file) (held : Held m n place file i w)
    (count : Nat) :
    Held m n place file (steps m loader count i w).1 (steps m loader count i w).2 :=
  steps_keep (fun moves held => (held_of_moves below notRoot spares moves held).2) count held

theorem change_of_steps {i : Inflation} {w : World} (below : file.StaysBelow) (notRoot : place ≠ [])
    (spares : m.Spares file) (held : Held m n place file i w) (count : Nat) :
    Change m place (steps m loader count i w).2 (steps m loader (count + 1) i w).2 := by
  rw [steps_succ_last]
  exact (held_of_moves below notRoot spares (step_moves rfl)
    (held_of_steps loader below notRoot spares held count)).1

/-! ## Without a scratch directory -/

structure Idle (w : World) (now : Inflation) (w' : World) : Prop where
  unowned : now.scratch.directory = none
  ending : ∃ result, now.phase = .release result ∨ now.phase = .finished result
  files : w'.files = w.files
  calls : w'.calls = w.calls

theorem idle_of_moves {now next : Inflation} {w w' w'' : World}
    (moves : Moves m loader now w' next w'') (idle : Idle w now w') : Idle w next w'' := by
  obtain ⟨unowned, ⟨result, ending⟩, files, calls⟩ := idle
  obtain ⟨p, s, phase⟩ := now
  rcases ending with rfl | rfl
  · cases moves with
    | callFailed asks failed => simp [Phase.request?] at asks
    | release released =>
        obtain ⟨given, same, _, ⟨kept, _⟩ | ⟨path, _, isOwned, _⟩⟩ :=
          Scratch.release_cases released
        · exact ⟨given, ⟨result, Or.inr rfl⟩, kept.trans files, same.trans calls⟩
        · exact absurd (unowned.symm.trans isOwned) (by simp)
  · obtain ⟨rfl, rfl⟩ := moves_of_finished moves
    exact ⟨unowned, ⟨result, Or.inr rfl⟩, files, calls⟩

/-! ## Whole runs -/

def worldAfter (m : Machine) (loader : Loader) (i : Inflation) (w : World) (n : Nat) : World :=
  (steps m loader n (i.goTo .start) w).2

theorem begin_cases {i next : Inflation} {w w' : World} (tree : w.files.IsTree)
    (fresh : i.scratch = .new) (moves : Moves m loader (i.goTo .start) w next w') :
    Idle w next w' ∨ ∃ n place, w.files.Vacant place ∧ Change m place w w' ∧
      w'.files.resolve false m.directory (Scratch.pathOf m n) = .ok (.found place) ∧
      Holds m n place (ValuesSource.fileOf i.parameters.chart.name) next w' := by
  obtain ⟨p, s, phase⟩ := i
  obtain rfl : s = .new := fresh
  cases moves with
  | noScratch failed =>
      left
      obtain ⟨calls, ⟨_, same, files⟩ | ⟨_, isOk, _⟩⟩ := Scratch.path_of_none rfl failed
      · exact ⟨congrArg Scratch.directory same, ⟨_, Or.inl rfl⟩, files, calls⟩
      · cases isOk
  | makeScratch made =>
      right
      obtain ⟨calls, ⟨⟨_, isError⟩, _⟩ | ⟨n, isOk, same, directory⟩⟩ :=
        Scratch.path_of_none rfl made
      · cases isError
      · obtain ⟨place, vacant, isPut, found, leads⟩ :=
          FileSystem.leads_of_makeDirectory tree (ValuesSource.fileOf p.chart.name).inner directory
        refine ⟨n, place, vacant, .own calls fun l outside => ?_, found, rfl,
          congrArg Scratch.directory same, Except.ok.inj isOk, leads⟩
        have other : l ≠ place := by
          rintro rfl
          exact outside List.prefix_rfl
        rw [isPut, FileSystem.entry?_put _ vacant.notRoot, if_neg other]
  | callFailed asks failed => simp [Phase.request?] at asks

/-- What stands elsewhere than at the place or below it changes by calls only. -/
theorem call_of_difference {worlds : Nat → World} {l : Location}
    (changes : ∀ n, Change m place (worlds n) (worlds (n + 1))) (outside : ¬ place <+: l)
    (count : Nat)
    (differs : FileSystem.entry? (worlds count).files l ≠ FileSystem.entry? (worlds 0).files l) :
    ∃ n < count, ∃ c, worlds (n + 1) = (m.perform c (worlds n)).2 ∧
      FileSystem.entry? (worlds (n + 1)).files l ≠ FileSystem.entry? (worlds n).files l := by
  induction count with
  | zero => exact absurd rfl differs
  | succ count ih =>
      by_cases same : FileSystem.entry? (worlds (count + 1)).files l =
          FileSystem.entry? (worlds count).files l
      · obtain ⟨n, earlier, changed⟩ := ih (same ▸ differs)
        exact ⟨n, Nat.lt_succ_of_lt earlier, changed⟩
      · rcases changes count with ⟨c, made⟩ | ⟨_, kept⟩
        · exact ⟨count, Nat.lt_succ_self count, c, made, same⟩
        · exact absurd (kept l outside) same

/-- Beside what its calls change, an inflation changes only its scratch directory, of which nothing
is there before and after. -/
theorem generate_confined {i : Inflation} {w : World} (tree : w.files.IsTree)
    (fresh : i.scratch = .new)
    (below : (ValuesSource.fileOf i.parameters.chart.name).StaysBelow)
    (spares : m.Spares (ValuesSource.fileOf i.parameters.chart.name)) :
    (∀ n, (worldAfter m loader i w n).files = w.files ∧
      (worldAfter m loader i w n).calls = w.calls) ∨
    ∃ d place, (steps m loader 1 (i.goTo .start) w).1.scratch.directory = some d ∧
      (worldAfter m loader i w 1).files.resolve false m.directory d = .ok (.found place) ∧
      (∀ n, Change m place (worldAfter m loader i w n) (worldAfter m loader i w (n + 1))) ∧
      (∀ l, place <+: l → w.files.entry? l = none ∧
        FileSystem.entry? (i.generate m loader w).2.files l = none) ∧
      ∀ l, FileSystem.entry? (i.generate m loader w).2.files l ≠ w.files.entry? l →
        ∃ n < 7, ∃ c,
          worldAfter m loader i w (n + 1) = (m.perform c (worldAfter m loader i w n)).2 ∧
          FileSystem.entry? (worldAfter m loader i w (n + 1)).files l ≠
            FileSystem.entry? (worldAfter m loader i w n).files l := by
  -- the first step stands apart: before it there is no place yet
  rcases does : (i.goTo .start).step m loader w with ⟨i₁, w₁⟩
  have later : ∀ n, steps m loader (n + 1) (i.goTo .start) w = steps m loader n i₁ w₁ := by
    intro n
    rw [steps_succ, does]
  have first : worldAfter m loader i w 1 = w₁ := congrArg Prod.snd (later 0)
  have last : (i.generate m loader w).1 = (steps m loader 6 i₁ w₁).1 ∧
      (i.generate m loader w).2 = (steps m loader 6 i₁ w₁).2 := by
    rw [generate, later 6]
    exact ⟨rfl, rfl⟩
  rcases begin_cases tree fresh (step_moves does) with
    idle | ⟨k, place, vacant, change, found, holds⟩
  · left
    intro n
    cases n with
    | zero => exact ⟨rfl, rfl⟩
    | succ n =>
        have still : Idle w (steps m loader n i₁ w₁).1 (steps m loader n i₁ w₁).2 :=
          steps_keep idle_of_moves n idle
        rw [worldAfter, later n]
        exact ⟨still.files, still.calls⟩
  · right
    have notRoot := vacant.notRoot
    have changes : ∀ n, Change m place (worldAfter m loader i w n)
        (worldAfter m loader i w (n + 1)) := by
      intro n
      cases n with
      | zero => rw [first]; exact change
      | succ n =>
          rw [worldAfter, worldAfter, later n, later (n + 1)]
          exact change_of_steps below notRoot spares (Or.inl holds) n
    have nothing : ∀ l, place <+: l → w.files.entry? l = none ∧
        FileSystem.entry? (i.generate m loader w).2.files l = none := by
      obtain ⟨result, finished⟩ := generate_finished m loader i w
      rw [last.1] at finished
      rw [last.2]
      have held := held_of_steps loader below notRoot spares (Or.inl holds) 6
      exact fun l isBelow => ⟨tree.nothing_below vacant.nothing isBelow,
        nothing_of_held held finished l isBelow⟩
    refine ⟨Scratch.pathOf m k, place, ?_, ?_, changes, nothing, fun l differs => ?_⟩
    · rw [later 0]
      exact holds.owned
    · rw [first]
      exact found
    · refine call_of_difference changes (fun isBelow => ?_) 7 differs
      obtain ⟨before, after⟩ := nothing l isBelow
      exact differs (after.trans before.symm)

def noFiles : Loader := Loader.ofFiles ⟨"/"⟩ []

def logging : Machine :=
  { obliging with tool := fun calls call files =>
      ((obliging.tool calls call files).1,
        (files.write [] ⟨"/log"⟩ (Bytes.ofString "called")).toOption.getD files) }

theorem logging_spares (file : Path) : logging.Spares file := by
  intro n place calls call fs leads
  cases written : fs.write [] ⟨"/log"⟩ (Bytes.ofString "called") with
  | error e => simpa [logging, written, Except.toOption] using leads
  | ok fs' => simpa [logging, written, Except.toOption] using leads.write written

theorem generate_confined_logged :
    untouched.files.IsTree ∧ (ValuesSource.fileOf "web").StaysBelow ∧
    logging.Spares (ValuesSource.fileOf "web") ∧
    ∃ place, (∀ l, place <+: l →
        FileSystem.entry? (pulling.generate logging noFiles untouched).2.files l = none) ∧
      ∃ n < 7, ∃ c, worldAfter logging noFiles pulling untouched (n + 1) =
        (logging.perform c (worldAfter logging noFiles pulling untouched n)).2 := by
  have logged : Option.isSome
      <| FileSystem.entry? (pulling.generate logging noFiles untouched).2.files ["log"] := by
    decide +kernel
  have before : untouched.files.entry? ["log"] = none := by decide
  have tree : untouched.files.IsTree := FileSystem.isTree_of_entries (by decide)
  have below : (ValuesSource.fileOf "web").StaysBelow :=
    ValuesSource.staysBelow_fileOf (by decide)
  have spares := logging_spares (ValuesSource.fileOf "web")
  refine ⟨tree, below, spares, ?_⟩
  rcases @generate_confined logging noFiles pulling untouched tree rfl below spares with
    unchanged | ⟨d, place, _, _, _, nothing, changed⟩
  · have same := (unchanged 7).1
    rw [worldAfter, ← generate] at same
    rw [same, before] at logged
    cases logged
  · have differs : FileSystem.entry? (pulling.generate logging noFiles untouched).2.files ["log"] ≠
        untouched.files.entry? ["log"] := by
      intro same
      rw [same, before] at logged
      cases logged
    obtain ⟨n, early, c, made, _⟩ := changed ["log"] differs
    exact ⟨place, fun l below => (nothing l below).2, n, early, c, made⟩

def allowing : Settings := { enabled := true, command := "helm" }

def goingUp : Bytes :=
  Bytes.ofString ("name: ../web\nrepo: https://charts.example\n" ++
    "valuesInline:\n  b: 2\nvaluesMerge: replace\n")

def redirecting : Machine :=
  { obliging with tool := fun calls call files =>
      ((obliging.tool calls call files).1,
        files.put ["tmp", "helmgen-helm-aaaaaa", "web-helmgen-values.yaml"] (.link "/elsewhere")) }

theorem generate_unconfined :
    (∃ p, Parameters.resolve allowing goingUp noFiles untouched.files = .ok p ∧
      (∀ calls call fs, (obliging.tool calls call fs).2 = fs) ∧
      untouched.files.entry? ["tmp", "web-helmgen-values.yaml"] = none ∧
      FileSystem.entry? ((Inflation.new p).generate obliging noFiles untouched).2.files
        ["tmp", "web-helmgen-values.yaml"] ≠ none) ∧
    (∀ calls call fs, FileSystem.entry? (redirecting.tool calls call fs).2 ["elsewhere"] =
        fs.entry? ["elsewhere"]) ∧
      untouched.files.entry? ["elsewhere"] = none ∧
      FileSystem.entry? (pulling.generate redirecting noFiles untouched).2.files ["elsewhere"] ≠
        none := by
  have left : ((Parameters.resolve allowing goingUp noFiles untouched.files).toOption.any fun p =>
      Option.isSome <| FileSystem.entry?
        ((Inflation.new p).generate obliging noFiles untouched).2.files
        ["tmp", "web-helmgen-values.yaml"]) = true := by
    decide +kernel
  have through : Option.isSome <| FileSystem.entry?
      (pulling.generate redirecting noFiles untouched).2.files ["elsewhere"] := by
    decide +kernel
  refine ⟨?_, fun calls call fs => ?_, by decide, Option.isSome_iff_ne_none.mp through⟩
  · cases resolved : Parameters.resolve allowing goingUp noFiles untouched.files with
    | error e => simp [resolved, Except.toOption] at left
    | ok p =>
        refine ⟨p, rfl, fun _ _ _ => rfl, by decide, Option.isSome_iff_ne_none.mp ?_⟩
        simpa [resolved, Except.toOption] using left
  · exact Eq.trans (FileSystem.entry?_put fs (by simp) _ ["elsewhere"]) (if_neg (by simp))

end Confined

end Inflation

end ChartInflation
