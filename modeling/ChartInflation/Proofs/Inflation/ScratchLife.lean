import ChartInflation.Proofs.Inflation.ScratchUses

/-!
# The life of scratch directories

Whatever a program does with its scratches, and however its inflations end, each scratch answers one
directory until it gives it up and a new one from then on, and what is given up is gone from the
disk (`lifecycle`).  It rests on the names being fresh, that is, on no more being drawn than differ.
As long as calls keep away from them, the scratch directories on disk are those that are owned.
-/

set_option autoImplicit false

namespace ChartInflation.Scratch

open Function (update)

-- no names are to be drawn while statements are compared
attribute [local irreducible] create nameOf

variable {m : Machine} {s s' : Scratch} {w w' : World}

theorem Event.drawn (event : Event m s w s' w') : w.drawn ≤ w'.drawn := by
  cases event with
  | ask result asked =>
      rcases asked_cases asked with ⟨_, _, _, _, rfl⟩ | ⟨_, ⟨_, _, drawn, _⟩ | ⟨n, _, last, _⟩⟩
      · exact Nat.le_refl _
      · exact drawn
      · omega
  | release released => exact Nat.le_of_eq (release_cases released).2.2.1.symm
  | work same does => exact Nat.le_of_eq (drawn_of_work does).symm

/-- What a scratch owns after an event: what it owned before, nothing, or a directory under a name
that was drawn for it. -/
theorem Event.owned (event : Event m s w s' w') {path : Path} (owned : s'.directory = some path) :
    s.directory = some path ∨ s.directory = none ∧ ∃ n, w.drawn ≤ n ∧ n < w'.drawn ∧
      path = pathOf m n ∧ w.files.makeDirectory m.directory path = .ok w'.files := by
  cases event with
  | ask result asked =>
      rcases asked_cases asked with
        ⟨_, _, _, rfl, _⟩ | ⟨unowned, ⟨_, rfl, _⟩ | ⟨n, notBefore, last, _, rfl, directory, _⟩⟩
      · exact Or.inl owned
      · exact Or.inl owned
      · obtain rfl := Option.some.inj owned
        exact Or.inr ⟨unowned, n, notBefore, by omega, rfl, directory⟩
  | release released =>
      rw [(release_cases released).1] at owned
      cases owned
  | work same does => exact Or.inl (same ▸ owned)

/-! ## Who owns what -/

/-- Scratches own directories under names drawn from a first one on, and none owns another's. -/
structure Apart {ι : Type} (m : Machine) (first : Nat) (slots : ι → Scratch) (w : World) :
    Prop where
  begun : first ≤ w.drawn
  drawn : ∀ k path, (slots k).directory = some path →
    ∃ n, first ≤ n ∧ n < w.drawn ∧ path = pathOf m n
  apart : ∀ j k path, (slots j).directory = some path → (slots k).directory = some path → j = k

section Apart
variable {ι : Type} [DecidableEq ι] {first : Nat} {slots : ι → Scratch} {k : ι}

theorem Apart.event (apart : Apart m first slots w) (event : Event m (slots k) w s' w')
    (fresh : Fresh first w'.drawn) : Apart m first (update slots k s') w' := by
  obtain ⟨begun, drawn, different⟩ := apart
  have later := event.drawn
  have ownedBy : ∀ j path, (update slots k s' j).directory = some path →
      (slots j).directory = some path ∨ j = k ∧ ∃ n, w.drawn ≤ n ∧ n < w'.drawn ∧
        path = pathOf m n := by
    intro j path owned
    by_cases isIt : j = k
    · subst isIt
      rw [Function.update_self] at owned
      exact (event.owned owned).imp_right fun ⟨_, n, notBefore, inside, isPath, _⟩ =>
        ⟨rfl, n, notBefore, inside, isPath⟩
    · rw [Function.update_of_ne isIt] at owned
      exact Or.inl owned
  -- a name that was drawn just now is none of those drawn before
  have isNew : ∀ {j n}, (slots j).directory = some (pathOf m n) → w.drawn ≤ n →
      n < w'.drawn → False := by
    intro j n owned notBefore inside
    obtain ⟨n', notBefore', inside', same⟩ := drawn j _ owned
    exact fresh n' n notBefore' (by omega) inside (nameOf_eq_of_pathOf same.symm)
  refine ⟨by omega, fun j path owned => ?_, fun i j path left right => ?_⟩
  · rcases ownedBy j path owned with before | ⟨_, n, notBefore, inside, isPath⟩
    · obtain ⟨n, notBefore, inside, isPath⟩ := drawn j path before
      exact ⟨n, notBefore, by omega, isPath⟩
    · exact ⟨n, by omega, inside, isPath⟩
  · rcases ownedBy i path left with before | ⟨isIt, n, notBefore, inside, rfl⟩
    · rcases ownedBy j path right with before' | ⟨_, n, notBefore, inside, rfl⟩
      · exact different i j path before before'
      · exact (isNew before notBefore inside).elim
    · rcases ownedBy j _ right with before' | ⟨isIt', _⟩
      · exact (isNew before' notBefore inside).elim
      · exact isIt.trans isIt'.symm

end Apart

/-! ## What a use leaves behind -/

/-- The directories that are to be gone in the end: the one that a scratch owned at first, and those
under names that were drawn since. -/
def Due (m : Machine) (s : Scratch) (w w' : World) (path : Path) : Prop :=
  s.directory = some path ∨ ∃ n, w.drawn ≤ n ∧ n < w'.drawn ∧ path = pathOf m n

/-- Whether of all that is to be gone only that stands which stood before and was not owned. -/
def Gone (m : Machine) (s : Scratch) (w w' : World) : Prop :=
  ∀ path, Due m s w w' path → Stands m path w'.files →
    s.directory ≠ some path ∧ Stands m path w.files

structure Holding (m : Machine) (s : Scratch) (w : World) (now : Scratch) (w' : World) :
    Prop where
  named : ∀ path, now.directory = some path → ∃ n, path = pathOf m n
  others : ∀ path, Due m s w w' path → now.directory ≠ some path →
    s.directory ≠ some path ∧ Stands m path w.files

section Gone
variable {now : Scratch} {w₁ : World} {d : Path}

theorem holding_of_path (named : ∀ path, s.directory = some path → ∃ n, path = pathOf m n)
    (asked : s.path m w = (.ok d, now, w₁)) : Holding m s w now w₁ := by
  rcases asked_cases asked with
    ⟨path, owned, _, rfl, rfl⟩ | ⟨unowned, ⟨⟨_, isError⟩, _⟩ | ⟨n, _, last, _, rfl, _, stood⟩⟩
  · refine ⟨named, fun path due other => ?_⟩
    rcases due with owned | ⟨n, notBefore, before, _⟩
    · exact absurd owned other
    · omega
  · cases isError
  · refine ⟨fun path owned => ⟨n, (Option.some.inj owned).symm⟩, fun path due other => ?_⟩
    rcases due with owned | ⟨n', notBefore, before, rfl⟩
    · cases unowned.symm.trans owned
    · have isOther : n' ≠ n := by
        rintro rfl
        exact other rfl
      exact ⟨by simp [unowned], stood n' notBefore (by omega)⟩

theorem gone_of_failed_path {e : FileError} (asked : s.path m w = (.error e, now, w')) :
    now.directory = none ∧ Gone m s w w' := by
  rcases asked_cases asked with
    ⟨_, _, isOk, _⟩ | ⟨unowned, ⟨_, same, _, files⟩ | ⟨_, _, _, isOk, _⟩⟩
  · cases isOk
  · exact ⟨same ▸ unowned, fun path due stands => ⟨by simp [unowned], files ▸ stands⟩⟩
  · cases isOk

theorem Holding.work (holding : Holding m s w now w₁) (does : Work m w₁ w') :
    Holding m s w now w' := by
  obtain ⟨named, others⟩ := holding
  refine ⟨named, fun path due => others path ?_⟩
  rw [Due, drawn_of_work does] at due
  exact due

theorem Holding.release (holding : Holding m s w now w₁)
    (released : now.release m w₁ = (s', w')) : Gone m s w w' := by
  obtain ⟨named, others⟩ := holding
  intro path due stands
  by_cases owned : now.directory = some path
  · obtain ⟨n, rfl⟩ := named path owned
    exact absurd stands (not_stands_of_release owned released)
  · rw [Due, (release_cases released).2.2.1] at due
    exact others path due owned

inductive Coming (m : Machine) (s : Scratch) (w : World) (i : Inflation) (w' : World) : Prop where
  | starting (phase : i.phase = .start) (same : i.scratch = s) (unchanged : w' = w)
  | underway (phase : i.phase.IsInside ∨ ∃ result, i.phase = .release result)
      (holding : Holding m s w i.scratch w')
  | ended (phase : ∃ result, i.phase = .release result ∨ i.phase = .finished result)
      (unowned : i.scratch.directory = none) (gone : Gone m s w w')

theorem coming_of_turn {i i' : Inflation}
    (named : ∀ path, s.directory = some path → ∃ n, path = pathOf m n)
    (turn : Turn m i w₁ i' w') (coming : Coming m s w i w₁) : Coming m s w i' w' := by
  cases turn with
  | make begins asked next =>
      cases coming with
      | starting _ same unchanged =>
          exact .underway (Or.inl next) (holding_of_path named (same ▸ unchanged ▸ asked))
      | underway phase _ => simp [begins, Phase.IsInside] at phase
      | ended phase _ _ => simp [begins] at phase
  | fail begins asked next =>
      cases coming with
      | starting _ same unchanged =>
          obtain ⟨unowned, gone⟩ := gone_of_failed_path (same ▸ unchanged ▸ asked)
          exact .ended ⟨_, Or.inl next⟩ unowned gone
      | underway phase _ => simp [begins, Phase.IsInside] at phase
      | ended phase _ _ => simp [begins] at phase
  | work inside same does next =>
      cases coming with
      | starting phase _ _ => simp [phase, Phase.IsInside] at inside
      | underway _ holding => exact .underway next (same ▸ holding.work does)
      | ended phase _ _ =>
          obtain ⟨_, ends | ends⟩ := phase
          · simp [ends, Phase.IsInside] at inside
          · simp [ends, Phase.IsInside] at inside
  | release ends released next =>
      have unowned := (release_cases released).1
      cases coming with
      | starting phase _ _ => simp [ends] at phase
      | underway _ holding => exact .ended ⟨_, Or.inr next⟩ unowned (holding.release released)
      | ended _ nothing gone =>
          refine .ended ⟨_, Or.inr next⟩ unowned ?_
          rw [Scratch.release, nothing] at released
          exact (Prod.mk.inj released).2 ▸ gone
  | stay isFinished same unchanged => exact same ▸ unchanged ▸ coming

theorem gone_of_generate (p : Parameters) (loader : Loader)
    (named : ∀ path, s.directory = some path → ∃ n, path = pathOf m n) :
    (Inflation.generate m loader ⟨p, s, .start⟩ w).1.scratch = .new ∧
      Gone m s w (Inflation.generate m loader ⟨p, s, .start⟩ w).2 := by
  have coming := @Inflation.generate_keeps m loader (Coming m s w)
    (fun moves => coming_of_turn named (turn_of_moves moves)) ⟨p, s, .start⟩ w
    (.starting rfl rfl rfl)
  obtain ⟨result, finished⟩ := Inflation.generate_finished m loader ⟨p, s, .start⟩ w
  cases coming with
  | starting phase _ _ => simp [finished] at phase
  | underway phase _ => simp [finished, Phase.IsInside] at phase
  | ended _ unowned gone => exact ⟨congrArg Scratch.mk unowned, gone⟩

theorem gone_of_checkVersion {env : CommandLine.Environment} {command : String}
    {ending : CommandLine.Ending}
    (ran : CommandLine.runCheckVersion m env command w = (ending, w')) :
    Gone m .new w w' := by
  rcases runCheckVersion_cases ran with
    ⟨e, s, asked⟩ | ⟨d, s, w₁, w₂, s', asked, work, released⟩
  · exact (gone_of_failed_path asked).2
  · have named : ∀ path, Scratch.new.directory = some path → ∃ n, path = pathOf m n := by
      simp [Scratch.new]
    exact ((holding_of_path named asked).work work).release released

end Gone

/-! ## On disk -/

/-- A file system with no files in which the paths of scratch directories lead to names in one
directory, where none of them stands. -/
structure Home (m : Machine) (home : Location) (base : FileSystem) : Prop where
  noFile : ∀ l content executable, base.entry? l ≠ some (.file content executable)
  bare : ∀ n l, home ++ [nameOf n] <+: l → base.entry? l = none
  leads : ∀ n, base.resolve false m.directory (pathOf m n) = .ok (.absent (home ++ [nameOf n]))

/-- Whether the paths of scratch directories lead to one directory, whatever stands in files and in
scratch directories. -/
def HomeAt (m : Machine) (home : Location) (fs : FileSystem) : Prop :=
  ∃ base, Home m home base ∧ base.IsPart fs

/-- Whether calls leave the way to scratch directories as it is, and make and remove none. -/
def Spared (m : Machine) (home : Location) : Prop :=
  ∀ calls call fs, HomeAt m home fs → HomeAt m home (m.tool calls call fs).2 ∧
    ∀ n, (m.tool calls call fs).2.isDirectoryAt (home ++ [nameOf n]) =
      fs.isDirectoryAt (home ++ [nameOf n])

section Disk
variable {home : Location} {fs fs' : FileSystem}

theorem resolve_pathOf (homeAt : HomeAt m home fs) (n : Nat) :
    fs.resolve false m.directory (pathOf m n) =
      .ok (if (fs.entry? (home ++ [nameOf n])).isSome then .found (home ++ [nameOf n])
        else .absent (home ++ [nameOf n])) := by
  obtain ⟨base, ⟨_, _, leads⟩, part⟩ := homeAt
  exact FileSystem.resolve_of_isPart part (leads n)

theorem HomeAt.makeDirectory (homeAt : HomeAt m home fs) {n : Nat}
    (made : fs.makeDirectory m.directory (pathOf m n) = .ok fs') :
    HomeAt m home fs' ∧ fs.entry? (home ++ [nameOf n]) = none ∧
      fs' = fs.put (home ++ [nameOf n]) .directory := by
  obtain ⟨place, vacant, isPut, found⟩ := FileSystem.makeDirectory_eq_put made
  have after : HomeAt m home fs' := by
    obtain ⟨base, isHome, part⟩ := homeAt
    exact ⟨base, isHome, isPut ▸ part.trans (FileSystem.isPart_put vacant _)⟩
  obtain rfl : place = home ++ [nameOf n] := by
    rw [resolve_pathOf after n] at found
    split at found
    · simpa using found.symm
    · simp at found
  exact ⟨after, vacant.nothing, isPut⟩

theorem HomeAt.write (homeAt : HomeAt m home fs) {path : Path} {content : Bytes}
    (written : fs.write m.directory path content = .ok fs') :
    HomeAt m home fs' ∧ ∀ l, fs'.isDirectoryAt l = fs.isDirectoryAt l := by
  obtain ⟨r, executable, _, takes, rfl, _⟩ := FileSystem.write_eq_put written
  have entries := FileSystem.entry?_put fs takes.notRoot (.file content executable)
  constructor
  · obtain ⟨base, isHome, part⟩ := homeAt
    refine ⟨base, isHome, fun l entry stands => ?_⟩
    have stood := part l entry stands
    rw [entries]
    split
    next here =>
      -- no file of the whole is one of the part
      subst here
      rcases takes with vacant | ⟨old, wasExecutable, isFile⟩
      · cases vacant.nothing.symm.trans stood
      · obtain rfl := Option.some.inj (isFile.symm.trans stood)
        exact absurd stands (isHome.noFile _ old wasExecutable)
    next => exact stood
  · intro l
    rw [FileSystem.isDirectoryAt, FileSystem.isDirectoryAt, entries]
    split
    next here =>
      subst here
      rcases takes with vacant | ⟨old, wasExecutable, isFile⟩
      · rw [vacant.nothing]
        rfl
      · rw [isFile]
        rfl
    next => rfl

theorem HomeAt.removeTree (homeAt : HomeAt m home fs) (n : Nat) :
    HomeAt m home (fs.removeTree (home ++ [nameOf n])) := by
  obtain ⟨base, isHome, part⟩ := homeAt
  exact ⟨base, isHome, FileSystem.isPart_removeTree part (by simp) (isHome.bare n)⟩

/-- The scratch directories on disk are those that are owned, and those that stood at the start. -/
structure OnDisk {ι : Type} (m : Machine) (home : Location) (start : FileSystem)
    (slots : ι → Scratch) (fs : FileSystem) : Prop where
  homeAt : HomeAt m home fs
  stands : ∀ k n, (slots k).directory = some (pathOf m n) → fs.isDirectoryAt (home ++ [nameOf n])
  known : ∀ n, fs.isDirectoryAt (home ++ [nameOf n]) →
    start.isDirectoryAt (home ++ [nameOf n]) ∨ ∃ k, (slots k).directory = some (pathOf m n)

variable {ι : Type} {first : Nat} {start : FileSystem} {slots : ι → Scratch} {k : ι}

theorem OnDisk.work (spared : Spared m home)
    (onDisk : OnDisk m home start slots w.files) (does : Work m w w') :
    OnDisk m home start slots w'.files := by
  obtain ⟨homeAt, stands, known⟩ := onDisk
  have same : HomeAt m home w'.files ∧ ∀ n, w'.files.isDirectoryAt (home ++ [nameOf n]) =
      w.files.isDirectoryAt (home ++ [nameOf n]) := by
    cases does with
    | call c made => exact made ▸ spared w.calls c w.files homeAt
    | write path content written put =>
        obtain ⟨after, directories⟩ := homeAt.write written
        rw [put]
        exact ⟨after, fun n => directories _⟩
    | none same =>
        rw [same]
        exact ⟨homeAt, fun _ => rfl⟩
  obtain ⟨after, directories⟩ := same
  exact ⟨after, fun k n owned => directories n ▸ stands k n owned,
    fun n isDirectory => known n (directories n ▸ isDirectory)⟩

variable [DecidableEq ι]

theorem OnDisk.make (onDisk : OnDisk m home start slots fs)
    (unowned : (slots k).directory = none) {n : Nat}
    (made : fs.makeDirectory m.directory (pathOf m n) = .ok fs') :
    OnDisk m home start (update slots k ⟨some (pathOf m n)⟩) fs' := by
  obtain ⟨homeAt, stands, known⟩ := onDisk
  obtain ⟨after, vacant, isPut⟩ := homeAt.makeDirectory made
  have directories : ∀ l, fs'.isDirectoryAt l ↔
      l = home ++ [nameOf n] ∨ fs.isDirectoryAt l := by
    intro l
    rw [FileSystem.isDirectoryAt_iff, FileSystem.isDirectoryAt_iff, isPut,
      FileSystem.entry?_put fs (by simp)]
    by_cases here : l = home ++ [nameOf n] <;> simp [here]
  refine ⟨after, fun j n' owned => ?_, fun n' isDirectory => ?_⟩
  · rw [directories]
    by_cases isIt : j = k
    · subst isIt
      rw [Function.update_self] at owned
      exact Or.inl (by rw [nameOf_eq_of_pathOf (Option.some.inj owned)])
    · rw [Function.update_of_ne isIt] at owned
      exact Or.inr (stands j n' owned)
  · rcases (directories _).mp isDirectory with here | before
    · have sameName : nameOf n' = nameOf n := by simpa using here
      refine Or.inr ⟨k, ?_⟩
      rw [Function.update_self, pathOf, pathOf, sameName]
    · rcases known n' before with old | ⟨j, owned⟩
      · exact Or.inl old
      refine Or.inr ⟨j, ?_⟩
      have isOther : j ≠ k := by
        rintro rfl
        cases unowned.symm.trans owned
      rwa [Function.update_of_ne isOther]

theorem isDirectoryAt_removeTree (fs : FileSystem) (home : Location) (n n' : Nat) :
    (fs.removeTree (home ++ [nameOf n])).isDirectoryAt (home ++ [nameOf n']) ↔
      nameOf n ≠ nameOf n' ∧ fs.isDirectoryAt (home ++ [nameOf n']) := by
  rw [FileSystem.isDirectoryAt_iff, FileSystem.isDirectoryAt_iff,
    FileSystem.entry?_removeTree _ (by simp)]
  by_cases same : nameOf n = nameOf n' <;> simp [same, List.prefix_append_right_inj]

omit [DecidableEq ι] in
/-- What is owned stands, so that it is found. -/
theorem OnDisk.found (onDisk : OnDisk m home start slots w.files) (apart : Apart m first slots w)
    {path : Path} (owned : (slots k).directory = some path) :
    ∃ n, path = pathOf m n ∧
      w.files.resolve false m.directory path = .ok (.found (home ++ [nameOf n])) := by
  obtain ⟨n, _, _, rfl⟩ := apart.drawn k path owned
  have isDirectory := (FileSystem.isDirectoryAt_iff _ _).mp (onDisk.stands k n owned)
  have leads := resolve_pathOf onDisk.homeAt n
  simp only [isDirectory, Option.isSome_some, if_true] at leads
  exact ⟨n, rfl, leads⟩

theorem OnDisk.remove (onDisk : OnDisk m home start slots w.files)
    (apart : Apart m first slots w) (released : (slots k).release m w = (s', w')) :
    OnDisk m home start (update slots k s') w'.files := by
  obtain rfl := release_new released
  obtain ⟨_, _, _, ⟨same, elsewhere⟩ | ⟨path, l, owned, found, removed⟩⟩ := release_cases released
  · have unowned : slots k = .new := by
      cases owned : (slots k).directory with
      | none => exact congrArg Scratch.mk owned
      | some path =>
          obtain ⟨n, _, leads⟩ := onDisk.found apart owned
          exact absurd leads (elsewhere _ _ owned)
    rw [← unowned, Function.update_eq_self, same]
    exact onDisk
  · obtain ⟨n, rfl, leads⟩ := onDisk.found apart owned
    obtain rfl : home ++ [nameOf n] = l := by simpa using leads.symm.trans found
    have directories : ∀ n', w'.files.isDirectoryAt (home ++ [nameOf n']) ↔
        nameOf n ≠ nameOf n' ∧ w.files.isDirectoryAt (home ++ [nameOf n']) := fun n' =>
      removed ▸ isDirectoryAt_removeTree w.files home n n'
    refine ⟨removed ▸ onDisk.homeAt.removeTree n, fun j n' owned' => ?_, fun n' isDirectory => ?_⟩
    · have isOther : j ≠ k := by
        rintro rfl
        rw [Function.update_self] at owned'
        cases owned'
      rw [Function.update_of_ne isOther] at owned'
      refine (directories n').mpr ⟨fun sameName => isOther ?_, onDisk.stands j n' owned'⟩
      exact apart.apart j k _ owned' (by rw [owned, pathOf, pathOf, sameName])
    · obtain ⟨otherName, before⟩ := (directories n').mp isDirectory
      rcases onDisk.known n' before with old | ⟨j, owned'⟩
      · exact Or.inl old
      refine Or.inr ⟨j, ?_⟩
      have isOther : j ≠ k := by
        rintro rfl
        exact otherName (nameOf_eq_of_pathOf (Option.some.inj (owned.symm.trans owned')))
      rwa [Function.update_of_ne isOther]

theorem OnDisk.event (spared : Spared m home) (onDisk : OnDisk m home start slots w.files)
    (apart : Apart m first slots w) (event : Event m (slots k) w s' w') :
    OnDisk m home start (update slots k s') w'.files := by
  cases event with
  | ask result asked =>
      rcases asked_cases asked with
        ⟨_, _, _, rfl, rfl⟩ | ⟨unowned, ⟨_, rfl, _, files⟩ | ⟨n, _, _, _, rfl, directory, _⟩⟩
      · rwa [Function.update_eq_self]
      · rwa [Function.update_eq_self, files]
      · exact onDisk.make unowned directory
  | release released => exact onDisk.remove apart released
  | work same does =>
      rw [same, Function.update_eq_self]
      exact onDisk.work spared does

end Disk

/-! ## Whole programs -/

namespace Program

variable {now : Program}

theorem drawn_of_use (m : Machine) (now : Program) (u : Use) :
    now.world.drawn ≤ (now.use m u).world.drawn :=
  @use_keeps m (fun _ w => now.world.drawn ≤ w.drawn)
    (fun _ _ _ _ _ event kept => Nat.le_trans kept event.drawn) u now (Nat.le_refl _)

theorem drawn_of_after (m : Machine) (now : Program) (uses : List Use) :
    now.world.drawn ≤ (now.after m uses).world.drawn :=
  @after_keeps m (fun later => now.world.drawn ≤ later.world.drawn)
    (fun later u kept => Nat.le_trans kept (drawn_of_use m later u)) now (Nat.le_refl _) uses

def InOrder (m : Machine) (w : World) (slots : Option Nat → Scratch) (w' : World) : Prop :=
  Fresh w.drawn w'.drawn → Apart m w.drawn slots w' ∧
    ∀ home, HomeAt m home w.files → Spared m home → OnDisk m home w.files slots w'.files

theorem inOrder_after (m : Machine) (w : World) (uses : List Use) :
    InOrder m w (((start w).after m uses).withMore .new) ((start w).after m uses).world := by
  refine @after_keeps m (fun now => InOrder m w (now.withMore .new) now.world)
    (fun now u kept => use_keeps (fun slots k s' w' w'' event inOrder fresh => ?_) u kept) _ ?_ uses
  · obtain ⟨apart, onDisk⟩ := inOrder (fresh.upTo event.drawn)
    exact ⟨apart.event event fresh,
      fun home homeAt spared => (onDisk home homeAt spared).event spared apart event⟩
  · have nothing : ∀ k, ((start w).withMore .new k).directory = none := by
      rintro (_ | k) <;> rfl
    intro _
    refine ⟨⟨Nat.le_refl _, by simp [nothing], by simp [nothing]⟩, fun home homeAt _ => ?_⟩
    exact ⟨homeAt, by simp [nothing], fun n isDirectory => Or.inl isDirectory⟩

theorem after_singleton (m : Machine) (now : Program) (u : Use) :
    now.after m [u] = now.use m u :=
  rfl

theorem after_append (now : Program) (uses more : List Use) :
    now.after m (uses ++ more) = (now.after m uses).after m more :=
  List.foldl_append

def Named {ι : Type} (m : Machine) (slots : ι → Scratch) : Prop :=
  ∀ k path, (slots k).directory = some path → ∃ n, path = pathOf m n

theorem Named.after (named : Named m now.scratch) (uses : List Use) :
    Named m (now.after m uses).scratch := by
  have all : Named m ((now.after m uses).withMore .new) := by
    refine @after_keeps m (fun now => Named m (now.withMore .new)) (fun now u => ?_) _ ?_ uses
    · refine @use_keeps m (fun slots _ => Named m slots)
        (fun slots k s' w w' event named j path owned => ?_) u now
      by_cases isIt : j = k
      · subst isIt
        rw [Function.update_self] at owned
        rcases event.owned owned with before | ⟨_, n, _, _, isPath, _⟩
        · exact named j path before
        · exact ⟨n, isPath⟩
      · rw [Function.update_of_ne isIt] at owned
        exact named j path owned
    · rintro (_ | k) path owned
      · cases owned
      · exact named k path owned
  exact fun k => all (some k)

theorem named_start (m : Machine) (w : World) : Named m (start w).scratch :=
  fun _ _ owned => by cases owned

theorem scratch_of_use_ne {u : Use} {k : Nat} (notGiven : ¬ u.GivesUp k) (notAsked : u ≠ .ask k) :
    (now.use m u).scratch k = now.scratch k := by
  cases u with
  | ask j => exact Function.update_of_ne (fun same => notAsked (by rw [same])) _ _
  | release j => exact Function.update_of_ne (fun same => notGiven same.symm) _ _
  | replace j => exact Function.update_of_ne (fun same => notGiven same.symm) _ _
  | generate j p loader => exact Function.update_of_ne (fun same => notGiven same.symm) _ _
  | checkVersion env command => rfl

theorem scratch_of_givesUp {u : Use} {k : Nat} (given : u.GivesUp k)
    (named : ∀ path, (now.scratch k).directory = some path → ∃ n, path = pathOf m n) :
    (now.use m u).scratch k = .new := by
  cases u with
  | ask j => exact given.elim
  | release j =>
      obtain rfl : j = k := given
      rcases released : (now.scratch j).release m now.world with ⟨s, w⟩
      simp only [use, released, Function.update_self]
      exact release_new released
  | replace j =>
      obtain rfl : j = k := given
      simp only [use, Function.update_self]
  | generate j p loader =>
      obtain rfl : j = k := given
      simp only [use, Function.update_self]
      exact (gone_of_generate p loader named).1
  | checkVersion env command => exact given.elim

theorem ask_cases (m : Machine) (now : Program) (k : Nat) :
    (∃ path, (now.scratch k).directory = some path ∧ now.answer m k = .ok path ∧
      now.use m (.ask k) = now) ∨
    (now.scratch k).directory = none ∧
      ((∃ e, now.answer m k = .error e ∧ (now.use m (.ask k)).scratch = now.scratch ∧
          (now.use m (.ask k)).world.files = now.world.files) ∨
        ∃ n, now.world.drawn ≤ n ∧ n < (now.use m (.ask k)).world.drawn ∧
          now.answer m k = .ok (pathOf m n) ∧
          (now.use m (.ask k)).scratch = update now.scratch k ⟨some (pathOf m n)⟩ ∧
          now.world.files.makeDirectory m.directory (pathOf m n) =
            .ok (now.use m (.ask k)).world.files) := by
  rcases asked : (now.scratch k).path m now.world with ⟨answer, s, w⟩
  simp only [Program.answer, use, asked]
  rcases asked_cases asked with
    ⟨path, owned, rfl, rfl, rfl⟩ |
      ⟨unowned, ⟨⟨e, rfl⟩, rfl, _, files⟩ | ⟨n, notBefore, last, rfl, rfl, directory, _⟩⟩
  · exact Or.inl ⟨path, owned, rfl, by rw [Function.update_eq_self]⟩
  · exact Or.inr ⟨unowned, Or.inl ⟨e, rfl, Function.update_eq_self _ _, files⟩⟩
  · exact Or.inr ⟨unowned, Or.inr ⟨n, notBefore, by omega, rfl, rfl, directory⟩⟩

theorem directory_of_use {u : Use} {k : Nat} (notGiven : ¬ u.GivesUp k) :
    (∀ path, (now.scratch k).directory = some path →
      ((now.use m u).scratch k).directory = some path) ∧
    ∀ path, ((now.use m u).scratch k).directory = some path →
      (now.scratch k).directory = some path ∨
        ∃ n, now.world.drawn ≤ n ∧ n < (now.use m u).world.drawn ∧ path = pathOf m n := by
  by_cases asked : u = .ask k
  · subst asked
    rcases ask_cases m now k with
      ⟨_, _, _, same⟩ | ⟨unowned, ⟨_, _, slots, _⟩ | ⟨n, notBefore, inside, _, slots, _⟩⟩
    · rw [same]
      exact ⟨fun path owned => owned, fun path owned => Or.inl owned⟩
    · rw [slots]
      exact ⟨fun path owned => owned, fun path owned => Or.inl owned⟩
    · rw [slots, Function.update_self]
      refine ⟨fun path owned => ?_, fun path owned => ?_⟩
      · cases unowned.symm.trans owned
      · exact Or.inr ⟨n, notBefore, inside, (Option.some.inj owned).symm⟩
  · rw [scratch_of_use_ne notGiven asked]
    exact ⟨fun path owned => owned, fun path owned => Or.inl owned⟩

theorem owned_of_answer {k : Nat} {path : Path} (answered : now.answer m k = .ok path) :
    ((now.use m (.ask k)).scratch k).directory = some path := by
  rcases ask_cases m now k with
    ⟨path', owned, isOk, same⟩ | ⟨_, ⟨_, isError, _⟩ | ⟨n, _, _, isOk, slots, _⟩⟩
  · rw [same, owned, Except.ok.inj (isOk.symm.trans answered)]
  · cases isError.symm.trans answered
  · rw [slots, Function.update_self, Except.ok.inj (isOk.symm.trans answered)]

/-- A scratch keeps its directory until it gives it up; what it owns then was drawn since. -/
theorem owned_since (named : Named m now.scratch) (k : Nat) (between : List Use) :
    ((∀ u ∈ between, ¬ u.GivesUp k) ∧ ∀ path, (now.scratch k).directory = some path →
      ((now.after m between).scratch k).directory = some path) ∨
    (∃ u ∈ between, u.GivesUp k) ∧ ∀ path, ((now.after m between).scratch k).directory = some path →
      ∃ n, now.world.drawn ≤ n ∧ n < (now.after m between).world.drawn ∧ path = pathOf m n := by
  induction between using List.reverseRecOn with
  | nil => exact Or.inl ⟨by simp, fun path owned => owned⟩
  | append_singleton between u ih =>
      have namedLater := named.after between
      have begun := drawn_of_after m now between
      rw [after_append, after_singleton]
      generalize now.after m between = later at ih namedLater begun ⊢
      have monotone := drawn_of_use m later u
      by_cases given : u.GivesUp k
      · refine Or.inr ⟨⟨u, by simp, given⟩, fun path owned => ?_⟩
        rw [scratch_of_givesUp given (namedLater k)] at owned
        cases owned
      · obtain ⟨keeps, draws⟩ := @directory_of_use m later u k given
        rcases ih with ⟨none, kept⟩ | ⟨some, since⟩
        · refine Or.inl ⟨fun u' member => ?_, fun path owned => keeps path (kept path owned)⟩
          rcases List.mem_append.mp member with inside | last
          · exact none u' inside
          · exact List.mem_singleton.mp last ▸ given
        · obtain ⟨u', inside, given'⟩ := some
          refine Or.inr ⟨⟨u', by simp [inside], given'⟩, fun path owned => ?_⟩
          rcases draws path owned with before | ⟨n, notBefore, inside, isPath⟩
          · obtain ⟨n, notBefore, inside, isPath⟩ := since path before
            exact ⟨n, notBefore, by omega, isPath⟩
          · exact ⟨n, by omega, inside, isPath⟩

def Owns (m : Machine) (home : Location) (now : Program) (k : Nat) (l : Location) : Prop :=
  ∃ n, (now.scratch k).directory = some (pathOf m n) ∧ l = home ++ [nameOf n] ∧
    now.world.files.isDirectoryAt l

end Program

structure Lifecycle (m : Machine) (w : World) (uses : List Use) (now : Program) : Prop where
  /-- No directory is owned by two scratches. -/
  apart : ∀ j k path, (now.scratch j).directory = some path →
    (now.scratch k).directory = some path → j = k
  /-- Where nothing is owned, asking makes a directory where nothing stood, or fails and changes no
  file. -/
  made : ∀ k, (now.scratch k).isCreated = false →
    (∃ e, now.answer m k = .error e ∧ (now.use m (.ask k)).scratch = now.scratch ∧
      (now.use m (.ask k)).world.files = now.world.files) ∨
    ∃ path, now.answer m k = .ok path ∧
      (now.use m (.ask k)).scratch = update now.scratch k ⟨some path⟩ ∧
      ¬ Stands m path now.world.files ∧
      ∃ l, (now.use m (.ask k)).world.files.resolve false m.directory path = .ok (.found l) ∧
        (now.use m (.ask k)).world.files.isDirectoryAt l
  /-- The same directory is answered until it is given up, and another one from then on. -/
  again : ∀ before k between path, uses = before ++ .ask k :: (between ++ [.ask k]) →
    ((Program.start w).after m before).answer m k = .ok path →
    ((∀ u ∈ between, ¬ u.GivesUp k) →
      ((Program.start w).after m (before ++ .ask k :: between)).answer m k = .ok path) ∧
    ((∃ u ∈ between, u.GivesUp k) → ∀ path',
      ((Program.start w).after m (before ++ .ask k :: between)).answer m k = .ok path' →
      path' ≠ path)
  /-- Where nothing is owned, releasing and replacing change nothing. -/
  harmless : ∀ k, (now.scratch k).isCreated = false →
    now.use m (.release k) = now ∧ now.use m (.replace k) = now
  /-- What a scratch gives up is gone, and so is all that an inflation and a check have made. -/
  gone : ∀ k u, u.GivesUp k → ((now.use m u).scratch k).isCreated = false ∧
    (∀ j, j ≠ k → (now.use m u).scratch j = now.scratch j) ∧
    Gone m (now.scratch k) now.world (now.use m u).world
  checked : ∀ env command, (now.use m (.checkVersion env command)).scratch = now.scratch ∧
    Gone m .new now.world (now.use m (.checkVersion env command)).world
  /-- If calls spare them, the scratch directories on disk are those that are owned, one by each
  scratch that has one, and those that were there at the start. -/
  onDisk : ∀ home, HomeAt m home w.files → Spared m home →
    (∀ k, (now.scratch k).isCreated ↔ ∃! l, now.Owns m home k l) ∧
    (∀ j k l, now.Owns m home j l → now.Owns m home k l → j = k) ∧
    ∀ n, now.world.files.isDirectoryAt (home ++ [nameOf n]) →
      w.files.isDirectoryAt (home ++ [nameOf n]) ∨ ∃ k, now.Owns m home k (home ++ [nameOf n])

namespace Program

variable {now : Program}

theorem answered_again {w : World} {k : Nat} {before between : List Use} {path : Path}
    (fresh : Fresh w.drawn
      ((start w).after m (before ++ .ask k :: (between ++ [.ask k]))).world.drawn)
    (answered : ((start w).after m before).answer m k = .ok path) :
    ((∀ u ∈ between, ¬ u.GivesUp k) →
      ((start w).after m (before ++ .ask k :: between)).answer m k = .ok path) ∧
    ((∃ u ∈ between, u.GivesUp k) → ∀ path',
      ((start w).after m (before ++ .ask k :: between)).answer m k = .ok path' → path' ≠ path) := by
  have first : (start w).after m (before ++ [.ask k]) =
      ((start w).after m before).use m (.ask k) := by
    rw [after_append, after_singleton]
  have second : (start w).after m (before ++ .ask k :: between) =
      ((start w).after m (before ++ [.ask k])).after m between := by
    rw [← after_append, List.append_assoc, List.singleton_append]
  have third : (start w).after m (before ++ .ask k :: (between ++ [.ask k])) =
      ((start w).after m (before ++ [.ask k])).after m (between ++ [.ask k]) := by
    rw [← after_append, List.append_assoc, List.singleton_append]
  have owned := owned_of_answer answered
  rw [third] at fresh
  rw [← first] at owned
  have named := (named_start m w).after (before ++ [.ask k])
  have inOrder := inOrder_after m w (before ++ [.ask k])
  rw [second]
  generalize (start w).after m (before ++ [.ask k]) = asked at *
  constructor
  · intro none
    rcases owned_since named k between with ⟨_, kept⟩ | ⟨⟨u, inside, given⟩, _⟩
    · rcases ask_cases m (asked.after m between) k with
        ⟨path', owned', isOk, _⟩ | ⟨unowned, _⟩
      · rw [isOk, Option.some.inj (owned'.symm.trans (kept path owned))]
      · cases unowned.symm.trans (kept path owned)
    · exact absurd given (none u inside)
  · rintro ⟨u, inside, given⟩ path' answered' rfl
    rcases owned_since named k (between ++ [.ask k]) with ⟨none, _⟩ | ⟨_, since⟩
    · exact absurd given (none u (by simp [inside]))
    · -- the first name was drawn before the second one
      have owned' := owned_of_answer answered'
      rw [← after_singleton, ← after_append] at owned'
      obtain ⟨n, notBefore, isInside, rfl⟩ := since path' owned'
      obtain ⟨apart, _⟩ := inOrder (fresh.upTo (drawn_of_after m asked _))
      obtain ⟨n₀, begun, earlier, same⟩ := apart.drawn (some k) _ owned
      exact fresh n₀ n begun (by omega) isInside (nameOf_eq_of_pathOf same.symm)

theorem use_of_unowned {k : Nat} (unowned : now.scratch k = .new) :
    now.use m (.release k) = now ∧ now.use m (.replace k) = now := by
  have nothing : (now.scratch k).release m now.world = (now.scratch k, now.world) := by
    rw [unowned]
    rfl
  constructor
  · simp only [use, nothing, Function.update_eq_self]
  · simp only [use, nothing, ← unowned, Function.update_eq_self]

theorem gone_of_givesUp {u : Use} {k : Nat} (named : Named m now.scratch) (given : u.GivesUp k) :
    Gone m (now.scratch k) now.world (now.use m u).world := by
  have released : ∀ s' w', (now.scratch k).release m now.world = (s', w') →
      Gone m (now.scratch k) now.world w' := by
    intro s' w' released
    refine Holding.release ⟨named k, fun path due other => ?_⟩ released
    rcases due with owned | ⟨n, notBefore, before, _⟩
    · exact absurd owned other
    · omega
  cases u with
  | ask j => exact given.elim
  | release j =>
      obtain rfl : j = k := given
      exact released _ _ rfl
  | replace j =>
      obtain rfl : j = k := given
      exact released _ _ rfl
  | generate j p loader =>
      obtain rfl : j = k := given
      simp only [use]
      exact (gone_of_generate p loader (named j)).2
  | checkVersion env command => exact given.elim

theorem givesUp_one {u : Use} {j k : Nat} (given : u.GivesUp k) (other : j ≠ k) :
    (now.use m u).scratch j = now.scratch j := by
  refine scratch_of_use_ne (fun given' => other ?_) ?_
  · cases u with
    | ask | checkVersion => exact given.elim
    | release | replace | generate => exact given'.symm.trans given
  · rintro rfl
    exact given.elim

theorem owns_of_onDisk {home : Location} {w : World} {slots : Nat → Scratch} {w' : World}
    (onDisk : OnDisk m home w.files (withMore ⟨slots, w'⟩ .new) w'.files)
    (apart : Apart m w.drawn (withMore ⟨slots, w'⟩ .new) w') :
    (∀ k, (slots k).isCreated ↔ ∃! l, Owns m home ⟨slots, w'⟩ k l) ∧
    (∀ j k l, Owns m home ⟨slots, w'⟩ j l → Owns m home ⟨slots, w'⟩ k l → j = k) ∧
    ∀ n, w'.files.isDirectoryAt (home ++ [nameOf n]) →
      w.files.isDirectoryAt (home ++ [nameOf n]) ∨
        ∃ k, Owns m home ⟨slots, w'⟩ k (home ++ [nameOf n]) := by
  refine ⟨fun k => ⟨fun created => ?_, ?_⟩, ?_, fun n isDirectory => ?_⟩
  · obtain ⟨path, owned⟩ := Option.isSome_iff_exists.mp created
    obtain ⟨n, _, _, rfl⟩ := apart.drawn (some k) path owned
    refine ⟨home ++ [nameOf n], ⟨n, owned, rfl, onDisk.stands (some k) n owned⟩, ?_⟩
    rintro l ⟨n', owned', rfl, _⟩
    have sameName : nameOf n' = nameOf n :=
      nameOf_eq_of_pathOf (Option.some.inj (owned'.symm.trans owned))
    rw [sameName]
  · rintro ⟨l, ⟨n, owned, _, _⟩, _⟩
    exact Option.isSome_iff_exists.mpr ⟨_, owned⟩
  · rintro j k l ⟨n, owned, rfl, _⟩ ⟨n', owned', sameName, _⟩
    have isSame : nameOf n' = nameOf n := by simpa using sameName.symm
    rw [pathOf, isSame] at owned'
    exact Option.some.inj (apart.apart (some j) (some k) _ owned owned')
  · refine (onDisk.known n isDirectory).imp_right ?_
    rintro ⟨_ | k, owned⟩
    · cases owned
    · exact ⟨k, n, owned, rfl, isDirectory⟩

end Program

theorem lifecycle (m : Machine) (w : World) (uses : List Use)
    (fresh : Fresh w.drawn ((Program.start w).after m uses).world.drawn) :
    Lifecycle m w uses ((Program.start w).after m uses) := by
  have named := (Program.named_start m w).after uses
  obtain ⟨apart, onDisk⟩ := Program.inOrder_after m w uses fresh
  constructor
  case again =>
    rintro before k between path rfl answered
    exact Program.answered_again fresh answered
  all_goals generalize (Program.start w).after m uses = now at *
  case apart =>
    exact fun j k path left right => Option.some.inj (apart.apart (some j) (some k) path left right)
  case made =>
    intro k unowned
    rcases Program.ask_cases m now k with
      ⟨path, owned, _⟩ | ⟨_, failed | ⟨n, _, _, isOk, slots, directory⟩⟩
    · simp [isCreated, owned] at unowned
    · exact Or.inl failed
    · obtain ⟨notBefore, stands⟩ := stands_of_makeDirectory directory
      exact Or.inr ⟨pathOf m n, isOk, slots, notBefore, stands⟩
  case harmless =>
    intro k unowned
    have isNew : now.scratch k = .new :=
      congrArg Scratch.mk (by simpa [isCreated] using unowned)
    exact Program.use_of_unowned isNew
  case gone =>
    intro k u given
    refine ⟨?_, fun j other => Program.givesUp_one given other,
      Program.gone_of_givesUp named given⟩
    rw [Program.scratch_of_givesUp given (named k)]
    rfl
  case checked =>
    intro env command
    rcases ran : CommandLine.runCheckVersion m env command now.world with ⟨ending, after⟩
    simp only [Program.use, ran]
    exact ⟨trivial, gone_of_checkVersion ran⟩
  case onDisk =>
    exact fun home homeAt spared => Program.owns_of_onDisk (onDisk home homeAt spared) apart

/-! ## A program with two scratches -/

theorem resolve_untouched (n : Nat) :
    Inflation.untouched.files.resolve false Inflation.obliging.directory
      (pathOf Inflation.obliging n) = .ok (.absent (["tmp"] ++ [nameOf n])) := by
  have text : (pathOf Inflation.obliging n).text.toList = "/tmp/".toList ++ (nameOf n).toList := by
    simp [pathOf, Path.joinName, Path.join, (nameOf_continues n).relative, Inflation.obliging,
      Path.isEmpty, Path.endsInSlash]
  have steps : FileSystem.steps (pathOf Inflation.obliging n) = ["tmp", nameOf n] := by
    rw [pathOf, Path.joinName, Path.steps_join (nameOf_continues n),
      Path.names_of_not_mem (nameOf_continues n).inhabited (nameOf_noSlash n)]
    rfl
  have noNul : '\x00' ∉ (nameOf n).toList := nameOf_not_mem (by decide) (by decide) n
  have octets : (Utf8.encode (pathOf Inflation.obliging n).text.toList).length = 24 := by
    have front : (Utf8.encode "/tmp/".toList).length = 5 := by decide
    have rest := length_encode_nameOf n
    rw [Utf8.encode] at front rest ⊢
    rw [text, List.flatMap_append, List.length_append, front, rest]
  have isAbsolute : (pathOf Inflation.obliging n).isAbsolute := by simp [Path.isAbsolute, text]
  have isInhabited : (pathOf Inflation.obliging n).isEmpty = false := by
    rw [Path.isEmpty, ← Bool.not_eq_true, String.isEmpty_iff]
    intro empty
    simp [empty] at text
  have walked : Inflation.untouched.files.walk false [] ["tmp", nameOf n] =
      .arrived (.absent (["tmp"] ++ [nameOf n])) := by
    have nothing : Inflation.untouched.files.entry? (["tmp"] ++ [nameOf n]) = none := by
      simp [FileSystem.entry?, Inflation.untouched]
    have home : Inflation.untouched.files.entry? ([] ++ ["tmp"]) = some .directory := rfl
    rw [FileSystem.walk_of_entry ⟨rfl, by decide, by decide, by decide⟩ home (by simp),
      List.nil_append, FileSystem.walk_of_nothing ⟨rfl, nameOf_ne_of_short n (by decide),
        nameOf_ne_of_short n (by decide), by simp [length_encode_nameOf]⟩ nothing]
    rfl
  rw [FileSystem.resolve, text, if_neg (by simp [noNul]), isInhabited, ← text, octets, isAbsolute,
    steps]
  simp only [Bool.false_eq_true, if_false, if_true, ge_iff_le, Nat.reduceLeDiff,
    FileSystem.follow, walked]

theorem homeAt_untouched : HomeAt Inflation.obliging ["tmp"] Inflation.untouched.files := by
  have entries : ∀ l entry, Inflation.untouched.files.entry? l = some entry →
      entry = .directory ∧ (l = [] ∨ l = ["tmp"]) := by
    intro l entry stands
    by_cases isRoot : l = []
    · simp_all [FileSystem.entry?]
    · by_cases isHome : l = ["tmp"]
      · simp_all [FileSystem.entry?, Inflation.untouched]
      · have elsewhere : (l == ["tmp"]) = false := beq_eq_false_iff_ne.mpr isHome
        simp [FileSystem.entry?, Inflation.untouched, isRoot, elsewhere, List.lookup_cons,
          List.lookup_nil] at stands
  refine ⟨Inflation.untouched.files, ⟨?_, ?_, resolve_untouched⟩, fun _ _ stands => stands⟩
  · intro l content executable stands
    cases (entries l _ stands).1
  · intro n l below
    cases stands : Inflation.untouched.files.entry? l with
    | none => rfl
    | some entry =>
        have length := below.length_le
        rcases (entries l entry stands).2 with rfl | rfl
        · simp at length
        · simp at length

def sharing : List Use :=
  [.ask 0, .ask 1, .release 0, .generate 0 Inflation.pulling.parameters Inflation.noFiles, .ask 0,
    .checkVersion [] "helm"]

theorem lifecycle_sharing :
    ∃ now, now = (Program.start Inflation.untouched).after Inflation.obliging sharing ∧
      Fresh Inflation.untouched.drawn now.world.drawn ∧
      (∃! l, now.Owns Inflation.obliging ["tmp"] 0 l) ∧
      (∃! l, now.Owns Inflation.obliging ["tmp"] 1 l) ∧
      ∀ n, now.world.files.isDirectoryAt (["tmp"] ++ [nameOf n]) →
        ∃ k, now.Owns Inflation.obliging ["tmp"] k (["tmp"] ++ [nameOf n]) := by
  generalize isNow : (Program.start Inflation.untouched).after Inflation.obliging sharing = now
  have ends : (now.world.drawn ≤ Inflation.untouched.drawn + alphabet.length ^ 6) ∧
      (now.scratch 0).isCreated ∧ (now.scratch 1).isCreated := by
    subst isNow
    decide +kernel
  obtain ⟨few, first, second⟩ := ends
  have spared : Spared Inflation.obliging ["tmp"] := fun _ _ _ homeAt => ⟨homeAt, fun _ => rfl⟩
  have fresh := fresh_of_le few
  have life := lifecycle Inflation.obliging Inflation.untouched sharing
  rw [isNow] at life
  obtain ⟨isOne, _, known⟩ := (life fresh).onDisk ["tmp"] homeAt_untouched spared
  refine ⟨now, rfl, fresh, (isOne 0).mp first, (isOne 1).mp second, fun n isDirectory => ?_⟩
  refine (known n isDirectory).resolve_left fun before => ?_
  have nothing := FileSystem.resolve_absent (resolve_untouched n)
  rw [FileSystem.isDirectoryAt_iff, nothing.nothing] at before
  cases before

end ChartInflation.Scratch
