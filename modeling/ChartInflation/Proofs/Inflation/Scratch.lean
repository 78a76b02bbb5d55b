import ChartInflation.Inflation.Scratch

/-!
# Making and removing scratch directories

Asking for a scratch directory gives the one that is owned, or makes one under a name that was drawn
for it, or fails and changes no file (`path_cases`).  Releasing removes what the path leads to and
nothing else (`release_cases`).  No call is made.
-/

set_option autoImplicit false

namespace ChartInflation.Scratch

variable {m : Machine} {s s' : Scratch} {w w' : World} {result : Except FileError Path}

def pathOf (m : Machine) (n : Nat) : Path :=
  m.scratchHome.joinName (nameOf n)

section
-- what the names and the file system are must not be computed
attribute [local irreducible] FileSystem.makeDirectory nameOf Path.joinName

theorem create_zero (w : World) : create m 0 w = (.error .exists, w) :=
  rfl

theorem create_succ (tries : Nat) (w : World) : create m (tries + 1) w =
    match w.files.makeDirectory m.directory (pathOf m w.drawn) with
    | .ok files => (.ok (pathOf m w.drawn), { w with files := files, drawn := w.drawn + 1 })
    | .error .exists => create m tries { w with drawn := w.drawn + 1 }
    | .error e => (.error e, { w with drawn := w.drawn + 1 }) := by
  rfl

end

/-- Names are drawn until one can be made a directory or cannot for a reason of its own. -/
theorem create_cases (count : Nat) (made : create m count w = (result, w')) :
    w'.calls = w.calls ∧ w.drawn ≤ w'.drawn ∧
      (((∃ e, result = .error e) ∧ w'.files = w.files) ∨
        ∃ n, w.drawn ≤ n ∧ w'.drawn = n + 1 ∧ result = .ok (pathOf m n) ∧
          w.files.makeDirectory m.directory (pathOf m n) = .ok w'.files) := by
  induction count generalizing w with
  | zero =>
      obtain ⟨rfl, rfl⟩ : .error .exists = result ∧ w = w' := Prod.mk.inj made
      exact ⟨rfl, Nat.le_refl _, Or.inl ⟨⟨_, rfl⟩, rfl⟩⟩
  | succ count ih =>
      rw [create_succ] at made
      split at made
      next files tried =>
          obtain ⟨rfl, rfl⟩ := Prod.mk.inj made
          exact ⟨rfl, Nat.le_succ _, Or.inr ⟨w.drawn, Nat.le_refl _, rfl, rfl, tried⟩⟩
      next tried =>
          obtain ⟨calls, drawn, outcome⟩ := ih made
          refine ⟨calls, Nat.le_of_succ_le drawn, outcome.imp_right ?_⟩
          rintro ⟨n, later, rest⟩
          exact ⟨n, Nat.le_of_succ_le later, rest⟩
      next e _ tried =>
          obtain ⟨rfl, rfl⟩ := Prod.mk.inj made
          exact ⟨rfl, Nat.le_succ _, Or.inl ⟨⟨e, rfl⟩, rfl⟩⟩

/-- Asking for the directory gives the one that is owned, or makes one. -/
theorem path_cases (asked : s.path m w = (result, s', w')) :
    (∃ path, s.directory = some path ∧ result = .ok path ∧ s' = s ∧ w' = w) ∨
    s.directory = none ∧ create m tries w = (result, w') ∧
      ((∃ path, result = .ok path ∧ s' = ⟨some path⟩) ∨ ∃ e, result = .error e ∧ s' = s) := by
  cases owned : s.directory with
  | some path =>
      left
      simp only [Scratch.path, owned, Prod.mk.injEq] at asked
      obtain ⟨rfl, rfl, rfl⟩ := asked
      exact ⟨path, rfl, rfl, rfl, rfl⟩
  | none =>
      right
      rcases made : create m tries w with ⟨outcome, after⟩
      cases outcome with
      | ok path =>
          simp only [Scratch.path, owned, made, Prod.mk.injEq] at asked
          obtain ⟨rfl, rfl, rfl⟩ := asked
          exact ⟨rfl, rfl, Or.inl ⟨path, rfl, rfl⟩⟩
      | error e =>
          simp only [Scratch.path, owned, made, Prod.mk.injEq] at asked
          obtain ⟨rfl, rfl, rfl⟩ := asked
          exact ⟨rfl, rfl, Or.inr ⟨e, rfl, rfl⟩⟩

theorem path_of_none (unowned : s.directory = none) (asked : s.path m w = (result, s', w')) :
    w'.calls = w.calls ∧
      (((∃ e, result = .error e) ∧ s' = s ∧ w'.files = w.files) ∨
        ∃ n, result = .ok (pathOf m n) ∧ s' = ⟨some (pathOf m n)⟩ ∧
          w.files.makeDirectory m.directory (pathOf m n) = .ok w'.files) := by
  rcases path_cases asked with
    ⟨path, isOwned, _⟩ | ⟨_, made, ⟨path, isOk, same⟩ | ⟨e, isError, same⟩⟩
  · exact absurd (unowned.symm.trans isOwned) (by simp)
  · obtain ⟨calls, _, ⟨⟨e, isError⟩, _⟩ | ⟨n, _, _, isPath, directory⟩⟩ := create_cases tries made
    · exact absurd (isOk.symm.trans isError) (by simp)
    · have isIt : path = pathOf m n := Except.ok.inj (isOk.symm.trans isPath)
      exact ⟨calls, Or.inr ⟨n, isPath, isIt ▸ same, directory⟩⟩
  · obtain ⟨calls, _, ⟨_, files⟩ | ⟨n, _, _, isPath, _⟩⟩ := create_cases tries made
    · exact ⟨calls, Or.inl ⟨⟨e, isError⟩, same, files⟩⟩
    · exact absurd (isError.symm.trans isPath) (by simp)

/-- The first name that is drawn is taken if a directory can be made under it. -/
theorem path_of_makeDirectory {files : FileSystem} (unowned : s.directory = none)
    (made : w.files.makeDirectory m.directory (pathOf m w.drawn) = .ok files) :
    s.path m w = (.ok (pathOf m w.drawn), ⟨some (pathOf m w.drawn)⟩,
      { w with files := files, drawn := w.drawn + 1 }) := by
  have created : create m tries w =
      (.ok (pathOf m w.drawn), { w with files := files, drawn := w.drawn + 1 }) := by
    have atLeastOne : tries = 65535 + 1 := rfl
    rw [atLeastOne, create_succ, made]
  simp only [Scratch.path, unowned, created]

theorem calls_of_path (asked : s.path m w = (result, s', w')) : w'.calls = w.calls := by
  rcases path_cases asked with ⟨_, _, _, _, rfl⟩ | ⟨_, made, _⟩
  · rfl
  · exact (create_cases tries made).1

theorem release_of_found {d : Path} {place : Location} (owned : s.directory = some d)
    (found : w.files.resolve false m.directory d = .ok (.found place)) :
    s.release m w = (.new, { w with files := w.files.removeTree place }) := by
  simp only [release, owned, remove, found, new]

theorem release_cases (released : s.release m w = (s', w')) :
    s'.directory = none ∧ w'.calls = w.calls ∧ w'.drawn = w.drawn ∧
      (w'.files = w.files ∧ (∀ path location, s.directory = some path →
          w.files.resolve false m.directory path ≠ .ok (.found location)) ∨
        ∃ path location, s.directory = some path ∧
          w.files.resolve false m.directory path = .ok (.found location) ∧
          w'.files = w.files.removeTree location) := by
  unfold release at released
  cases owned : s.directory with
  | none =>
      rw [owned] at released
      obtain ⟨rfl, rfl⟩ := Prod.mk.inj released
      exact ⟨owned, rfl, rfl, Or.inl ⟨rfl, by simp⟩⟩
  | some path =>
      rw [owned] at released
      obtain ⟨rfl, rfl⟩ := Prod.mk.inj released
      unfold remove
      split
      next location found => exact ⟨rfl, rfl, rfl, Or.inr ⟨path, location, rfl, found, rfl⟩⟩
      next elsewhere =>
        refine ⟨rfl, rfl, rfl, Or.inl ⟨rfl, fun path' location same found => ?_⟩⟩
        cases same
        exact elsewhere location found

end ChartInflation.Scratch
