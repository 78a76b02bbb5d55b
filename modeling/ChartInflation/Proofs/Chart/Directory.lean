import ChartInflation.Chart.Reference
import ChartInflation.Proofs.Path.Components

/-!
# The directories of charts

Charts of one home stand side by side, whatever their names and versions are.  The directory of a chart
with a version is two steps below the home, that of a chart without one a single step, and the last step
is the name (`components_directory`).  So two charts share a directory only if name and version are the
same, and no version of a chart stands inside another one; a chart without a name is the exception
(`directories_coexist`, `directories_shared`).
-/

set_option autoImplicit false

namespace ChartInflation.ChartReference

/-- A name and a version that each are an entry of a directory at most. -/
structure StaysIn (name : String) (version : Option String) : Prop where
  noSlash : '/' ∉ name.toList
  notHere : name ≠ "."
  notUp : name ≠ ".."
  versionNoSlash : ∀ v ∈ version, '/' ∉ v.toList

def steps (name : String) (version : Option String) : List String :=
  (version.map (name ++ "-" ++ ·)).toList ++ if name = "" then [] else [name]

/-- The first chart has no name, and its version reads like the name of the second one, which has no
version. -/
def NamedByVersion (name : String) (version : Option String) (name' : String)
    (version' : Option String) : Prop :=
  name = "" ∧ version.map ("-" ++ ·) = some name' ∧ version' = none

section Steps
variable {name name' v v' : String}

theorem dash_mem_versioned (name v : String) : '-' ∈ (name ++ "-" ++ v).toList := by
  simp [String.toList_append]

theorem versioned_inj : name ++ "-" ++ v = name ++ "-" ++ v' ↔ v = v' := by
  simp [← String.toList_inj, String.toList_append]

theorem ne_versioned (name v : String) : name ≠ name ++ "-" ++ v := by
  intro same
  have length := congrArg (·.toList.length) same
  simp [String.toList_append] at length

theorem steps_none_eq_iff : steps name none = steps name' none ↔ name = name' := by
  by_cases empty : name = "" <;> by_cases empty' : name' = "" <;>
    simp [steps, empty, empty', eq_comm]

theorem steps_some_eq_iff :
    steps name (some v) = steps name' (some v') ↔ name = name' ∧ v = v' := by
  constructor
  · intro same
    have last : name = name' := by
      by_cases empty : name = "" <;> by_cases empty' : name' = "" <;>
        simp_all [steps]
    subst last
    exact ⟨rfl, versioned_inj.mp (List.cons.inj same).1⟩
  · rintro ⟨rfl, rfl⟩
    rfl

theorem steps_none_eq_some_iff :
    steps name none = steps name' (some v') ↔ name' = "" ∧ "-" ++ v' = name := by
  by_cases nameless : name' = ""
  · subst nameless
    by_cases empty : name = ""
    · simp [steps, empty]
    · simp only [steps, if_neg empty, if_pos, Option.map_none, Option.toList_none, Option.map_some,
        Option.toList_some, List.nil_append, List.append_nil, List.cons.injEq, and_true,
        String.empty_append, true_and]
      exact eq_comm
  · by_cases empty : name = "" <;> simp [steps, empty, nameless]

theorem steps_eq_iff {version version' : Option String} :
    steps name version = steps name' version' ↔
      (name = name' ∧ version = version') ∨ NamedByVersion name version name' version' ∨
        NamedByVersion name' version' name version := by
  cases version with
  | none =>
      cases version' with
      | none => simp [steps_none_eq_iff, NamedByVersion]
      | some v' => simp [steps_none_eq_some_iff, NamedByVersion]
  | some v =>
      cases version' with
      | none => rw [eq_comm, steps_none_eq_some_iff]; simp [NamedByVersion]
      | some v' => simp [steps_some_eq_iff, NamedByVersion]

/-- One version stands inside another one only if nothing but the version tells where it stands. -/
theorem steps_prefix_iff {version version' : Option String} (other : version ≠ version') :
    steps name version <+: steps name version' ↔ name = "" ∧ version = none := by
  constructor
  · intro inFront
    obtain ⟨rest, whole⟩ := inFront
    cases version with
    | none =>
        cases version' with
        | none => exact absurd rfl other
        | some v' =>
            by_cases nameless : name = ""
            · exact ⟨nameless, rfl⟩
            · simp only [steps, if_neg nameless] at whole
              exact absurd (List.cons.inj whole).1 (ne_versioned name v')
    | some v =>
        exfalso
        cases version' with
        | none =>
            by_cases nameless : name = ""
            · simp [steps, nameless] at whole
            · simp only [steps, if_neg nameless] at whole
              exact ne_versioned name v (List.cons.inj whole).1.symm
        | some v' => exact other (congrArg some (versioned_inj.mp (List.cons.inj whole).1))
  · rintro ⟨rfl, rfl⟩
    exact List.nil_prefix

end Steps

section Directory
variable {c c' : ChartReference}

theorem StaysIn.unlessEmpty {name : String} {version : Option String}
    (stays : StaysIn name version) : StaysIn name (unlessEmpty version) :=
  ⟨stays.noSlash, stays.notHere, stays.notUp, fun v given =>
    stays.versionNoSlash v (Option.filter_eq_some_iff.mp given).1⟩

theorem components_directory (stays : StaysIn c.name c.version) :
    c.directory.components =
      c.chartsDirectory.components ++ (steps c.name c.version).map .name := by
  have last : c.directory.components =
      c.home.components ++ (if c.name = "" then [] else [.name c.name]) :=
    Path.components_joinName stays.noSlash stays.notHere stays.notUp
  cases versioned : c.version with
  | none =>
      have noVersion : c.home = c.chartsDirectory := by rw [home, versioned]
      rw [last, noVersion, steps]
      by_cases nameless : c.name = "" <;> simp [nameless]
  | some v =>
      have own : c.home = c.chartsDirectory.joinName (c.name ++ "-" ++ v) := by rw [home, versioned]
      have dash := dash_mem_versioned c.name v
      have noSlash : '/' ∉ (c.name ++ "-" ++ v).toList := by
        have nameOnly := stays.noSlash
        have versionOnly := stays.versionNoSlash v versioned
        simp [String.toList_append, nameOnly, versionOnly]
      have differs : ∀ s : String, '-' ∉ s.toList → c.name ++ "-" ++ v ≠ s :=
        fun s absent same => absent (same ▸ dash)
      rw [last, own, Path.components_joinName noSlash (differs "." (by decide))
        (differs ".." (by decide)), if_neg (differs "" (by decide)), steps]
      by_cases nameless : c.name = "" <;> simp [nameless]

variable (c c') (sameHome : c.chartsDirectory = c'.chartsDirectory)
  (stays : StaysIn c.name c.version) (stays' : StaysIn c'.name c'.version)
include sameHome stays stays'

theorem directory_eq_iff : c.directory.components = c'.directory.components ↔
    steps c.name c.version = steps c'.name c'.version := by
  rw [components_directory stays, components_directory stays', sameHome, List.append_right_inj]
  exact List.map_inj_right fun _ _ same => Path.Component.name.inj same

theorem directory_prefix_iff : c.directory.components <+: c'.directory.components ↔
    steps c.name c.version <+: steps c'.name c'.version := by
  rw [components_directory stays, components_directory stays', sameHome,
    List.prefix_append_right_inj]
  exact List.prefix_map_iff_of_injective fun _ _ same => Path.Component.name.inj same

end Directory

section Coexist
variable {name name' : String} {version version' : Option String}

/-- Charts of one home with different names or versions have different directories, and no version of
a chart stands inside another one.  Only a chart without a name is an exception. -/
theorem directories_coexist (repository repository' : Option String) (home root : Path)
    (stays : StaysIn name version) (stays' : StaysIn name' version') :
    ((of name version repository home root).directory.components =
        (of name' version' repository' home root).directory.components ↔
      (name = name' ∧ unlessEmpty version = unlessEmpty version') ∨
        NamedByVersion name (unlessEmpty version) name' (unlessEmpty version') ∨
        NamedByVersion name' (unlessEmpty version') name (unlessEmpty version)) ∧
    (name = name' → unlessEmpty version ≠ unlessEmpty version' →
      ((of name version repository home root).directory.components <+:
          (of name' version' repository' home root).directory.components ↔
        name = "" ∧ unlessEmpty version = none) ∧
      ((of name' version' repository' home root).directory.components <+:
          (of name version repository home root).directory.components ↔
        name = "" ∧ unlessEmpty version' = none)) := by
  have within := stays.unlessEmpty
  have within' := stays'.unlessEmpty
  constructor
  · have same := directory_eq_iff (of name version repository home root)
      (of name' version' repository' home root) rfl within within'
    exact same.trans steps_eq_iff
  · rintro rfl other
    have inside := directory_prefix_iff (of name version repository home root)
      (of name version' repository' home root) rfl within within'
    have around := directory_prefix_iff (of name version' repository' home root)
      (of name version repository home root) rfl within' within
    exact ⟨inside.trans (steps_prefix_iff other), around.trans (steps_prefix_iff other.symm)⟩

/-- Where names and versions read alike the two steps tell them apart, and the chart without a version
stands beside its versions. -/
theorem directories_coexist_dashed :
    StaysIn "a" (some "1-b") ∧ StaysIn "a-1" (some "b") ∧ StaysIn "a" none ∧
    (of "a" (some "1-b") none ⟨"charts"⟩ ⟨"/work"⟩).home =
      (of "a-1" (some "b") none ⟨"charts"⟩ ⟨"/work"⟩).home ∧
    (of "a" (some "1-b") none ⟨"charts"⟩ ⟨"/work"⟩).directory.components ≠
      (of "a-1" (some "b") none ⟨"charts"⟩ ⟨"/work"⟩).directory.components ∧
    ¬ (of "a" none none ⟨"charts"⟩ ⟨"/work"⟩).directory.components <+:
      (of "a" (some "1-b") none ⟨"charts"⟩ ⟨"/work"⟩).directory.components := by
  have stays : StaysIn "a" (some "1-b") :=
    ⟨by decide, by decide, by decide, by rintro _ ⟨⟩; decide⟩
  have stays' : StaysIn "a-1" (some "b") :=
    ⟨by decide, by decide, by decide, by rintro _ ⟨⟩; decide⟩
  have unversioned : StaysIn "a" none := ⟨by decide, by decide, by decide, by rintro _ ⟨⟩⟩
  obtain ⟨sameOnly, _⟩ := directories_coexist none none ⟨"charts"⟩ ⟨"/work"⟩ stays stays'
  obtain ⟨_, apart⟩ := directories_coexist none none ⟨"charts"⟩ ⟨"/work"⟩ unversioned stays
  refine ⟨stays, stays', unversioned, rfl, fun same => ?_, fun inside => ?_⟩
  · rcases sameOnly.mp same with ⟨names, _⟩ | ⟨nameless, _⟩ | ⟨nameless, _⟩
    · exact absurd names (by decide)
    · exact absurd nameless (by decide)
    · exact absurd nameless (by decide)
  · exact absurd ((apart rfl (by decide)).1.mp inside).1 (by decide)

/-- A chart without a name shares its directory with the chart that its version names, and has it
inside that of its unset version; an empty version is none. -/
theorem directories_shared :
    StaysIn "" (some "1") ∧ StaysIn "-1" none ∧ StaysIn "" none ∧
    (of "" (some "1") none ⟨"charts"⟩ ⟨"/work"⟩).directory.components =
      (of "-1" none none ⟨"charts"⟩ ⟨"/work"⟩).directory.components ∧
    (of "" none none ⟨"charts"⟩ ⟨"/work"⟩).directory.components <+:
      (of "" (some "1") none ⟨"charts"⟩ ⟨"/work"⟩).directory.components ∧
    StaysIn "web" (some "") ∧ StaysIn "web" none ∧
    (of "web" (some "") none ⟨"charts"⟩ ⟨"/work"⟩).directory.components =
      (of "web" none none ⟨"charts"⟩ ⟨"/work"⟩).directory.components := by
  have stays : ∀ name version : String, '/' ∉ name.toList ∧ name ≠ "." ∧ name ≠ ".." →
      '/' ∉ version.toList → StaysIn name (some version) ∧ StaysIn name none := by
    rintro name version ⟨noSlash, notHere, notUp⟩ versionOnly
    exact ⟨⟨noSlash, notHere, notUp, by rintro _ ⟨⟩; exact versionOnly⟩,
      ⟨noSlash, notHere, notUp, by rintro _ ⟨⟩⟩⟩
  refine ⟨(stays "" "1" (by decide) (by decide)).1, (stays "-1" "1" (by decide) (by decide)).2,
    (stays "" "1" (by decide) (by decide)).2, by decide +kernel, by decide +kernel,
    (stays "web" "" (by decide) (by decide)).1, (stays "web" "" (by decide) (by decide)).2,
    by decide +kernel⟩

end Coexist

end ChartInflation.ChartReference
