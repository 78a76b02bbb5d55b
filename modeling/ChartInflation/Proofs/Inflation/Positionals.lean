import ChartInflation.Inflation.Arguments
import ChartInflation.Proofs.Inflation.Parameters
import ChartInflation.Proofs.Path
import Mathlib.Data.List.DropRight

/-!
# Arguments known by their place

The renderer takes an argument for an option if it begins with a dash.  Of the arguments that it
should know by their place, the directory of a chart and the address of a chart in a registry are
never taken so; a release name and the name of another chart are passed as they are configured
(`option_mem_positionals_iff`, `positionals_as_options`).
-/

set_option autoImplicit false

namespace ChartInflation

def IsOption (argument : String) : Prop :=
  argument.toList.head? = some '-'

instance : DecidablePred IsOption := fun argument =>
  inferInstanceAs (Decidable (argument.toList.head? = some '-'))

theorem not_isOption_of_isAbsolute {p : Path} (absolute : p.isAbsolute) : ¬ IsOption p.text := by
  rw [Path.isAbsolute_iff] at absolute
  rw [IsOption, absolute]
  decide

/-! ## What is pulled -/

namespace ChartReference

/-- Cutting slashes off the end leaves a first character that is none. -/
theorem head?_withoutSlashes {s : String} {c : Char} (first : s.toList.head? = some c)
    (noSlash : c ≠ '/') : (withoutSlashes s).toList.head? = some c := by
  obtain ⟨rest, text⟩ := List.head?_eq_some_iff.mp first
  have isCut : (withoutSlashes s).toList = s.toList.rdropWhile (· == '/') := by
    rw [withoutSlashes, String.toList_ofList, List.rdropWhile]
  have inFront : (withoutSlashes s).toList <+: c :: rest := by
    rw [isCut, ← text]
    exact List.rdropWhile_prefix _ _
  cases kept : (withoutSlashes s).toList with
  | nil =>
      rw [isCut, List.rdropWhile_eq_nil_iff, text] at kept
      exact absurd (kept c (List.mem_cons_self ..)) (by simpa using noSlash)
  | cons d more =>
      rw [kept, List.cons_prefix_cons] at inFront
      rw [List.head?_cons, inFront.1]

theorem pullTarget_of_registry {c : ChartReference} (registry : c.isRegistry) :
    ∃ target, c.pullTarget = [target] ∧ ¬ IsOption target := by
  cases located : c.repository with
  | none => simp [isRegistry, located] at registry
  | some repository =>
      refine ⟨withoutSlashes repository ++ "/" ++ c.name, ?_, ?_⟩
      · rw [pullTarget, located]
        exact if_pos registry
      · have first : repository.toList.head? = some 'o' := by
          rw [isRegistry, located] at registry
          obtain ⟨rest, text⟩ := List.isPrefixOf_iff_prefix.mp registry
          rw [← text]
          rfl
        have kept := head?_withoutSlashes first (by decide)
        rw [IsOption, String.toList_append, String.toList_append, List.append_assoc,
          List.head?_append, kept, Option.some_or]
        decide

theorem pullTarget_of_other {c : ChartReference} (other : c.isRegistry = false) :
    c.pullTarget.getLast? = some c.name := by
  unfold pullTarget
  split
  · rw [other, if_neg Bool.false_ne_true]
    rfl
  · rfl

end ChartReference

/-! ## What the configuration supplies -/

namespace Parameters

/-- The arguments that the renderer should know by their place: a release name and the directory of
the chart when it renders, and what is pulled. -/
def positionals (p : Parameters) : List String :=
  p.render.releaseName.toList ++ [p.chart.directory.text] ++ p.chart.pullTarget.getLast?.toList

variable {s : Settings} {c : ChartConfiguration} {configuration : Bytes} {loader : Loader}
  {fs : FileSystem} {p : Parameters}

theorem of_ofConfiguration (accepted : ofConfiguration s c loader fs = .ok p) :
    (∃ home, p.chart = ChartReference.of c.name c.version c.repo home loader.root) ∧
      p.render.releaseName = unlessEmpty c.releaseName := by
  obtain ⟨_, policy, additional, _, rfl⟩ := ofConfiguration_eq_ok_iff.mp accepted
  exact ⟨⟨_, rfl⟩, rfl⟩

theorem of_resolve (accepted : resolve s configuration loader fs = .ok p) :
    ∃ c, ChartConfiguration.ofBytes configuration = .ok c ∧
      ofConfiguration s c loader fs = .ok p := by
  obtain ⟨_, _, accepted⟩ := Outcome.bind_eq_ok_iff.mp accepted
  cases read : ChartConfiguration.ofBytes configuration with
  | error fault =>
      rw [read] at accepted
      cases accepted
  | ok c =>
      rw [read] at accepted
      exact ⟨c, rfl, accepted⟩

theorem isAbsolute_directory {name : String} {version repository : Option String} {home root : Path}
    (absolute : root.isAbsolute) :
    (ChartReference.of name version repository home root).directory.isAbsolute := by
  have below := Path.isAbsolute_join_left home absolute
  apply Path.isAbsolute_join_left
  unfold ChartReference.home
  split
  · exact Path.isAbsolute_join_left _ below
  · exact below

/-- The directory of a chart and its address in a registry are never taken for options.  The arguments
that are, though the renderer should know them by their place, are a release name and, unless it is
pulled from a registry, a chart's name that are configured so. -/
theorem option_mem_positionals_iff (accepted : resolve s configuration loader fs = .ok p)
    (absolute : loader.root.isAbsolute) :
    (∀ file, (templateArguments p file).take 3 =
      ["template", p.render.releaseName.getD "--generate-name", p.chart.directory.text]) ∧
    p.chart.pullTarget <:+: p.chart.pullArguments ∧
    ¬ IsOption p.chart.directory.text ∧
    (p.chart.isRegistry → ∃ target, p.chart.pullTarget = [target] ∧ ¬ IsOption target) ∧
    ∃ c, ChartConfiguration.ofBytes configuration = .ok c ∧ ∀ argument, IsOption argument →
      (argument ∈ p.positionals ↔
        c.releaseName = some argument ∨ p.chart.isRegistry = false ∧ c.name = argument) := by
  obtain ⟨c, read, given⟩ := of_resolve accepted
  obtain ⟨⟨home, isChart⟩, release⟩ := of_ofConfiguration given
  have noOption : ¬ IsOption p.chart.directory.text := by
    rw [isChart]
    exact not_isOption_of_isAbsolute (isAbsolute_directory absolute)
  refine ⟨fun file => by simp [templateArguments], ⟨_, _, rfl⟩, noOption,
    ChartReference.pullTarget_of_registry, c, read, fun argument isOption => ?_⟩
  have isRelease : argument ∈ p.render.releaseName.toList ↔ c.releaseName = some argument := by
    have inhabited : argument ≠ "" := by
      rintro rfl
      cases isOption
    rw [Option.mem_toList, release, unlessEmpty, Option.filter_eq_some_iff]
    simp [inhabited]
  have isDirectory : argument ≠ p.chart.directory.text := fun same => noOption (same ▸ isOption)
  have isPulled : argument ∈ p.chart.pullTarget.getLast?.toList ↔
      p.chart.isRegistry = false ∧ c.name = argument := by
    cases registry : p.chart.isRegistry with
    | true =>
        obtain ⟨target, isTarget, noOption⟩ := ChartReference.pullTarget_of_registry registry
        have differs : target ≠ argument := fun same => noOption (same ▸ isOption)
        simp [isTarget, differs.symm]
    | false =>
        have named : p.chart.name = c.name := by rw [isChart]; rfl
        rw [ChartReference.pullTarget_of_other registry, named]
        simp [eq_comm]
  rw [positionals, List.mem_append, List.mem_append, isRelease, isPulled, List.mem_singleton]
  simp [isDirectory]

def permissive : Settings := { enabled := true, command := "helm" }

def workLoader : Loader := Loader.ofFiles ⟨"/work"⟩ []

def dashedChart : Bytes := Bytes.ofString
  "name: -web\nrepo: 'oci://'\nchartHome: -charts\nreleaseName: web\n"

theorem option_mem_positionals_dashed :
    ∃ p, resolve permissive dashedChart workLoader .empty = .ok p ∧ workLoader.root.isAbsolute ∧
      p.positionals = ["web", "/work/-charts/-web", "oci:/-web"] ∧
      ∀ argument ∈ p.positionals, ¬ IsOption argument := by
  have evaluated : (resolve permissive dashedChart workLoader .empty).toOption.map
        (fun p => (p.positionals, p.chart.isRegistry)) =
      some (["web", "/work/-charts/-web", "oci:/-web"], true) := by
    decide +kernel
  have release : (ChartConfiguration.ofBytes dashedChart).toOption.map (·.releaseName) =
      some (some "web") := by
    decide +kernel
  obtain ⟨p, accepted, found⟩ := Outcome.exists_ok_of_toOption evaluated
  obtain ⟨arguments, registry⟩ := Prod.mk.inj found
  obtain ⟨_, _, _, _, c, read, exactly⟩ := option_mem_positionals_iff accepted (by decide)
  obtain ⟨c', read', release⟩ := Outcome.exists_ok_of_toOption release
  obtain rfl := Except.ok.inj (read.symm.trans read')
  refine ⟨p, accepted, by decide, arguments, fun argument member isOption => ?_⟩
  rcases (exactly argument isOption).mp member with configured | ⟨other, _⟩
  · obtain rfl := Option.some.inj (release.symm.trans configured)
    exact absurd isOption (by decide)
  · rw [registry] at other
    cases other

def optionNames : Bytes := Bytes.ofString
  "name: --devel\nrepo: 'https://charts.example'\nreleaseName: --post-renderer=./run\n"

/-- Nothing refuses such names. -/
theorem positionals_as_options :
    ∃ p, resolve permissive optionNames workLoader .empty = .ok p ∧ workLoader.root.isAbsolute ∧
      p.positionals = ["--post-renderer=./run", "/work/charts/--devel", "--devel"] ∧
      IsOption "--post-renderer=./run" ∧ IsOption "--devel" := by
  have evaluated : (resolve permissive optionNames workLoader .empty).toOption.map (·.positionals) =
      some ["--post-renderer=./run", "/work/charts/--devel", "--devel"] := by
    decide +kernel
  obtain ⟨p, accepted, arguments⟩ := Outcome.exists_ok_of_toOption evaluated
  exact ⟨p, accepted, by decide, arguments, by decide, by decide⟩

end Parameters

end ChartInflation
