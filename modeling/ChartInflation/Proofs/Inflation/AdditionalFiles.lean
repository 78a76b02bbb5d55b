import ChartInflation.Proofs.Inflation.Arguments
import ChartInflation.Proofs.Inflation.Parameters
import ChartInflation.Proofs.Inflation.Positionals
import ChartInflation.Proofs.Loader
import Mathlib.Data.List.Forall2

/-!
# Further values files

The files that a configuration lists beside its values file are checked as they are listed, and
handed on as seen from the loader's root.  With every loader that there is the two are the same file
(`additional_files_loaded`), so that no file which the loader refuses is named to the renderer.
-/

set_option autoImplicit false

namespace ChartInflation

namespace Loader

/-- A loader as it is made: of a directory, or of files in memory below an absolute root. -/
inductive IsMade : Loader → Prop where
  | ofDirectory {fs : FileSystem} {here : Location} {root : Path} {restriction : LoadRestriction}
      {loader : Loader} (made : ofDirectory fs here root restriction = .ok loader) : IsMade loader
  | ofFiles {root : Path} (absolute : root.isAbsolute) (files : List (Path × Bytes)) :
      IsMade (ofFiles root files)

def Loads (loader : Loader) (fs : FileSystem) (file : Path) : Prop :=
  ∃ bytes, loader.load fs file = .ok bytes

/-- A file is the first of some that cannot be loaded, for a reason. -/
def FailsFirst (loader : Loader) (fs : FileSystem) (files : List Path) (file : Path)
    (cause : InputError) : Prop :=
  ∃ front back, files = front ++ file :: back ∧ (∀ f ∈ front, loader.Loads fs f) ∧
    loader.load fs file = .error cause

variable {loader : Loader} {fs : FileSystem} {here : Location} {root first file : Path}
  {rest : List Path} {cause : InputError}

theorem failsFirst_cons_of_error {e : InputError} (failed : loader.load fs first = .error e) :
    loader.FailsFirst fs (first :: rest) file cause ↔ file = first ∧ cause = e := by
  constructor
  · rintro ⟨front, back, cut, loads, isCause⟩
    cases front with
    | nil =>
        obtain ⟨rfl, -⟩ := List.cons.inj cut
        exact ⟨rfl, Except.error.inj (isCause.symm.trans failed)⟩
    | cons f front =>
        obtain ⟨rfl, -⟩ := List.cons.inj cut
        obtain ⟨bytes, loaded⟩ := loads first (List.mem_cons_self ..)
        rw [failed] at loaded
        cases loaded
  · rintro ⟨rfl, rfl⟩
    exact ⟨[], rest, rfl, by simp, failed⟩

theorem failsFirst_cons_of_loads (loads : loader.Loads fs first) :
    loader.FailsFirst fs (first :: rest) file cause ↔ loader.FailsFirst fs rest file cause := by
  constructor
  · rintro ⟨front, back, cut, load, isCause⟩
    cases front with
    | nil =>
        obtain ⟨rfl, -⟩ := List.cons.inj cut
        obtain ⟨bytes, loaded⟩ := loads
        rw [isCause] at loaded
        cases loaded
    | cons f front =>
        obtain ⟨-, behind⟩ := List.cons.inj cut
        exact ⟨front, back, behind, fun g member => load g (List.mem_cons_of_mem f member), isCause⟩
  · rintro ⟨front, back, rfl, load, isCause⟩
    refine ⟨first :: front, back, rfl, ?_, isCause⟩
    simpa [loads] using load

/-! ## A path as it is listed, and as it is seen from the root -/

theorem exists_ofTop {restriction : LoadRestriction}
    (made : Loader.ofDirectory fs here root restriction = .ok loader) :
    ∃ top, loader = ofTop top restriction := by
  cases isDirectory : fs.isDirectory here root with
  | false => simp [Loader.ofDirectory, isDirectory] at made
  | true =>
      obtain ⟨top, located, _⟩ := isDirectory_iff.mp isDirectory
      rw [ofDirectory_eq_ok isDirectory located] at made
      exact ⟨top, (Except.ok.inj made).symm⟩

/-- Whether a path is written from the root on or not, the same is read; only an error may name it
differently. -/
theorem load_join_ofTop (top : Location) (restriction : LoadRestriction) (fs : FileSystem)
    (path : Path) :
    ((ofTop top restriction).load fs (top.path.join path)).toOption =
      ((ofTop top restriction).load fs path).toOption := by
  have same : fs.locate [] (top.path.join (top.path.join path)) =
      fs.locate [] (top.path.join path) := by
    rw [Path.join_join path (FileSystem.isAbsolute_path top)]
  cases located : fs.locate [] (top.path.join path) with
  | error e => rw [load_of_error (same.trans located), load_of_error located]; rfl
  | ok l =>
      have again := same.trans located
      cases restriction with
      | unrestricted => rw [load_unrestricted again, load_unrestricted located]
      | rootOnly =>
          by_cases inside : top <+: l
          · rw [load_inside again inside, load_inside located inside]
          · rw [load_outside again inside, load_outside located inside]

theorem IsMade.isAbsolute (made : loader.IsMade) : loader.root.isAbsolute := by
  cases made with
  | ofDirectory made =>
      obtain ⟨top, rfl⟩ := exists_ofTop made
      exact FileSystem.isAbsolute_path top
  | ofFiles absolute files => exact absolute

theorem IsMade.load_join (made : loader.IsMade) (fs : FileSystem) (path : Path) :
    (loader.load fs (loader.root.join path)).toOption = (loader.load fs path).toOption := by
  cases made with
  | ofDirectory made =>
      obtain ⟨top, rfl⟩ := exists_ofTop made
      exact load_join_ofTop top _ fs path
  | ofFiles absolute files =>
      simp only [Loader.ofFiles, Path.join_join path absolute]

end Loader

namespace Parameters

variable {s : Settings} {c : ChartConfiguration} {loader : Loader} {fs : FileSystem}
  {files given : List Path}

theorem additionalFiles_eq_ok_iff : additionalFiles loader fs files = .ok given ↔
    (∀ file ∈ files, loader.Loads fs file) ∧ given = files.map loader.root.join := by
  induction files generalizing given with
  | nil => simp [additionalFiles, eq_comm]
  | cons file rest ih =>
      rw [additionalFiles]
      cases loaded : loader.load fs file with
      | error e => simp [Loader.Loads, loaded]
      | ok bytes =>
          have loads : loader.Loads fs file := ⟨bytes, loaded⟩
          simp only [Outcome.bind_eq_ok_iff, ih, Outcome.pure_eq_ok, Except.ok.injEq,
            List.forall_mem_cons, loads, true_and, List.map_cons]
          constructor
          · rintro ⟨_, ⟨load, rfl⟩, rfl⟩
            exact ⟨load, rfl⟩
          · rintro ⟨load, rfl⟩
            exact ⟨_, ⟨load, rfl⟩, rfl⟩

theorem additionalFiles_eq_error_iff {e : InflationError} :
    additionalFiles loader fs files = .error e ↔ ∃ file cause,
      loader.FailsFirst fs files file cause ∧ e = .invalid
        ("could not load additionalValuesFile '" ++ file.text ++ "': " ++ cause.message) := by
  induction files with
  | nil => simp [additionalFiles, Loader.FailsFirst]
  | cons first rest ih =>
      rw [additionalFiles]
      cases loaded : loader.load fs first with
      | error cause =>
          simp only [Loader.failsFirst_cons_of_error loaded, Except.error.injEq]
          constructor
          · rintro rfl
            exact ⟨first, cause, ⟨rfl, rfl⟩, rfl⟩
          · rintro ⟨file, cause, ⟨rfl, rfl⟩, rfl⟩
            rfl
      | ok bytes =>
          simp only [Loader.failsFirst_cons_of_loads ⟨bytes, loaded⟩, ← ih]
          simp [Outcome.bind_eq_error_iff, Outcome.pure_eq_ok]

/-- A configuration that is in order but for the files it lists hangs on those alone. -/
theorem ofConfiguration_of_otherwise
    (otherwise : ∃ q, ofConfiguration s { c with additionalValuesFiles := [] } loader fs = .ok q) :
    ∃ policy, ofConfiguration s c loader fs =
      assembled s.command (s.override c) loader.root policy <$>
        additionalFiles loader fs c.additionalValuesFiles := by
  obtain ⟨q, accepted⟩ := otherwise
  obtain ⟨allowed, policy, additional, inOrder, _⟩ := ofConfiguration_eq_ok_iff.mp accepted
  refine ⟨policy, ?_⟩
  rw [ofConfiguration_eq, allowed, Outcome.ok_bind]
  rw [checked] at inOrder ⊢
  by_cases blank : onlyBlanks c.name
  · rw [if_pos blank] at inOrder
    cases inOrder
  · rw [if_neg blank] at inOrder ⊢
    obtain ⟨found, isPolicy, rest⟩ := Outcome.bind_eq_ok_iff.mp inOrder
    obtain rfl : found = policy := by
      simp only [additionalFiles, Outcome.bind_eq_ok_iff, Outcome.pure_eq_ok] at rest
      obtain ⟨_, _, same⟩ := rest
      exact congrArg Prod.fst (Except.ok.inj same)
    have named : policyOf c.valuesMerge = .ok found := isPolicy
    rw [named]
    cases additionalFiles loader fs c.additionalValuesFiles with
    | error e => rfl
    | ok additional => rfl

theorem exists_valuesFiles (p : Parameters) (valuesFile : Path) : ∃ front back,
    templateArguments p valuesFile = front ++ ["-f", valuesFile.text] ++
      options "-f" (p.values.additionalFiles.map (·.text)) ++ back := by
  refine ⟨["template", p.render.releaseName.getD "--generate-name", p.chart.directory.text] ++
    option "--namespace" p.render.namespaceName ++ option "--name-template" p.render.nameTemplate,
    options "--api-versions" p.render.apiVersions ++ option "--kube-version" p.render.kubeVersion ++
    flag "--include-crds" p.render.includeCRDs ++ flag "--skip-tests" p.render.skipTests ++
    flag "--no-hooks" p.render.skipHooks ++ flag "--debug" p.render.debug, ?_⟩
  simp only [templateArguments, List.append_assoc]

/-- A configuration that is otherwise in order is accepted exactly if every file it lists can be
loaded; else the error names the first that cannot.  If it is accepted, there is one path for each
file, in order and from the root on, behind which the loader has the same file; and these are the
files that the renderer is named, in order and behind the effective values. -/
theorem additional_files_loaded (made : loader.IsMade)
    (otherwise : ∃ q, ofConfiguration s { c with additionalValuesFiles := [] } loader fs = .ok q) :
    ((∃ p, ofConfiguration s c loader fs = .ok p) ↔
      ∀ file ∈ c.additionalValuesFiles, loader.Loads fs file) ∧
    (∀ e, ofConfiguration s c loader fs = .error e ↔ ∃ file cause,
      loader.FailsFirst fs c.additionalValuesFiles file cause ∧ e = .invalid
        ("could not load additionalValuesFile '" ++ file.text ++ "': " ++ cause.message)) ∧
    ∀ p, ofConfiguration s c loader fs = .ok p →
      List.Forall₂ (fun listed given => given.isAbsolute ∧
          (∃ bytes, loader.load fs listed = .ok bytes ∧ loader.load fs given = .ok bytes) ∧
          ∀ later, (loader.load later given).toOption = (loader.load later listed).toOption)
        c.additionalValuesFiles p.values.additionalFiles ∧
      ∀ valuesFile,
        (∃ front back, templateArguments p valuesFile = front ++ ["-f", valuesFile.text] ++
          options "-f" (p.values.additionalFiles.map (·.text)) ++ back) ∧
        (Rendering.ofArguments (templateArguments p valuesFile)).map (·.valuesFiles) =
          some (valuesFile.text :: p.values.additionalFiles.map (·.text)) := by
  obtain ⟨policy, whole⟩ := ofConfiguration_of_otherwise otherwise
  refine ⟨?_, fun e => ?_, fun p accepted => ⟨?_, fun valuesFile => ⟨?_, ?_⟩⟩⟩
  · simp only [whole, Outcome.map_eq_ok_iff, additionalFiles_eq_ok_iff]
    constructor
    · rintro ⟨_, _, ⟨load, _⟩, _⟩
      exact load
    · exact fun load => ⟨_, _, ⟨load, rfl⟩, rfl⟩
  · rw [whole, ← additionalFiles_eq_error_iff]
    cases additionalFiles loader fs c.additionalValuesFiles with
    | error cause => simp
    | ok given => simp
  · rw [whole, Outcome.map_eq_ok_iff] at accepted
    obtain ⟨given, areGiven, rfl⟩ := accepted
    obtain ⟨load, rfl⟩ := additionalFiles_eq_ok_iff.mp areGiven
    rw [assembled, List.forall₂_map_right_iff, List.forall₂_same]
    intro listed member
    obtain ⟨bytes, loaded⟩ := load listed member
    refine ⟨Path.isAbsolute_join_left listed made.isAbsolute, ⟨bytes, loaded, ?_⟩,
      fun later => made.load_join later listed⟩
    have same := made.load_join fs listed
    rw [loaded] at same
    exact Outcome.toOption_eq_some_iff.mp same
  · exact exists_valuesFiles p valuesFile
  · rw [ofArguments_eq]
    rfl

def stocked : FileSystem :=
  ⟨[(["work"], .directory), (["work", "a.yaml"], .file (Bytes.ofString "a: 1\n") false),
    (["work", "sub"], .directory), (["work", "sub", "b.yaml"], .file (Bytes.ofString "b: 2\n") false),
    (["secret.yaml"], .file (Bytes.ofString "c: 3\n") false)]⟩

def listing (files : List String) : ChartConfiguration :=
  { name := "web", additionalValuesFiles := files.map Path.mk }

theorem additional_files_loaded_below_root : ∃ loader,
    Loader.ofDirectory stocked [] ⟨"/work"⟩ .rootOnly = .ok loader ∧ loader.IsMade ∧
    (∃ q, ofConfiguration permissive (listing []) loader stocked = .ok q) ∧
    (∃ p, ofConfiguration permissive (listing ["sub/../a.yaml", "/work/sub/b.yaml"]) loader stocked =
        .ok p ∧
      (Rendering.ofArguments (templateArguments p ⟨"/tmp/v.yaml"⟩)).map (·.valuesFiles) =
        some ["/tmp/v.yaml", "/work/sub/../a.yaml", "/work/sub/b.yaml"]) ∧
    ofConfiguration permissive (listing ["a.yaml", "../secret.yaml", "c.yaml"]) loader stocked =
      .error (.invalid ("could not load additionalValuesFile '../secret.yaml': " ++
        "Security: '/secret.yaml' is not in or below '/work'")) := by
  have isDirectory : stocked.isDirectory [] ⟨"/work"⟩ := by decide +kernel
  have made : Loader.ofDirectory stocked [] ⟨"/work"⟩ .rootOnly =
      .ok (Loader.ofTop ["work"] .rootOnly) := Loader.ofDirectory_eq_ok isDirectory rfl
  refine ⟨_, made, .ofDirectory made, ?_⟩
  have evaluated : (ofConfiguration permissive (listing []) (Loader.ofTop ["work"] .rootOnly)
      stocked).toOption.map (·.command) = some "helm" := by decide +kernel
  obtain ⟨q, otherwise, _⟩ := Outcome.exists_ok_of_toOption evaluated
  obtain ⟨_, _, passes⟩ := additional_files_loaded (.ofDirectory made)
    (c := listing ["sub/../a.yaml", "/work/sub/b.yaml"]) ⟨q, otherwise⟩
  obtain ⟨_, refuses, _⟩ := additional_files_loaded (.ofDirectory made)
    (c := listing ["a.yaml", "../secret.yaml", "c.yaml"]) ⟨q, otherwise⟩
  refine ⟨⟨q, otherwise⟩, ?_, ?_⟩
  · have areGiven : (ofConfiguration permissive (listing ["sub/../a.yaml", "/work/sub/b.yaml"])
        (Loader.ofTop ["work"] .rootOnly) stocked).toOption.map (·.values.additionalFiles) =
        some [⟨"/work/sub/../a.yaml"⟩, ⟨"/work/sub/b.yaml"⟩] := by decide +kernel
    obtain ⟨p, accepted, given⟩ := Outcome.exists_ok_of_toOption areGiven
    refine ⟨p, accepted, ?_⟩
    rw [((passes p accepted).2 ⟨"/tmp/v.yaml"⟩).2, given]
    rfl
  · refine (refuses _).mpr ⟨⟨"../secret.yaml"⟩, .outsideRoot ⟨"/secret.yaml"⟩ ⟨"/work"⟩, ?_, rfl⟩
    refine ⟨[⟨"a.yaml"⟩], [⟨"c.yaml"⟩], rfl, ?_, rfl⟩
    intro file member
    obtain rfl := List.mem_singleton.mp member
    exact ⟨Bytes.ofString "a: 1\n", rfl⟩

end Parameters

end ChartInflation
