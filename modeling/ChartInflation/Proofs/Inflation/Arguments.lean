import ChartInflation.Inflation.Arguments

/-!
# What the arguments say

The arguments that render a chart are read back group by group: a word that names an option is
followed by one value, whatever that value looks like.  As the groups stand in a fixed order and the
words that name them differ, this gives back all that was put in (`ofArguments_templateArguments`).
-/

set_option autoImplicit false

namespace ChartInflation

structure Rendering where
  releaseName : Option String
  chart : String
  namespaceName : Option String
  nameTemplate : Option String
  valuesFiles : List String
  apiVersions : List String
  kubeVersion : Option String
  includeCRDs : Bool
  skipTests : Bool
  skipHooks : Bool
  debug : Bool

def Rendering.of (p : Parameters) (valuesFile : Path) : Rendering where
  releaseName := p.render.releaseName
  chart := p.chart.directory.text
  namespaceName := p.render.namespaceName
  nameTemplate := p.render.nameTemplate
  valuesFiles := valuesFile.text :: p.values.additionalFiles.map (·.text)
  apiVersions := p.render.apiVersions
  kubeVersion := p.render.kubeVersion
  includeCRDs := p.render.includeCRDs
  skipTests := p.render.skipTests
  skipHooks := p.render.skipHooks
  debug := p.render.debug

def takeOptions (name : String) : List String → List String × List String
  | word :: value :: rest =>
    if word = name then
      let (values, rest) := takeOptions name rest
      (value :: values, rest)
    else ([], word :: value :: rest)
  | words => ([], words)

def takeFlag (name : String) : List String → Bool × List String
  | word :: rest => if word = name then (true, rest) else (false, word :: rest)
  | [] => (false, [])

namespace Rendering

def ofOptions (releaseName : Option String) (chart : String) (words : List String) : Rendering :=
  let (namespaces, words) := takeOptions "--namespace" words
  let (templates, words) := takeOptions "--name-template" words
  let (valuesFiles, words) := takeOptions "-f" words
  let (apiVersions, words) := takeOptions "--api-versions" words
  let (kubeVersions, words) := takeOptions "--kube-version" words
  let (includeCRDs, words) := takeFlag "--include-crds" words
  let (skipTests, words) := takeFlag "--skip-tests" words
  let (skipHooks, words) := takeFlag "--no-hooks" words
  let (debug, _) := takeFlag "--debug" words
  { releaseName := releaseName
    chart := chart
    namespaceName := namespaces.head?
    nameTemplate := templates.head?
    valuesFiles := valuesFiles
    apiVersions := apiVersions
    kubeVersion := kubeVersions.head?
    includeCRDs := includeCRDs
    skipTests := skipTests
    skipHooks := skipHooks
    debug := debug }

def ofArguments : List String → Option Rendering
  | _ :: release :: chart :: words =>
    some (ofOptions (if release = "--generate-name" then none else some release) chart words)
  | _ => none

end Rendering

/-! ## Groups of words -/

section Groups
variable {names words : List String}

def BeginsWith (names words : List String) : Prop :=
  ∀ word, words.head? = some word → word ∈ names

theorem beginsWith_nil (names : List String) : BeginsWith names [] := by
  intro word first
  cases first

theorem option_eq (name : String) (value : Option String) :
    option name value = options name value.toList := by
  cases value <;> rfl

theorem beginsWith_options (name : String) (values : List String) (behind : BeginsWith names words) :
    BeginsWith (name :: names) (options name values ++ words) := by
  intro word first
  cases values with
  | nil => exact List.mem_cons_of_mem name (behind word first)
  | cons value values =>
      obtain rfl := Option.some.inj first
      exact List.mem_cons_self ..

theorem beginsWith_flag (name : String) (given : Bool) (behind : BeginsWith names words) :
    BeginsWith (name :: names) (flag name given ++ words) := by
  intro word first
  cases given with
  | false => exact List.mem_cons_of_mem name (behind word first)
  | true =>
      obtain rfl := Option.some.inj first
      exact List.mem_cons_self ..

/-- The values of an option are read back, even where they look like other options, if what follows
them does not begin with this one. -/
theorem takeOptions_options (name : String) (values : List String)
    (behind : BeginsWith names words) (other : name ∉ names) :
    takeOptions name (options name values ++ words) = (values, words) := by
  induction values with
  | nil =>
      change takeOptions name words = ([], words)
      cases words with
      | nil => rfl
      | cons word words =>
          have differs : word ≠ name := fun same => other (same ▸ behind word rfl)
          cases words with
          | nil => rfl
          | cons value words => rw [takeOptions, if_neg differs]
  | cons value values ih =>
      change takeOptions name (name :: value :: (options name values ++ words)) = _
      rw [takeOptions, if_pos rfl, ih]

theorem takeFlag_flag (name : String) (given : Bool) (behind : BeginsWith names words)
    (other : name ∉ names) : takeFlag name (flag name given ++ words) = (given, words) := by
  cases given with
  | true =>
      change takeFlag name (name :: words) = _
      rw [takeFlag, if_pos rfl]
  | false =>
      change takeFlag name words = (false, words)
      cases words with
      | nil => rfl
      | cons word words =>
          have differs : word ≠ name := fun same => other (same ▸ behind word rfl)
          rw [takeFlag, if_neg differs]

end Groups

/-! ## All arguments -/

section Arguments
variable {p : Parameters}

/-- The groups of the arguments, each with all that follows it. -/
theorem templateArguments_eq (p : Parameters) (valuesFile : Path) :
    templateArguments p valuesFile =
      "template" :: p.render.releaseName.getD "--generate-name" :: p.chart.directory.text ::
        (options "--namespace" p.render.namespaceName.toList ++
        (options "--name-template" p.render.nameTemplate.toList ++
        (options "-f" (valuesFile.text :: p.values.additionalFiles.map (·.text)) ++
        (options "--api-versions" p.render.apiVersions ++
        (options "--kube-version" p.render.kubeVersion.toList ++
        (flag "--include-crds" p.render.includeCRDs ++
        (flag "--skip-tests" p.render.skipTests ++
        (flag "--no-hooks" p.render.skipHooks ++
        (flag "--debug" p.render.debug ++ []))))))))) := by
  have files : ["-f", valuesFile.text] ++ options "-f" (p.values.additionalFiles.map (·.text)) =
      options "-f" (valuesFile.text :: p.values.additionalFiles.map (·.text)) := rfl
  simp only [templateArguments, option_eq, ← files, List.append_assoc, List.cons_append,
    List.nil_append, List.append_nil]

theorem releaseName_read (name : Option String) :
    (if name.getD "--generate-name" = "--generate-name" then none
      else some (name.getD "--generate-name")) = name.filter (· != "--generate-name") := by
  cases name with
  | none => rfl
  | some name => by_cases same : name = "--generate-name" <;> simp [same, Option.filter]

/-- The arguments give back what is rendered; a release name that asks for a generated one is none. -/
theorem ofArguments_eq (p : Parameters) (valuesFile : Path) :
    Rendering.ofArguments (templateArguments p valuesFile) =
      some { Rendering.of p valuesFile with
        releaseName := p.render.releaseName.filter (· != "--generate-name") } := by
  -- from the last group to the first, what each one may begin with
  have atEnd := beginsWith_nil []
  have atDebug := beginsWith_flag "--debug" p.render.debug atEnd
  have atHooks := beginsWith_flag "--no-hooks" p.render.skipHooks atDebug
  have atTests := beginsWith_flag "--skip-tests" p.render.skipTests atHooks
  have atCRDs := beginsWith_flag "--include-crds" p.render.includeCRDs atTests
  have atKube := beginsWith_options "--kube-version" p.render.kubeVersion.toList atCRDs
  have atVersions := beginsWith_options "--api-versions" p.render.apiVersions atKube
  have atFiles := beginsWith_options "-f"
    (valuesFile.text :: p.values.additionalFiles.map (·.text)) atVersions
  have atTemplate := beginsWith_options "--name-template" p.render.nameTemplate.toList atFiles
  rw [templateArguments_eq, Rendering.ofArguments, releaseName_read, Rendering.ofOptions]
  simp only [takeOptions_options "--namespace" _ atTemplate (by decide),
    takeOptions_options "--name-template" _ atFiles (by decide),
    takeOptions_options "-f" _ atVersions (by decide),
    takeOptions_options "--api-versions" _ atKube (by decide),
    takeOptions_options "--kube-version" _ atCRDs (by decide),
    takeFlag_flag "--include-crds" _ atTests (by decide),
    takeFlag_flag "--skip-tests" _ atHooks (by decide),
    takeFlag_flag "--no-hooks" _ atDebug (by decide),
    takeFlag_flag "--debug" _ atEnd (by decide), Option.head?_toList]
  rfl

theorem ofArguments_templateArguments (valuesFile : Path)
    (named : p.render.releaseName ≠ some "--generate-name") :
    Rendering.ofArguments (templateArguments p valuesFile) = some (Rendering.of p valuesFile) := by
  have kept : p.render.releaseName.filter (· != "--generate-name") = p.render.releaseName := by
    cases given : p.render.releaseName with
    | none => rfl
    | some name =>
        have differs : name ≠ "--generate-name" := fun same => named (same ▸ given)
        simp [differs, Option.filter]
  rw [ofArguments_eq, kept]
  rfl

/-- Equal arguments render the same chart in the same way. -/
theorem templateArguments_inj {q : Parameters} {file file' : Path}
    (named : p.render.releaseName ≠ some "--generate-name")
    (named' : q.render.releaseName ≠ some "--generate-name")
    (same : templateArguments p file = templateArguments q file') :
    p.render.releaseName = q.render.releaseName ∧
      p.chart.directory.text = q.chart.directory.text ∧
      p.render.namespaceName = q.render.namespaceName ∧
      p.render.nameTemplate = q.render.nameTemplate ∧
      file.text = file'.text ∧
      p.values.additionalFiles.map (·.text) = q.values.additionalFiles.map (·.text) ∧
      p.render.apiVersions = q.render.apiVersions ∧
      p.render.kubeVersion = q.render.kubeVersion ∧
      p.render.includeCRDs = q.render.includeCRDs ∧
      p.render.skipTests = q.render.skipTests ∧
      p.render.skipHooks = q.render.skipHooks ∧
      p.render.debug = q.render.debug := by
  have read : Rendering.of p file = Rendering.of q file' := by
    apply Option.some.inj
    rw [← ofArguments_templateArguments file named, same, ofArguments_templateArguments file' named']
  simp only [Rendering.of, Rendering.mk.injEq, List.cons.injEq] at read
  obtain ⟨release, chart, namespaces, template, ⟨values, additional⟩, versions, kube, crds, tests,
    hooks, debug⟩ := read
  exact ⟨release, chart, namespaces, template, values, additional, versions, kube, crds, tests, hooks,
    debug⟩

end Arguments

def disguised (charts name : String) : Parameters where
  command := "helm"
  chart := ⟨name, none, none, ⟨charts⟩⟩
  values := ⟨⟨"values.yaml"⟩, [⟨"-f"⟩, ⟨"--debug"⟩], .null, .standard⟩
  render := {
    releaseName := some "-f"
    namespaceName := some "--name-template"
    nameTemplate := some "--namespace"
    apiVersions := ["--api-versions", "--kube-version"]
    kubeVersion := some "--no-hooks"
    skipHooks := true }
  configHome := none

/-- Different charts in one directory have the same arguments. -/
theorem templateArguments_inj_disguised :
    (disguised "/charts" "a/b").chart ≠ (disguised "/charts/a" "b").chart ∧
    (disguised "/charts" "a/b").render.releaseName ≠ some "--generate-name" ∧
    (disguised "/charts/a" "b").render.releaseName ≠ some "--generate-name" ∧
    templateArguments (disguised "/charts" "a/b") ⟨"--debug"⟩ =
      templateArguments (disguised "/charts/a" "b") ⟨"--debug"⟩ ∧
    (disguised "/charts" "a/b").chart.directory.text =
      (disguised "/charts/a" "b").chart.directory.text ∧
    (disguised "/charts" "a/b").render.kubeVersion =
      (disguised "/charts/a" "b").render.kubeVersion := by
  have named : (disguised "/charts" "a/b").render.releaseName ≠ some "--generate-name" := by decide
  have named' : (disguised "/charts/a" "b").render.releaseName ≠ some "--generate-name" := by decide
  have same : templateArguments (disguised "/charts" "a/b") ⟨"--debug"⟩ =
      templateArguments (disguised "/charts/a" "b") ⟨"--debug"⟩ := by decide +kernel
  obtain ⟨_, chart, _, _, _, _, _, kube, _⟩ := templateArguments_inj named named' same
  exact ⟨by decide, named, named', same, chart, kube⟩

end ChartInflation
