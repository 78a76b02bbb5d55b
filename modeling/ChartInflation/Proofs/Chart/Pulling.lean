import ChartInflation.Inflation.Location
import ChartInflation.Proofs.Inflation.Arguments
import ChartInflation.Proofs.Inflation.Positionals
import ChartInflation.Proofs.Path.Components

/-!
# Where a pulled chart is unpacked

The renderer unpacks a chart in a directory of its name, the last piece of what it is asked to pull,
inside the directory that it is told.  Whatever repository the chart is pulled from, this is where the
chart is looked up before, what is rendered afterwards, and where its own values are read
(`unpacked_where_looked_up`).
-/

set_option autoImplicit false

namespace ChartInflation

structure Pulling where
  directory : Path
  repository : Option String
  /-- The chart that is pulled: an address, or its name in the repository. -/
  target : String
  version : Option String

def takeOption (name : String) : List String → Option String × List String
  | word :: value :: rest => if word = name then (some value, rest) else (none, word :: value :: rest)
  | words => (none, words)

def lastPiece (s : String) : String :=
  (piecesOf '/' s).getLast?.getD ""

namespace Pulling

def ofArguments (arguments : List String) : Option Pulling :=
  if arguments.take 2 = ["pull", "--untar"] then
    match takeOption "--untardir" (arguments.drop 2) with
    | (some directory, words) =>
      let (repository, words) := takeOption "--repo" words
      words.head?.map fun target =>
        ⟨⟨directory⟩, repository, target, (takeOption "--version" words.tail).1⟩
    | (none, _) => none
  else none

/-- The directory that the renderer unpacks the chart in. -/
def unpacked (p : Pulling) : Path :=
  p.directory.joinName (lastPiece p.target)

end Pulling

/-! ## Reading the arguments -/

theorem takeOption_option (name : String) (value : Option String) (words : List String)
    (behind : value = none → words.head? ≠ some name) :
    takeOption name (option name value ++ words) = (value, words) := by
  cases value with
  | some value =>
      change takeOption name (name :: value :: words) = _
      rw [takeOption, if_pos rfl]
  | none =>
      change takeOption name words = _
      cases words with
      | nil => rfl
      | cons word words =>
          have differs : word ≠ name := fun same => behind rfl (congrArg some same)
          cases words with
          | nil => rfl
          | cons value words => rw [takeOption, if_neg differs]

theorem lastPiece_of_not_mem {name : String} (noSlash : '/' ∉ name.toList) :
    lastPiece name = name := by
  rw [lastPiece, piecesOf_of_not_mem noSlash]
  rfl

theorem lastPiece_behind_slash (front : String) {name : String} (noSlash : '/' ∉ name.toList) :
    lastPiece (front ++ "/" ++ name) = name := by
  have text : (front ++ "/" ++ name).toList = front.toList ++ '/' :: name.toList := by simp
  rw [lastPiece, piecesOf_append front name text, piecesOf_of_not_mem noSlash,
    List.getLast?_concat, Option.getD_some]

namespace ChartReference

variable {c : ChartReference} {repository : String}

/-- What is pulled ends in the name of the chart, and an address is not taken for the option of a
repository. -/
theorem exists_pullTarget (located : c.repository = some repository)
    (noSlash : '/' ∉ c.name.toList) : ∃ address target,
      c.pullTarget = option "--repo" address ++ [target] ∧ lastPiece target = c.name ∧
        (address = none → target ≠ "--repo") := by
  cases registry : c.isRegistry with
  | true =>
      obtain ⟨target, isTarget, noOption⟩ := pullTarget_of_registry registry
      refine ⟨none, target, isTarget, ?_, fun _ same => noOption (same ▸ by decide)⟩
      rw [pullTarget, located] at isTarget
      simp only [registry, if_true, List.cons.injEq, and_true] at isTarget
      rw [← isTarget, lastPiece_behind_slash _ noSlash]
  | false =>
      refine ⟨some repository, c.name, ?_, lastPiece_of_not_mem noSlash, fun none => by cases none⟩
      rw [pullTarget, located]
      simp [registry, option]

theorem ofArguments_pullArguments (located : c.repository = some repository)
    (noSlash : '/' ∉ c.name.toList) : ∃ address target,
      Pulling.ofArguments c.pullArguments = some ⟨c.home, address, target, c.version⟩ ∧
        lastPiece target = c.name := by
  obtain ⟨address, target, isTarget, last, noOption⟩ := exists_pullTarget located noSlash
  refine ⟨address, target, ?_, last⟩
  have words : c.pullArguments = "pull" :: "--untar" :: (option "--untardir" (some c.home.text) ++
      (option "--repo" address ++ target :: (option "--version" c.version ++ []))) := by
    rw [pullArguments, isTarget]
    cases c.version <;> simp [option]
  have directory := takeOption_option "--untardir" (some c.home.text)
    (option "--repo" address ++ target :: (option "--version" c.version ++ []))
    (fun none => by cases none)
  have repositories := takeOption_option "--repo" address
    (target :: (option "--version" c.version ++ []))
    (fun none same => noOption none (Option.some.inj same))
  have version := takeOption_option "--version" c.version [] (fun _ same => by cases same)
  rw [words, Pulling.ofArguments]
  simp only [List.take_succ_cons, List.take_zero, if_true, List.drop_succ_cons, List.drop_zero,
    directory, repositories, List.head?_cons, List.tail_cons, Option.map_some, version]

/-! ## The directories of versions -/

def versionHome (c : ChartReference) (version : String) : Path :=
  c.chartsDirectory.joinName (c.name ++ "-" ++ version)

variable (noSlash : '/' ∉ c.name.toList)
include noSlash

theorem isAbsolute_versioned (version : String) :
    Path.isAbsolute ⟨c.name ++ "-" ++ version⟩ = false := by
  rw [← Bool.not_eq_true, Path.isAbsolute_iff]
  intro first
  cases letters : c.name.toList with
  | nil => simp [String.toList_append, letters] at first
  | cons letter rest =>
      rw [letters, List.mem_cons, not_or] at noSlash
      simp only [String.toList_append, letters, List.cons_append, List.head?_cons,
        Option.some.injEq] at first
      exact noSlash.1 first.symm

theorem components_versionHome (version : String) : ∃ step more,
    (c.versionHome version).components = c.chartsDirectory.components ++ step :: more := by
  -- the dash keeps the first piece from being nothing or a dot
  have front : '/' ∉ (c.name ++ "-").toList := by simp [String.toList_append, noSlash]
  obtain ⟨first, more, _, cut⟩ := pieces_front front version.toList
  have dash : '-' ∈ (String.ofList ((c.name ++ "-").toList ++ first)).toList := by
    simp [String.toList_append]
  obtain ⟨piece, isPiece⟩ : ∃ piece, piece = String.ofList ((c.name ++ "-").toList ++ first) :=
    ⟨_, rfl⟩
  rw [← isPiece] at dash
  have differs : ∀ s : String, '-' ∉ s.toList → piece ≠ s := fun s absent same => absent (same ▸ dash)
  have whole : piecesOf '/' (c.name ++ "-" ++ version) = piece :: more.map String.ofList := by
    rw [piecesOf, String.toList_append, cut, List.map_cons, isPiece]
  have head : (Path.names ⟨c.name ++ "-" ++ version⟩).head? = some piece := by
    simp [Path.names, whole, differs "" (by decide)]
  have notHere : (Path.names ⟨c.name ++ "-" ++ version⟩).head? ≠ some "." := by
    rw [head]
    exact fun same => differs "." (by decide) (Option.some.inj same)
  have step : Path.isStep piece := by
    simp [Path.isStep, differs "" (by decide), differs "." (by decide)]
  have below := Path.components_join (d := c.chartsDirectory) (isAbsolute_versioned noSlash version)
    notHere
  rw [Path.inner_eq, whole, List.filter_cons_of_pos step, List.map_cons] at below
  exact ⟨_, _, below⟩

theorem versionHome_inj {version version' : String} :
    c.versionHome version = c.versionHome version' ↔ version = version' := by
  constructor
  · intro same
    unfold versionHome Path.joinName Path.join at same
    rw [isAbsolute_versioned noSlash, isAbsolute_versioned noSlash] at same
    simp only [Bool.false_eq_true, if_false] at same
    split at same <;> simpa [← String.toList_inj, String.toList_append] using same
  · rintro rfl
    rfl

theorem chartsDirectory_ne_versionHome (version : String) :
    c.chartsDirectory.components ≠ (c.versionHome version).components := by
  obtain ⟨step, more, below⟩ := components_versionHome noSlash version
  rw [below]
  simp

theorem home_eq_versionHome_iff (version : String) :
    c.version = some version ↔ c.home = c.versionHome version := by
  cases versioned : c.version with
  | none =>
      have noVersion : c.home = c.chartsDirectory := by rw [home, versioned]
      rw [noVersion]
      refine ⟨fun none => (by cases none), fun same => ?_⟩
      exact absurd (congrArg Path.components same) (chartsDirectory_ne_versionHome noSlash version)
  | some v =>
      have own : c.home = c.versionHome v := by rw [home, versioned, versionHome]
      rw [own, versionHome_inj noSlash, Option.some.injEq]

end ChartReference

/-! ## Where a chart is -/

/-- A chart is pulled into the directory where it is looked up, which is the one that is rendered and
has the default values file in it; it is pulled in a version exactly if it is pulled into the directory
that this version has of its own. -/
theorem unpacked_where_looked_up {c : ChartReference} {repository : String}
    (located : c.repository = some repository) (noSlash : '/' ∉ c.name.toList) :
    ∃ pulling, Pulling.ofArguments c.pullArguments = some pulling ∧
      pulling.unpacked = c.directory ∧
      (∀ fs here, c.lookUp fs here = .ok
        (if fs.isDirectory here pulling.unpacked then .present pulling.unpacked else .mustPull)) ∧
      (∀ p file, p.chart = c → (Rendering.ofArguments (templateArguments p file)).map (·.chart) =
        some pulling.unpacked.text) ∧
      (∃ above, c.defaultValuesFile.parent? = some above ∧
        above.components = pulling.unpacked.components) ∧
      (∀ version, pulling.version = some version ↔
        pulling.directory = c.chartsDirectory.joinName (c.name ++ "-" ++ version)) ∧
      (pulling.version = none → ∀ version, pulling.directory.components ≠
        (c.chartsDirectory.joinName (c.name ++ "-" ++ version)).components) := by
  obtain ⟨address, target, isRead, last⟩ :=
    ChartReference.ofArguments_pullArguments located noSlash
  have unpacked : Pulling.unpacked ⟨c.home, address, target, c.version⟩ = c.directory := by
    rw [Pulling.unpacked, last, ChartReference.directory]
  refine ⟨_, isRead, unpacked, ?_⟩
  rw [unpacked]
  refine ⟨fun fs here => ?_, ?_, ?_, ChartReference.home_eq_versionHome_iff noSlash, ?_⟩
  · rw [ChartReference.lookUp, located]
    split <;> rfl
  · rintro p file rfl
    rw [ofArguments_eq]
    rfl
  · exact Path.parent?_joinName (by decide) (by decide)
  · intro unversioned version
    have noVersion : c.home = c.chartsDirectory := by
      change c.version = none at unversioned
      rw [ChartReference.home, unversioned]
    rw [noVersion]
    exact ChartReference.chartsDirectory_ne_versionHome noSlash version

def slashedChart : ChartReference :=
  .of "web" (some "1/") (some "oci://charts.example/team//") ⟨"charts//"⟩ ⟨"/work/"⟩

theorem unpacked_where_looked_up_slashed :
    slashedChart.repository = some "oci://charts.example/team//" ∧
    '/' ∉ slashedChart.name.toList ∧
    slashedChart.pullArguments = ["pull", "--untar", "--untardir", "/work/charts//web-1/",
      "oci://charts.example/team/web", "--version", "1/"] ∧
    ∃ pulling, Pulling.ofArguments slashedChart.pullArguments = some pulling ∧
      pulling.unpacked = ⟨"/work/charts//web-1/web"⟩ ∧
      ∃ above, slashedChart.defaultValuesFile.parent? = some above ∧
        above.components = pulling.unpacked.components := by
  have located : slashedChart.repository = some "oci://charts.example/team//" := by decide
  have noSlash : '/' ∉ slashedChart.name.toList := by decide
  obtain ⟨pulling, isRead, unpacked, _, _, above, _⟩ := unpacked_where_looked_up located noSlash
  exact ⟨located, noSlash, by decide +kernel, pulling, isRead, unpacked, above⟩

end ChartInflation
