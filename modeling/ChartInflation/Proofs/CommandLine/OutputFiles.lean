import ChartInflation.Proofs.CommandLine.ExitCodes
import ChartInflation.Proofs.CommandLine.FileName
import ChartInflation.Proofs.CommandLine.Variables
import ChartInflation.Proofs.FileSystem.Extending
import ChartInflation.Proofs.Outcome

/-!
# Output files

Each resource has a file of its own in the output directory: no two of them have one name, and what
is written to one is not written over by another, unless a symbolic link that stands in the directory
leads one name to the file of the other (`output_files`, `output_files_linked`).  Behind one another,
with separator lines in between, the files hold what is printed where no directory is given.
-/

set_option autoImplicit false

namespace ChartInflation.CommandLine

def fileOf (directory : Path) (index : Nat) (r : Resource) : Path :=
  directory.joinName (fileName index r)

/-- Whether a symbolic link at one of two paths makes both lead to one place. -/
def Crossed (fs : FileSystem) (here : Location) (p q : Path) : Prop :=
  (fs.IsLink here p ∨ fs.IsLink here q) ∧
    ∃ l, fs.locate here p = .ok l ∧ fs.locate here q = .ok l

/-! ## Different files -/

theorem steps_fileOf (directory : Path) (index : Nat) (r : Resource) :
    ∃ front, FileSystem.steps (fileOf directory index r) = front ++ [fileName index r] := by
  refine ⟨directory.names, ?_⟩
  rw [fileOf, Path.joinName, Path.steps_join (fileName_continues index r), names_fileName]

/-- The files of two resources are apart, if no link crosses them. -/
theorem fileOf_apart {fs : FileSystem} {here : Location} {directory : Path} {i j : Nat}
    {r s : Resource} {l : Location} (other : j ≠ i)
    (straight : ¬ Crossed fs here (fileOf directory i r) (fileOf directory j s))
    (located : fs.locate here (fileOf directory i r) = .ok l) :
    fs.locate here (fileOf directory j s) ≠ .ok l := by
  intro same
  rw [Crossed, not_and] at straight
  have noLinks : ¬ (fs.IsLink here (fileOf directory i r) ∨
      fs.IsLink here (fileOf directory j s)) := fun linked => straight linked ⟨l, located, same⟩
  rw [not_or] at noLinks
  obtain ⟨notHere, notUp⟩ := fileName_ne i r
  obtain ⟨notHere', notUp'⟩ := fileName_ne j s
  obtain ⟨d, isNamed⟩ :=
    FileSystem.locate_name notHere notUp (steps_fileOf directory i r) noLinks.1 located
  obtain ⟨d', isNamed'⟩ :=
    FileSystem.locate_name notHere' notUp' (steps_fileOf directory j s) noLinks.2 same
  have last := congrArg List.getLast? (isNamed.symm.trans isNamed')
  rw [List.getLast?_concat, List.getLast?_concat] at last
  exact other (fileName_inj (Option.some.inj last)).symm

/-! ## What is written -/

section Written
variable {here : Location} {directory : Path} {index : Nat} {rs : Resources}
  {fs fs' : FileSystem}

theorem locate_of_writes (writes : Writes here directory index rs fs fs') {path : Path}
    {l : Location} (located : fs.locate here path = .ok l) : fs'.locate here path = .ok l := by
  induction writes with
  | nil => exact located
  | cons printed written more ih => exact ih (FileSystem.locate_write written located)

theorem entry?_of_writes (writes : Writes here directory index rs fs fs') {l : Location}
    (elsewhere : ∀ j s, rs[j]? = some s →
      fs'.locate here (fileOf directory (index + j) s) ≠ .ok l) :
    fs'.entry? l = fs.entry? l := by
  induction writes with
  | nil => rfl
  | @cons index r rest text fs fs₁ fs₂ printed written more ih =>
      obtain ⟨_, place, located, unchanged⟩ := FileSystem.write_spec written
      have other : l ≠ place := by
        rintro rfl
        exact elsewhere 0 r rfl (locate_of_writes more located)
      rw [ih fun j s isThere => ?_, unchanged l other]
      have later := elsewhere (j + 1) s isThere
      rwa [Nat.add_comm j, ← Nat.add_assoc] at later

theorem files_of_writes (writes : Writes here directory index rs fs fs') :
    ∃ texts, List.Forall₂ (fun (r : Resource) text => r.print = .ok text) rs texts ∧
      ∀ k r text, rs[k]? = some r → texts[k]? = some text →
        ∃ l, fs'.locate here (fileOf directory (index + k) r) = .ok l ∧
          ((∀ j s, k < j → rs[j]? = some s →
              fs'.locate here (fileOf directory (index + j) s) ≠ .ok l) →
            fs'.read here (fileOf directory (index + k) r) = .ok (Bytes.ofString text)) := by
  induction writes with
  | nil => exact ⟨[], .nil, by simp⟩
  | @cons index r rest text fs fs₁ fs₂ printed written more ih =>
      obtain ⟨texts, prints, files⟩ := ih
      refine ⟨text :: texts, .cons printed prints, fun k s written' isThere hasText => ?_⟩
      cases k with
      | zero =>
          obtain rfl : r = s := by simpa using isThere
          obtain rfl : text = written' := by simpa using hasText
          obtain ⟨isRead, l, located, _⟩ := FileSystem.write_spec written
          have still := locate_of_writes more located
          refine ⟨l, still, fun alone => ?_⟩
          -- nothing that comes later is written where this one is
          have kept : fs₂.entry? l = fs₁.entry? l := by
            refine entry?_of_writes more fun j s isThere => ?_
            have later := alone (j + 1) s (Nat.succ_pos j) isThere
            rwa [Nat.add_comm j, ← Nat.add_assoc] at later
          rw [FileSystem.read_of_locate located] at isRead
          rw [Nat.add_zero, fileOf, FileSystem.read_of_locate still,
            FileSystem.readAt_congr kept, isRead]
      | succ k =>
          rw [← Nat.add_assoc, Nat.add_right_comm]
          obtain ⟨l, located, isRead⟩ := files k s written' isThere hasText
          refine ⟨l, located, fun alone => isRead fun j more later isMore => ?_⟩
          have apart := alone (j + 1) more (Nat.succ_lt_succ later) isMore
          rwa [← Nat.add_assoc, Nat.add_right_comm] at apart

end Written

/-! ## Two command lines -/

/-- Resources go to files or are printed as JSON, but not both. -/
theorem yaml_of_requestOf {env : Environment} {g : Given} {arguments : List String}
    {request : InflateRequest} {directory : Path}
    (accepted : requestOf env g arguments = .ok (.inflate request))
    (asks : request.outputDirectory = some directory) : request.json = false := by
  obtain ⟨given, _, fromGiven⟩ := requestOf_eq_inflate_iff.mp accepted
  obtain ⟨_, describes⟩ := inflateRequest_eq_ok_iff.mp fromGiven
  have apart := describes.apart
  rw [describes.outputDirectory, Option.map_eq_some_iff] at asks
  obtain ⟨text, isGiven, _⟩ := asks
  simpa [isGiven] using apart

section Files
variable {m : Machine} {env : Environment} {request : InflateRequest} {w : World}

def InflateRequest.printed (request : InflateRequest) : InflateRequest :=
  { request with outputDirectory := none }

/-- Each resource has a file that holds its text, and to which no other one's name leads, unless a
link crosses the two. -/
def OwnFiles (here : Location) (directory : Path) (rs : Resources) (texts : List String)
    (fs : FileSystem) : Prop :=
  ∀ k r text, rs[k]? = some r → texts[k]? = some text →
    ∃ l, fs.locate here (fileOf directory k r) = .ok l ∧
      ((∀ j s, j ≠ k → rs[j]? = some s →
        ¬ Crossed fs here (fileOf directory k r) (fileOf directory j s)) →
        fs.read here (fileOf directory k r) = .ok (Bytes.ofString text) ∧
          ∀ j s, j ≠ k → rs[j]? = some s → fs.locate here (fileOf directory j s) ≠ .ok l)

theorem ownFiles_of_writes {here : Location} {directory : Path} {rs : Resources}
    {fs fs' : FileSystem} (writes : Writes here directory 0 rs fs fs') :
    ∃ texts, List.Forall₂ (fun (r : Resource) text => r.print = .ok text) rs texts ∧
      OwnFiles here directory rs texts fs' := by
  obtain ⟨texts, prints, files⟩ := files_of_writes writes
  refine ⟨texts, prints, fun k r text isThere hasText => ?_⟩
  obtain ⟨l, located, isRead⟩ := files k r text isThere hasText
  simp only [Nat.zero_add] at located isRead
  refine ⟨l, located, fun straight => ?_⟩
  have apart : ∀ j s, j ≠ k → rs[j]? = some s →
      fs'.locate here (fileOf directory j s) ≠ .ok l := fun j s other isThere =>
    fileOf_apart other (straight j s other isThere) located
  exact ⟨isRead fun j s later => apart j s (Nat.ne_of_gt later), apart⟩

theorem print_of_forall₂ {rs : Resources} {texts : List String}
    (prints : List.Forall₂ (fun (r : Resource) text => r.print = .ok text) rs texts) :
    Resources.print rs = .ok (joined "---\n" texts) := by
  have all := Outcome.mapM_eq_ok_iff.mpr prints
  rw [Resources.print, all]
  rfl

theorem ownFiles_of_success {arguments : List String} {directory : Path}
    (accepted : requestOf env .nothing arguments = .ok (.inflate request))
    (asks : request.outputDirectory = some directory)
    (success : (run m env arguments w).1.code = 0) :
    ∃ i w' rs texts, Inflated m request w i w' rs ∧ Shows request i.parameters.values ∧
      List.Forall₂ (fun (r : Resource) text => r.print = .ok text) rs texts ∧
      OwnFiles m.directory directory rs texts (run m env arguments w).2.files := by
  rw [run_of_request accepted] at success ⊢
  obtain ⟨w', rs, ⟨i, inflated, canShow⟩, delivers⟩ := (code_eq_zero_iff env).mp success
  simp only [Delivers, asks] at delivers
  obtain ⟨fs₁, fs₂, made, writes⟩ := delivers
  obtain ⟨texts, prints, files⟩ := ownFiles_of_writes writes
  obtain ⟨stdout, wrote⟩ := writeResources_of_writes env writes
    (shownFor env request i.parameters.values).stdout
  refine ⟨i, w', rs, texts, inflated, canShow, prints, ?_⟩
  simp only [runRequest, runInflate_of_shows env inflated canShow, deliver, asks, made, wrote]
  exact files

/-- What a successful command leaves in its output directory, and what the same one prints where it
is given none. -/
theorem output_files :
    (∀ i j r s, fileName i r = fileName j s → i = j) ∧
    (∀ i r, (∀ c ∈ (fileName i r).toList, isFileCharacter c) ∧
      Path.components ⟨fileName i r⟩ = [.name (fileName i r)] ∧
      ∀ directory, (fileOf directory i r).components =
        directory.components ++ [.name (fileName i r)]) ∧
    ∀ (m : Machine) (env : Environment) (arguments : List String) (request : InflateRequest)
      (directory : Path) (w : World),
      requestOf env .nothing arguments = .ok (.inflate request) →
      request.outputDirectory = some directory →
      (run m env arguments w).1.code = 0 →
      ∃ i w' rs texts, Inflated m request w i w' rs ∧
        List.Forall₂ (fun (r : Resource) text => r.print = .ok text) rs texts ∧
        (∀ others, requestOf env .nothing others = .ok (.inflate request.printed) →
          (run m env others w).1 =
            ⟨0, (shownFor env request i.parameters.values).stdout ++ joined "---\n" texts⟩) ∧
        OwnFiles m.directory directory rs texts (run m env arguments w).2.files := by
  refine ⟨fun i j r s => fileName_inj, fun i r => ⟨fun c => isFileCharacter_of_fileName,
    components_fileName i r, components_joinName i r⟩, ?_⟩
  intro m env arguments request directory w accepted asks success
  obtain ⟨i, w', rs, texts, inflated, canShow, prints, own⟩ :=
    ownFiles_of_success accepted asks success
  refine ⟨i, w', rs, texts, inflated, prints, fun others accepted' => ?_, own⟩
  have inflated' : Inflated m request.printed w i w' rs := inflated
  have canShow' : Shows request.printed i.parameters.values := canShow
  have notJson : request.json = false := yaml_of_requestOf accepted asks
  have yaml : request.printed.json = false := notJson
  have printedText := print_of_forall₂ prints
  rw [run_of_request accepted']
  simp only [runRequest, runInflate_of_shows env inflated' canShow', deliver, printResources,
    yaml, Bool.false_eq_true, if_false, printedText]
  rfl

end Files

def inflated? (m : Machine) (request : InflateRequest) (w : World) :
    Option (ValuesSource × Resources) := do
  let configuration ← (w.files.read m.directory request.configuration).toOption
  let loader ←
    (Loader.ofDirectory w.files m.directory request.loadRoot request.restriction).toOption
  let p ← (Parameters.resolve request.settings configuration loader w.files).toOption
  let i := ((Inflation.new p).generate m loader w).1
  return (i.parameters.values, ← i.result.toOption)

theorem inflated?_eq_some_iff {m : Machine} {request : InflateRequest}
    {w : World} {rs : Resources} {values : ValuesSource} :
    inflated? m request w = some (values, rs) ↔
      ∃ i w', Inflated m request w i w' rs ∧ i.parameters.values = values := by
  simp only [inflated?, Option.bind_eq_bind, Option.bind_eq_some_iff, Outcome.toOption_eq_some_iff,
    Option.pure_def, Option.some.injEq, Prod.mk.injEq]
  constructor
  · rintro ⟨configuration, isRead, loader, opened, p, resolved, _, result, rfl, rfl⟩
    rcases run : (Inflation.new p).generate m loader w with ⟨i, w'⟩
    rw [run] at result
    exact ⟨i, w', ⟨loader, p, ⟨configuration, ⟨isRead, opened⟩, resolved⟩, run, result⟩, rfl⟩
  · rintro ⟨i, w', ⟨loader, p, ⟨configuration, ⟨isRead, opened⟩, resolved⟩, run, result⟩, rfl⟩
    refine ⟨configuration, isRead, loader, opened, p, resolved, rs, ?_, ?_, rfl⟩
    · rw [run, result]
    · rw [run]

def isSymbolicLink : Entry → Bool
  | .link _ => true
  | _ => false

theorem not_crossed_of_linkless {fs : FileSystem} {here : Location} {p q : Path}
    (linkless : fs.entries.all (!isSymbolicLink ·.2)) : ¬ Crossed fs here p q := by
  have notLink (path : Path) : ¬ fs.IsLink here path := by
    rintro ⟨l, target, _, entry⟩
    unfold FileSystem.entry? at entry
    split at entry
    next => cases entry
    next =>
      obtain ⟨before, after, parts, _⟩ := List.lookup_eq_some_iff.mp entry
      have member : (l, Entry.link target) ∈ fs.entries := by simp [parts]
      have none := List.all_eq_true.mp linkless _ member
      simp [isSymbolicLink] at none
  rintro ⟨linked | linked, _⟩
  · exact notLink p linked
  · exact notLink q linked

def printingTwo : Machine where
  directory := []
  scratchHome := ⟨"/tmp"⟩
  tool _ call files :=
    let printed := match call.arguments.head? with
      | some "version" => "v3.14.0"
      | _ => "apiVersion: v1\nkind: A\n---\napiVersion: v1\nkind: B\n"
    (.exited 0 (Bytes.ofString printed) [], files)

def filing : List String := inflating ++ ["--output-dir", "out"]

theorem requestOf_filing : requestOf [] .nothing filing =
    .ok (.inflate { asked with outputDirectory := some ⟨"out"⟩ }) := by
  decide +kernel

theorem printingTwo_filing :
    (run printingTwo [] filing furnished).1.code = 0 ∧
    (run printingTwo [] filing furnished).2.files.entries.all (!isSymbolicLink ·.2) ∧
    (inflated? printingTwo { asked with outputDirectory := some ⟨"out"⟩ } furnished).any
      (fun found => decide (found.2.length = 2)) := by
  decide +kernel

theorem output_files_furnished :
    ∃ rs texts, List.Forall₂ (fun (r : Resource) text => r.print = .ok text) rs texts ∧
      OwnFiles [] ⟨"out"⟩ rs texts (run printingTwo [] filing furnished).2.files := by
  have success := printingTwo_filing.1
  obtain ⟨_, _, files⟩ := output_files
  obtain ⟨_, _, rs, texts, _, prints, _, own⟩ :=
    files printingTwo [] filing _ _ furnished requestOf_filing rfl success
  exact ⟨rs, texts, prints, own⟩

/-- The same world with an output directory in it, in which a link leads from the name of the first
file to that of the second one. -/
def linked : World where
  files := (furnished.files.put ["out"] .directory).put ["out", "000-a-unnamed.yaml"]
    (.link "001-b-unnamed.yaml")
  calls := []
  drawn := 0

/-- A link in the output directory has one file written over by another: the first one does not hold
what is printed first.  What is printed stands behind the effective values, if those are shown. -/
theorem output_files_linked :
    (run printingTwo [] filing linked).1.code = 0 ∧
    (run printingTwo [] filing linked).2.files.read [] ⟨"out/000-a-unnamed.yaml"⟩ =
      .ok (Bytes.ofString "apiVersion: v1\nkind: B\n") ∧
    (run printingTwo [] (inflating ++ ["--show-values"]) linked).1 =
      ⟨0, "# Computed Values\n---\n# unchanged from /charts/web/values.yaml\n---\n\n" ++
        "apiVersion: v1\nkind: A\n---\napiVersion: v1\nkind: B\n"⟩ := by
  decide +kernel

end ChartInflation.CommandLine
