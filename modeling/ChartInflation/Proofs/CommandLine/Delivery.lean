import ChartInflation.CommandLine.Run

/-!
# Writing resources to files

Resources are written one after the other, up to the first one that cannot be printed or whose file
cannot be written.
-/

set_option autoImplicit false

namespace ChartInflation.CommandLine

/-- Each resource is printed and written to its file in a directory, the first one with some
number. -/
inductive Writes (here : Location) (directory : Path) :
    Nat → Resources → FileSystem → FileSystem → Prop where
  | nil {index : Nat} {fs : FileSystem} : Writes here directory index [] fs fs
  | cons {index : Nat} {r : Resource} {rest : Resources} {text : String}
      {fs fs₁ fs₂ : FileSystem} (printed : r.print = .ok text)
      (written : fs.write here (directory.joinName (fileName index r)) (Bytes.ofString text) =
        .ok fs₁)
      (more : Writes here directory (index + 1) rest fs₁ fs₂) :
      Writes here directory index (r :: rest) fs fs₂

inductive Stops (here : Location) (directory : Path) (index : Nat) (r : Resource)
    (fs : FileSystem) : Report → Prop where
  | unprintable {fault : Yaml.Fault} (refused : r.print = .error fault) :
      Stops here directory index r fs (.ofYaml fault)
  | unwritable {text : String} {e : FileError} (printed : r.print = .ok text)
      (failed : fs.write here (directory.joinName (fileName index r)) (Bytes.ofString text) =
        .error e) :
      Stops here directory index r fs (.ofFile e)

section Writing
variable (env : Environment) {here : Location} {directory : Path} {index : Nat} {rs : Resources}
  {fs fs₁ : FileSystem}

theorem writeResources_append (written : Writes here directory index rs fs fs₁) (after : Resources)
    (printed : String) : ∃ printed',
      writeResources env here directory index (rs ++ after) fs printed =
        writeResources env here directory (index + rs.length) after fs₁ printed' := by
  induction written generalizing printed with
  | nil => exact ⟨printed, rfl⟩
  | @cons index r rest text fs fs₁ fs₂ isText written more ih =>
      obtain ⟨printed', onward⟩ := ih (printed ++ styled env [32] "wrote" ++ " " ++
        (directory.joinName (fileName index r)).text ++ "\n")
      refine ⟨printed', ?_⟩
      rw [List.cons_append, writeResources]
      simp only [isText, written]
      rw [onward, List.length_cons, Nat.add_assoc, Nat.add_comm 1]

theorem writeResources_of_writes (written : Writes here directory index rs fs fs₁)
    (printed : String) : ∃ stdout,
      writeResources env here directory index rs fs printed = (.success stdout, fs₁) := by
  obtain ⟨stdout, run⟩ := writeResources_append env written [] printed
  rw [List.append_nil] at run
  exact ⟨stdout, run⟩

theorem writeResources_of_stops {r : Resource} {cause : Report}
    (written : Writes here directory index rs fs fs₁)
    (stops : Stops here directory (index + rs.length) r fs₁ cause) (after : Resources)
    (printed : String) : ∃ report stdout,
      writeResources env here directory index (rs ++ r :: after) fs printed =
        (.failure report stdout, fs₁) ∧ report.cause = cause := by
  obtain ⟨stdout, run⟩ := writeResources_append env written (r :: after) printed
  rw [run, writeResources]
  cases stops with
  | unprintable refused =>
      simp only [refused]
      exact ⟨_, _, rfl, rfl⟩
  | unwritable isText failed =>
      simp only [isText, failed]
      exact ⟨_, _, rfl, rfl⟩

end Writing

/-- Either all resources can be written, or there is a first one that cannot. -/
theorem writes_or_stops (here : Location) (directory : Path) (index : Nat) (rs : Resources)
    (fs : FileSystem) : (∃ fs₁, Writes here directory index rs fs fs₁) ∨
      ∃ before r after fs₁ cause, rs = before ++ r :: after ∧
        Writes here directory index before fs fs₁ ∧
        Stops here directory (index + before.length) r fs₁ cause := by
  induction rs generalizing index fs with
  | nil => exact .inl ⟨fs, .nil⟩
  | cons r rest ih =>
      cases printed : r.print with
      | error fault => exact .inr ⟨[], r, rest, fs, _, rfl, .nil, .unprintable printed⟩
      | ok text =>
          cases written : fs.write here (directory.joinName (fileName index r))
              (Bytes.ofString text) with
          | error e => exact .inr ⟨[], r, rest, fs, _, rfl, .nil, .unwritable printed written⟩
          | ok fs₁ =>
              rcases ih (index + 1) fs₁ with ⟨fs₂, more⟩ | ⟨before, s, after, fs₂, cause, parts,
                more, stops⟩
              · exact .inl ⟨fs₂, .cons printed written more⟩
              · refine .inr ⟨r :: before, s, after, fs₂, cause, ?_, .cons printed written more, ?_⟩
                · rw [parts, List.cons_append]
                · rwa [List.length_cons, Nat.add_comm before.length, ← Nat.add_assoc]

end ChartInflation.CommandLine
