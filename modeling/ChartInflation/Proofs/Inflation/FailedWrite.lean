import ChartInflation.Proofs.Inflation.WritingAgain
import ChartInflation.Proofs.Outcome

/-!
# Writing the values file in vain

Writing the effective values fails in one of four ways, and in each of them the files stay as they
are.  The source does too, unless it is the file itself that cannot be written: by then the inline
values have been replaced by those that were to go into it (`write_failed`).
-/

set_option autoImplicit false

namespace ChartInflation

open Yaml (Value)

namespace ValuesSource

/-- The ways in which the values come not to be written to a path, each with the error and with the
source that is given back. -/
inductive Unwritten (s : ValuesSource) (loader : Loader) (here : Location) (path : Path)
    (fs : FileSystem) : InflationError → ValuesSource → Prop
  | unloadable {cause : InputError} (needed : s.ReadsBase)
      (missed : loader.load fs s.file = .error cause) :
      Unwritten s loader here path fs
        (.values ("failed to load values file '" ++ s.file.text ++ "'") (some cause)) s
  | unreadable {bytes : Bytes} {fault : Yaml.Fault} (inhabited : Values.isEmpty s.inline = false)
      (merges : s.policy.inlinePrecedence.isSome) (loaded : loader.load fs s.file = .ok bytes)
      (refused : Value.ofBytes bytes = .error fault) :
      Unwritten s loader here path fs
        (.values ("failed to parse values file '" ++ s.file.text ++ "'") (some (.yaml fault))) s
  | unprintable {v : Value} {fault : Yaml.Fault} (inhabited : Values.isEmpty s.inline = false)
      (effective : s.effective loader fs = .ok v) (refused : v.print = .error fault) :
      Unwritten s loader here path fs
        (.values "failed to serialize merged values" (some (.yaml fault))) s
  | unwritable {bytes : Bytes} {updated : ValuesSource} {cause : FileError}
      (made : s.content loader fs = .ok (bytes, updated))
      (failed : fs.write here path bytes = .error cause) :
      Unwritten s loader here path fs
        (.values ("failed to write values file '" ++ path.text ++ "'") (some (.file cause))) updated

variable {s updated : ValuesSource} {loader : Loader} {fs fs' : FileSystem} {e : InflationError}
  {here : Location} {directory path : Path} {chart : String}

theorem base_eq_error_iff :
    s.base loader fs = .error e ↔ ∃ cause, loader.load fs s.file = .error cause ∧
      e = .values ("failed to load values file '" ++ s.file.text ++ "'") (some cause) := by
  cases loaded : loader.load fs s.file <;> simp [base, loaded, Except.mapError, eq_comm]

theorem unwritten_of_base (needed : s.ReadsBase) (failed : s.base loader fs = .error e) :
    Unwritten s loader here path fs e s := by
  obtain ⟨cause, missed, rfl⟩ := base_eq_error_iff.mp failed
  exact .unloadable needed missed

theorem unwritten_of_effective (inhabited : Values.isEmpty s.inline = false)
    (failed : s.effective loader fs = .error e) : Unwritten s loader here path fs e s := by
  cases merges : s.policy.inlinePrecedence with
  | none => simp [effective_of_none merges] at failed
  | some p =>
      have merging : s.policy.inlinePrecedence.isSome := by rw [merges]; rfl
      cases loaded : s.base loader fs with
      | error cause =>
          simp only [effective, merges, loaded, Outcome.error_bind, Except.error.injEq] at failed
          exact failed ▸ unwritten_of_base (.inr merging) loaded
      | ok bytes =>
          have isLoaded := (base_eq_ok_iff bytes).mp loaded
          cases parsed : Value.ofBytes bytes with
          | ok base => simp [effective, merges, loaded, parsed] at failed
          | error fault =>
              simp only [effective, merges, loaded, parsed, Outcome.ok_bind,
                Outcome.throw_eq_error, Except.error.injEq] at failed
              exact failed ▸ .unreadable inhabited merging isLoaded parsed

/-- As long as there is no content nothing happens, to the source neither. -/
theorem unwritten_of_content (failed : s.content loader fs = .error e) :
    Unwritten s loader here path fs e s := by
  by_cases empty : Values.isEmpty s.inline
  · cases loaded : s.base loader fs with
    | ok bytes => simp [content, empty, loaded] at failed
    | error cause =>
        simp only [content, empty, loaded, if_true, Outcome.error_bind, Except.error.injEq]
          at failed
        exact failed ▸ unwritten_of_base (.inl empty) loaded
  · rw [Bool.not_eq_true] at empty
    cases effective : s.effective loader fs with
    | error cause =>
        simp [content, empty, effective] at failed
        exact failed ▸ unwritten_of_effective empty effective
    | ok v =>
        cases printed : v.print with
        | ok text => simp [content, empty, effective, printed] at failed
        | error fault =>
            simp [content, empty, effective, printed] at failed
            exact failed ▸ .unprintable empty effective printed

/-- A write that fails fails in one of the four ways, and leaves the files as they were.  The source
is changed only where the file cannot be written and the inline values are merged with the base:
then its inline values are the effective tree already. -/
theorem write_failed
    (failed : s.write chart loader here directory fs = (.error e, updated, fs')) :
    fs' = fs ∧ Unwritten s loader here (target directory chart) fs e updated ∧
    (updated = s ∨
      Values.isEmpty s.inline = false ∧ s.policy ≠ .replace ∧
      updated.file = s.file ∧ updated.additionalFiles = s.additionalFiles ∧
      updated.policy = s.policy ∧ s.effective loader fs = .ok updated.inline ∧
      ∃ text cause, updated.inline.print = .ok text ∧
        fs.write here (target directory chart) (Bytes.ofString text) = .error cause) := by
  obtain ⟨rfl, ⟨none, rfl⟩ | ⟨bytes, cause, made, written, rfl⟩⟩ := write_eq_error_iff.mp failed
  · exact ⟨rfl, unwritten_of_content none, .inl rfl⟩
  · refine ⟨rfl, .unwritable made written, ?_⟩
    by_cases empty : Values.isEmpty s.inline
    · exact .inl ((content_of_empty empty bytes).mp made).2
    · rw [Bool.not_eq_true] at empty
      obtain ⟨v, text, effective, printed, rfl, rfl⟩ := (content_of_inhabited empty bytes).mp made
      by_cases policy : s.policy = .replace
      · rw [effective_of_replace policy] at effective
        exact .inl (by rw [← Except.ok.inj effective])
      · exact .inr ⟨empty, policy, rfl, rfl, rfl, effective, text, cause, printed, written⟩

def bareDirectory : FileSystem := ⟨[(["tmp"], .directory)]⟩

/-- With a chart name that asks for a directory that is not there, the values file cannot be
written. -/
def strayed : Except InflationError Path × ValuesSource × FileSystem :=
  overriding.write "missing/web" baseFile [] ⟨"/tmp"⟩ bareDirectory

theorem strayed_cases :
    ∃ e updated, strayed = (.error e, updated, strayed.2.2) ∧ updated ≠ overriding ∧
      updated.inline.print = .ok "a: 1\nb: 2\n" := by
  have fails : strayed.1.toOption = none := by
    decide +kernel
  have prints : strayed.2.1.inline.print.toOption = some "a: 1\nb: 2\n" := by
    decide +kernel
  have given : overriding.inline.print.toOption = some "b: 2\n" := by
    decide +kernel
  rcases run : strayed with ⟨outcome, updated, fs'⟩
  rw [run] at fails prints
  cases outcome with
  | ok path => simp [Except.toOption] at fails
  | error e =>
      refine ⟨e, updated, rfl, ?_, ?_⟩
      · rintro rfl
        simp [given] at prints
      · cases printed : updated.inline.print with
        | error fault => simp [printed, Except.toOption] at prints
        | ok text => simpa [printed, Except.toOption] using prints

theorem write_failed_strayed :
    ∃ e updated, strayed = (.error e, updated, bareDirectory) ∧
      Unwritten overriding baseFile [] ⟨"/tmp/missing/web-helmgen-values.yaml"⟩ bareDirectory e
        updated ∧
      overriding.effective baseFile bareDirectory = .ok updated.inline := by
  obtain ⟨e, updated, run, changed, _⟩ := strayed_cases
  obtain ⟨files, unwritten, kept⟩ := write_failed run
  obtain ⟨_, _, _, _, _, effective, _⟩ := kept.resolve_left changed
  exact ⟨e, updated, files ▸ run, unwritten, effective⟩

/-- A write that fails may so replace the inline values. -/
theorem write_failed_replaces :
    ¬ ∀ (s : ValuesSource) (chart : String) (loader : Loader) (here : Location) (directory : Path)
      (fs fs' : FileSystem) (e : InflationError) (updated : ValuesSource),
      s.write chart loader here directory fs = (.error e, updated, fs') →
        updated = s ∧ fs' = fs := by
  intro keeps
  obtain ⟨e, updated, run, changed, _⟩ := strayed_cases
  exact changed (keeps _ _ _ _ _ _ _ _ _ run).1

end ValuesSource

end ChartInflation
