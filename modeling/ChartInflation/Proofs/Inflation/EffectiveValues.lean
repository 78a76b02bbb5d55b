import ChartInflation.Inflation.EffectiveValues
import ChartInflation.Proofs.FileSystem.Writing

/-!
# The values file and the values source

Writing the effective values sets two things apart from one another, the file that the renderer
reads and the inline values that the source keeps.  After a write that succeeds the two agree, on
every way the values may have been combined (`write_agrees`).
-/

set_option autoImplicit false

namespace ChartInflation

open Yaml (Value)

/-- What is relied on of the document format at a tree: its text, if it has one, is read as an equal
tree. -/
def Yaml.Value.ReadsBack (v : Value) : Prop :=
  ∀ text, v.print = .ok text → ∃ w, Value.ofBytes (Bytes.ofString text) = .ok w ∧ w.same v

instance (v : Value) : Decidable v.ReadsBack :=
  match printed : v.print with
  | .error _ => isTrue fun text isText => by simp [printed] at isText
  | .ok text =>
    match parsed : Value.ofBytes (Bytes.ofString text) with
    | .error _ => isFalse fun readsBack => by
        obtain ⟨w, isValue, _⟩ := readsBack text printed
        simp [parsed] at isValue
    | .ok w =>
      if equal : w.same v then isTrue fun text' isText => by
        rw [printed] at isText
        exact ⟨w, Except.ok.inj isText ▸ parsed, equal⟩
      else isFalse fun readsBack => by
        obtain ⟨w', isValue, equal'⟩ := readsBack text printed
        rw [parsed] at isValue
        exact equal (Except.ok.inj isValue ▸ equal')

theorem Values.isEmpty_iff (v : Value) : Values.isEmpty v ↔ v = .null ∨ v = .mapping [] := by
  cases v <;> simp [Values.isEmpty]

namespace ValuesSource

variable {s updated : ValuesSource} {loader : Loader} {fs : FileSystem}

/-! ## The effective tree -/

theorem base_eq_ok_iff (bytes : Bytes) :
    s.base loader fs = .ok bytes ↔ loader.load fs s.file = .ok bytes := by
  unfold base
  cases loader.load fs s.file with
  | error e =>
      constructor
      · intro made
        cases made
      · intro loaded
        cases loaded
  | ok found =>
      constructor
      · intro made
        rw [Except.ok.inj made]
      · intro loaded
        rw [Except.ok.inj loaded]
        rfl

theorem effective_of_none (alone : s.policy.inlinePrecedence = none) :
    s.effective loader fs = .ok s.inline := by
  simp [effective, alone]

theorem effective_of_replace (policy : s.policy = .replace) :
    s.effective loader fs = .ok s.inline :=
  effective_of_none (by rw [policy]; rfl)

theorem effective_of_precedence {p : Precedence} (merges : s.policy.inlinePrecedence = some p)
    (v : Value) :
    s.effective loader fs = .ok v ↔ ∃ bytes base, loader.load fs s.file = .ok bytes ∧
      Value.ofBytes bytes = .ok base ∧ v = Values.merged base s.inline p := by
  cases loaded : s.base loader fs with
  | error e =>
      have noBytes : ∀ bytes, loader.load fs s.file ≠ .ok bytes := fun bytes isLoaded => by
        simp [(base_eq_ok_iff bytes).mpr isLoaded] at loaded
      simp [effective, merges, loaded, noBytes, bind, Except.bind]
  | ok bytes =>
      rw [(base_eq_ok_iff bytes).mp loaded]
      cases parsed : Value.ofBytes bytes with
      | error fault =>
          simp [effective, merges, loaded, parsed, bind, Except.bind, throw, throwThe,
            MonadExceptOf.throw]
      | ok base =>
          simp [effective, merges, loaded, parsed, bind, Except.bind, pure, Except.pure,
            @eq_comm _ v]

/-! ## The content of the file -/

theorem content_congr {fs' : FileSystem} (same : loader.load fs' s.file = loader.load fs s.file) :
    s.content loader fs' = s.content loader fs := by
  simp only [content, effective, base, same]

theorem content_of_empty (empty : Values.isEmpty s.inline) (bytes : Bytes) :
    s.content loader fs = .ok (bytes, updated) ↔
      loader.load fs s.file = .ok bytes ∧ updated = s := by
  rw [← base_eq_ok_iff]
  cases loaded : s.base loader fs <;>
    simp [content, empty, loaded, bind, Except.bind, pure, Except.pure, @eq_comm _ updated]

theorem content_of_inhabited (inhabited : Values.isEmpty s.inline = false) (bytes : Bytes) :
    s.content loader fs = .ok (bytes, updated) ↔ ∃ v text, s.effective loader fs = .ok v ∧
      v.print = .ok text ∧ bytes = Bytes.ofString text ∧ updated = { s with inline := v } := by
  cases effective : s.effective loader fs with
  | error e => simp [content, inhabited, effective, bind, Except.bind]
  | ok v =>
      cases printed : v.print with
      | error fault =>
          simp [content, inhabited, effective, printed, bind, Except.bind, throw, throwThe,
            MonadExceptOf.throw]
      | ok text =>
          simp [content, inhabited, effective, printed, bind, Except.bind, pure, Except.pure,
            @eq_comm _ bytes, @eq_comm _ updated]

theorem content_of_replace (policy : s.policy = .replace)
    (inhabited : Values.isEmpty s.inline = false) (one other : Loader) :
    s.content one fs = s.content other fs := by
  simp [content, inhabited, effective_of_replace policy]

/-! ## Writing -/

theorem write_eq_ok_iff {chart : String} {here : Location} {directory path : Path}
    {fs' : FileSystem} :
    s.write chart loader here directory fs = (.ok path, updated, fs') ↔
      path = target directory chart ∧ ∃ bytes, s.content loader fs = .ok (bytes, updated) ∧
        fs.write here path bytes = .ok fs' := by
  constructor
  · intro run
    cases made : s.content loader fs with
    | error e => simp [write, made] at run
    | ok both =>
        obtain ⟨bytes, kept⟩ := both
        cases written : fs.write here (target directory chart) bytes with
        | error e => simp [write, made, written] at run
        | ok after =>
            simp only [write, made, written, Prod.mk.injEq, Except.ok.injEq] at run
            obtain ⟨rfl, rfl, rfl⟩ := run
            exact ⟨rfl, bytes, rfl, written⟩
  · rintro ⟨rfl, bytes, made, written⟩
    simp [write, made, written]

theorem write_eq_error_iff {e : InflationError} {chart : String} {here : Location}
    {directory : Path} {fs' : FileSystem} :
    s.write chart loader here directory fs = (.error e, updated, fs') ↔
      fs' = fs ∧ (s.content loader fs = .error e ∧ updated = s ∨
        ∃ bytes cause, s.content loader fs = .ok (bytes, updated) ∧
          fs.write here (target directory chart) bytes = .error cause ∧
          e = .values ("failed to write values file '" ++ (target directory chart).text ++ "'")
            (some (.file cause))) := by
  cases made : s.content loader fs with
  | error cause => simp [write, made, and_comm, and_left_comm, eq_comm]
  | ok both =>
      obtain ⟨bytes, kept⟩ := both
      cases written : fs.write here (target directory chart) bytes with
      | ok after => simp [write, made, written]
      | error cause =>
          simp only [write, made, written, Prod.mk.injEq, Except.error.injEq, Except.ok.injEq,
            reduceCtorEq, false_and, false_or]
          constructor
          · rintro ⟨rfl, rfl, rfl⟩
            exact ⟨rfl, bytes, cause, ⟨rfl, rfl⟩, written, rfl⟩
          · rintro ⟨rfl, _, cause', ⟨rfl, rfl⟩, written', rfl⟩
            rw [written] at written'
            obtain rfl := Except.error.inj written'
            exact ⟨rfl, rfl, rfl⟩

/-- After a write that succeeds the file holds the effective values, and the source keeps what the
file holds. -/
theorem write_agrees {chart : String} {here : Location} {directory path : Path} {fs' : FileSystem}
    (run : s.write chart loader here directory fs = (.ok path, updated, fs')) :
    path = target directory chart ∧
    updated.file = s.file ∧ updated.additionalFiles = s.additionalFiles ∧
    updated.policy = s.policy ∧
    ∃ bytes, fs'.read here path = .ok bytes ∧
      (∃ location, fs'.locate here path = .ok location ∧
        ∀ l, l ≠ location → fs'.entry? l = fs.entry? l) ∧
      ((s.inline = .null ∨ s.inline = .mapping []) →
        loader.load fs s.file = .ok bytes ∧ updated = s) ∧
      (¬ (s.inline = .null ∨ s.inline = .mapping []) →
        (∃ text, updated.inline.print = .ok text ∧ bytes = Bytes.ofString text) ∧
        (updated.inline.ReadsBack →
          ∃ w, Value.ofBytes bytes = .ok w ∧ w.same updated.inline) ∧
        (s.policy = .replace → updated.inline = s.inline ∧
          ∀ other, s.write chart other here directory fs = (.ok path, updated, fs')) ∧
        (s.policy = .override → ∃ file base, loader.load fs s.file = .ok file ∧
          Value.ofBytes file = .ok base ∧ updated.inline = Values.merged base s.inline .overlay) ∧
        (s.policy = .merge → ∃ file base, loader.load fs s.file = .ok file ∧
          Value.ofBytes file = .ok base ∧ updated.inline = Values.merged base s.inline .base)) := by
  obtain ⟨isTarget, bytes, made, written⟩ := write_eq_ok_iff.mp run
  obtain ⟨isRead, unchanged⟩ := FileSystem.write_spec written
  by_cases empty : Values.isEmpty s.inline
  · have isEmpty := (Values.isEmpty_iff s.inline).mp empty
    obtain ⟨loaded, rfl⟩ := (content_of_empty empty bytes).mp made
    exact ⟨isTarget, rfl, rfl, rfl, bytes, isRead, unchanged, fun _ => ⟨loaded, rfl⟩,
      fun inhabited => absurd isEmpty inhabited⟩
  · have inhabited := mt (Values.isEmpty_iff s.inline).mpr empty
    rw [Bool.not_eq_true] at empty
    obtain ⟨v, text, effective, printed, rfl, rfl⟩ := (content_of_inhabited empty bytes).mp made
    refine ⟨isTarget, rfl, rfl, rfl, _, isRead, unchanged, fun isEmpty => absurd isEmpty inhabited,
      fun _ => ⟨⟨text, printed, rfl⟩, fun readsBack => readsBack text printed, ?_, ?_, ?_⟩⟩
    · intro policy
      rw [effective_of_replace policy] at effective
      refine ⟨(Except.ok.inj effective).symm, fun other => ?_⟩
      rw [← run, write, write, content_of_replace policy empty other loader]
    · intro policy
      exact (effective_of_precedence (p := .overlay) (by rw [policy]; rfl) v).mp effective
    · intro policy
      exact (effective_of_precedence (p := .base) (by rw [policy]; rfl) v).mp effective

def overriding : ValuesSource where
  file := ⟨"values.yaml"⟩
  additionalFiles := []
  inline := .mapping [(.string "b", .int 2)]
  policy := .override

def baseFile : Loader :=
  Loader.ofFiles ⟨"/work"⟩ [(⟨"values.yaml"⟩, Bytes.ofString "a: 1\n")]

theorem write_agrees_overriding :
    ∃ updated fs', overriding.write "web" baseFile [] ⟨"/tmp"⟩ ⟨[(["tmp"], .directory)]⟩ =
        (.ok ⟨"/tmp/web-helmgen-values.yaml"⟩, updated, fs') ∧
      fs'.read [] ⟨"/tmp/web-helmgen-values.yaml"⟩ = .ok (Bytes.ofString "a: 1\nb: 2\n") ∧
      ∃ w, Value.ofBytes (Bytes.ofString "a: 1\nb: 2\n") = .ok w ∧ w.same updated.inline := by
  have succeeds : (overriding.write "web" baseFile [] ⟨"/tmp"⟩
      ⟨[(["tmp"], .directory)]⟩).1.toOption = some ⟨"/tmp/web-helmgen-values.yaml"⟩ := by
    decide +kernel
  have prints : (overriding.write "web" baseFile [] ⟨"/tmp"⟩
      ⟨[(["tmp"], .directory)]⟩).2.1.inline.print.toOption = some "a: 1\nb: 2\n" := by
    decide +kernel
  have readsBack : (overriding.write "web" baseFile [] ⟨"/tmp"⟩
      ⟨[(["tmp"], .directory)]⟩).2.1.inline.ReadsBack := by
    decide +kernel
  rcases run : overriding.write "web" baseFile [] ⟨"/tmp"⟩ ⟨[(["tmp"], .directory)]⟩ with
    ⟨outcome, updated, fs'⟩
  rw [run] at succeeds prints readsBack
  cases outcome with
  | error e => simp [Except.toOption] at succeeds
  | ok path =>
      have isPath : path = ⟨"/tmp/web-helmgen-values.yaml"⟩ := Option.some.inj succeeds
      subst isPath
      obtain ⟨_, _, _, _, bytes, isRead, _, _, inhabited⟩ := write_agrees run
      obtain ⟨⟨text, printed, rfl⟩, agrees, _⟩ := inhabited (by simp [overriding])
      rw [printed] at prints
      rw [Option.some.inj prints] at isRead agrees
      exact ⟨updated, fs', rfl, isRead, agrees readsBack⟩

end ValuesSource

end ChartInflation
