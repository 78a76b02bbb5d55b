import ChartInflation.Proofs.Inflation.EffectiveValues
import ChartInflation.Proofs.Values.Idempotence
import ChartInflation.Proofs.Yaml.Decoding

/-!
# Writing the values file again

After a write the source keeps the effective values, so the next write combines them with the base
values once more.  Where the items of both identify themselves, it gives the same file and the same
source exactly if the identifying keys are in concord (`write_again`).
-/

set_option autoImplicit false

namespace ChartInflation

open Yaml (Value)

namespace Values

theorem isEmpty_merge (p : Precedence) {es fs : Yaml.Mapping} (esValid : (Value.mapping es).Valid)
    (fsValid : (Value.mapping fs).Valid) (inhabited : isEmpty (.mapping fs) = false) :
    isEmpty (merge p (.mapping es) (.mapping fs)) = false := by
  rw [merge, isEmpty, List.isEmpty_eq_false_iff]
  intro none
  have keys := keys_mergeEntries p (fun _ => esValid.key) fsValid
  rw [none, List.map_nil, eq_comm, List.append_eq_nil_iff] at keys
  obtain ⟨noBase, noNew⟩ := keys
  rw [List.map_eq_nil_iff] at noBase
  subst noBase
  cases fs with
  | nil => simp [isEmpty] at inhabited
  | cons f fs => simp [Yaml.Mapping.get?] at noNew

def isIdentifiedMapping : Value → Bool
  | .mapping entries => valuesIdentified entries
  | _ => false

theorem isIdentifiedMapping_iff (v : Value) :
    isIdentifiedMapping v ↔ ∃ es, v = .mapping es ∧ isIdentified v := by
  cases v <;> simp [isIdentifiedMapping, isIdentified]

end Values

namespace ValuesSource

/-- What holds of the base values and the precedence with which they are merged, if they are. -/
def BaseIs (s : ValuesSource) (loader : Loader) (fs : FileSystem)
    (P : Precedence → Value → Bool) : Prop :=
  ∀ p file base, s.policy.inlinePrecedence = some p → loader.load fs s.file = .ok file →
    Value.ofBytes file = .ok base → P p base

structure Identified (s : ValuesSource) (loader : Loader) (fs : FileSystem) : Prop where
  valid : s.inline.Valid
  inline : Values.isIdentifiedMapping s.inline
  base : s.BaseIs loader fs fun _ base => Values.isIdentifiedMapping base

/-- Where base and inline values are merged, their identifying keys are in concord. -/
abbrev Concordant (s : ValuesSource) (loader : Loader) (fs : FileSystem) : Prop :=
  s.BaseIs loader fs fun p base => Values.concordant p base s.inline

/-- Whether the base file is read: to be copied or to be merged. -/
def ReadsBase (s : ValuesSource) : Prop :=
  Values.isEmpty s.inline ∨ s.policy.inlinePrecedence.isSome

instance (s : ValuesSource) (loader : Loader) (fs : FileSystem) (P : Precedence → Value → Bool) :
    Decidable (s.BaseIs loader fs P) :=
  match merges : s.policy.inlinePrecedence, loaded : loader.load fs s.file with
  | none, _ => isTrue fun p _ _ isSome => by simp [merges] at isSome
  | some _, .error _ => isTrue fun _ file _ _ isLoaded => by simp [loaded] at isLoaded
  | some p, .ok file =>
    match parsed : Value.ofBytes file with
    | .error _ => isTrue fun _ file' base _ isLoaded isParsed => by
        rw [loaded] at isLoaded
        simp [← Except.ok.inj isLoaded, parsed] at isParsed
    | .ok base =>
      if holds : P p base then isTrue fun p' file' base' isSome isLoaded isParsed => by
        rw [merges] at isSome
        rw [loaded] at isLoaded
        rw [← Except.ok.inj isLoaded, parsed] at isParsed
        rw [← Option.some.inj isSome, ← Except.ok.inj isParsed]
        exact holds
      else isFalse fun all => holds (all p file base merges loaded parsed)

variable {s updated : ValuesSource} {loader : Loader} {fs fs' : FileSystem}

theorem effective_inhabited (identified : s.Identified loader fs)
    (inhabited : Values.isEmpty s.inline = false) {v : Value}
    (effective : s.effective loader fs = .ok v) : Values.isEmpty v = false := by
  cases merges : s.policy.inlinePrecedence with
  | none =>
      rw [effective_of_none merges] at effective
      exact Except.ok.inj effective ▸ inhabited
  | some p =>
      obtain ⟨file, base, loaded, parsed, rfl⟩ := (effective_of_precedence merges v).mp effective
      obtain ⟨es, rfl, _⟩ := (Values.isIdentifiedMapping_iff base).mp
        (identified.base p file base merges loaded parsed)
      obtain ⟨gs, isInline, _⟩ := (Values.isIdentifiedMapping_iff s.inline).mp identified.inline
      have inlineValid := identified.valid
      rw [isInline] at inhabited inlineValid ⊢
      exact Values.isEmpty_merge p (Yaml.ofBytes_valid parsed) inlineValid inhabited

section Again
variable (identified : s.Identified loader fs)
  (sameBase : s.ReadsBase → ∀ file, loader.load fs s.file = .ok file →
    loader.load fs' s.file = .ok file)
include identified sameBase

theorem effective_again (concord : s.Concordant loader fs) {v : Value}
    (effective : s.effective loader fs = .ok v) :
    { s with inline := v }.effective loader fs' = .ok v := by
  cases merges : s.policy.inlinePrecedence with
  | none => exact effective_of_none merges
  | some p =>
      obtain ⟨file, base, loaded, parsed, rfl⟩ := (effective_of_precedence merges v).mp effective
      have loadedAgain := sameBase (Or.inr (by rw [merges]; rfl)) file loaded
      have merges' : { s with inline := Values.merged base s.inline p }.policy.inlinePrecedence =
          some p := merges
      refine (effective_of_precedence merges' _).mpr ⟨file, base, loadedAgain, parsed, ?_⟩
      change Values.merged base s.inline p = Values.merged base (Values.merged base s.inline p) p
      have concordant := concord p file base merges loaded parsed
      obtain ⟨es, rfl, baseIdentified⟩ := (Values.isIdentifiedMapping_iff base).mp
        (identified.base p file base merges loaded parsed)
      obtain ⟨gs, isInline, inlineIdentified⟩ :=
        (Values.isIdentifiedMapping_iff s.inline).mp identified.inline
      have inlineValid := identified.valid
      rw [isInline] at inlineValid inlineIdentified concordant ⊢
      exact (Values.merge_merge p (Yaml.ofBytes_valid parsed) inlineValid baseIdentified
        inlineIdentified concordant).symm

theorem concordant_of_effective {v w : Value} (effective : s.effective loader fs = .ok v)
    (again : { s with inline := v }.effective loader fs' = .ok w) (equal : w.same v) :
    s.Concordant loader fs := by
  intro p file base merges loaded parsed
  obtain ⟨file', base', loaded', parsed', rfl⟩ := (effective_of_precedence merges v).mp effective
  have merges' : { s with inline := Values.merged base' s.inline p }.policy.inlinePrecedence =
      some p := merges
  obtain ⟨file'', base'', loaded'', parsed'', rfl⟩ := (effective_of_precedence merges' w).mp again
  have loadedAgain := sameBase (Or.inr (by rw [merges]; rfl)) file loaded
  rw [loaded] at loaded'
  rw [loadedAgain] at loaded''
  rw [← Except.ok.inj loaded', parsed] at parsed'
  rw [← Except.ok.inj loaded'', parsed] at parsed''
  rw [← Except.ok.inj parsed', ← Except.ok.inj parsed''] at equal
  change (Values.merged base (Values.merged base s.inline p) p).same
    (Values.merged base s.inline p) at equal
  obtain ⟨es, rfl, baseIdentified⟩ := (Values.isIdentifiedMapping_iff base).mp
    (identified.base p file base merges loaded parsed)
  obtain ⟨gs, isInline, inlineIdentified⟩ :=
    (Values.isIdentifiedMapping_iff s.inline).mp identified.inline
  have inlineValid := identified.valid
  rw [isInline] at equal inlineValid inlineIdentified ⊢
  exact (Values.same_merge_merge_iff p (Yaml.ofBytes_valid parsed) inlineValid baseIdentified
    inlineIdentified).mp equal

/-- Writing again what was written.  The same file is written with the same content, and the source
stays as it is, exactly if the identifying keys are in concord. -/
theorem write_again {chart : String} {here : Location} {directory path : Path}
    (run : s.write chart loader here directory fs = (.ok path, updated, fs')) :
    (s.Concordant loader fs →
      updated.write chart loader here directory fs' = (.ok path, updated, fs')) ∧
    ∀ path' later fs'', updated.write chart loader here directory fs' = (.ok path', later, fs'') →
      later.inline.same updated.inline → s.Concordant loader fs := by
  obtain ⟨isTarget, bytes, made, written⟩ := write_eq_ok_iff.mp run
  have writtenAgain := FileSystem.write_twice written
  by_cases empty : Values.isEmpty s.inline
  · obtain ⟨loaded, rfl⟩ := (content_of_empty empty bytes).mp made
    have madeAgain := (content_of_empty empty bytes).mpr ⟨sameBase (Or.inl empty) bytes loaded, rfl⟩
    constructor
    · intro _
      exact write_eq_ok_iff.mpr ⟨isTarget, bytes, madeAgain, writtenAgain⟩
    · intro _ _ _ _ _ p file base _ _ _
      -- no entry comes in
      obtain ⟨gs, isInline, _⟩ := (Values.isIdentifiedMapping_iff _).mp identified.inline
      rw [isInline, Values.isEmpty, List.isEmpty_iff] at empty
      rw [isInline, empty]
      cases base <;> rfl
  · rw [Bool.not_eq_true] at empty
    obtain ⟨v, text, effective, printed, rfl, rfl⟩ := (content_of_inhabited empty bytes).mp made
    have inhabited := effective_inhabited identified empty effective
    constructor
    · intro concord
      have effectiveAgain := effective_again identified sameBase concord effective
      exact write_eq_ok_iff.mpr ⟨isTarget, _, (content_of_inhabited inhabited _).mpr
        ⟨v, text, effectiveAgain, printed, rfl, rfl⟩, writtenAgain⟩
    · intro path' later fs'' runAgain equal
      obtain ⟨_, _, madeAgain, _⟩ := write_eq_ok_iff.mp runAgain
      obtain ⟨w, _, effectiveAgain, _, _, rfl⟩ := (content_of_inhabited inhabited _).mp madeAgain
      exact concordant_of_effective identified sameBase effective effectiveAgain equal

end Again

/-! ## Host entries -/

theorem eq_of_toOption {run : Except InflationError Path × ValuesSource × FileSystem} {path : Path}
    (succeeds : run.1.toOption = some path) : run = (.ok path, run.2.1, run.2.2) := by
  obtain ⟨outcome, updated, fs⟩ := run
  cases outcome with
  | error e => simp [Except.toOption] at succeeds
  | ok found =>
      have isIt : found = path := Option.some.inj succeeds
      rw [isIt]

def hosting (file : String) (hosts : List (List (String × String))) : ValuesSource where
  file := ⟨file⟩
  additionalFiles := []
  inline := .mapping [(.string "hosts", .sequence (hosts.map fun fields =>
    .mapping (fields.map fun field => (.string field.1, .string field.2))))]
  policy := .override

def twoHosts : Loader :=
  Loader.ofFiles ⟨"/work"⟩ [(⟨"values.yaml"⟩, Bytes.ofString
    "hosts: [{name: a, ip: x}, {name: b, ip: y}]")]

def unwritten : FileSystem := ⟨[(["tmp"], .directory)]⟩

def writtenFile : Path := ⟨"/tmp/web-helmgen-values.yaml"⟩

def oneMoreHost : ValuesSource :=
  hosting "values.yaml" [[("name", "b"), ("zone", "w")], [("name", "c"), ("ip", "z")]]

theorem write_again_hosts : ∃ updated fs',
    oneMoreHost.write "web" twoHosts [] ⟨"/tmp"⟩ unwritten = (.ok writtenFile, updated, fs') ∧
    updated.write "web" twoHosts [] ⟨"/tmp"⟩ fs' = (.ok writtenFile, updated, fs') := by
  have succeeds : (oneMoreHost.write "web" twoHosts [] ⟨"/tmp"⟩ unwritten).1.toOption =
      some writtenFile := by
    decide +kernel
  have run := eq_of_toOption succeeds
  have identified : oneMoreHost.Identified twoHosts unwritten :=
    ⟨by simp [oneMoreHost, hosting, Value.same], by decide +kernel, by decide +kernel⟩
  have sameBase : ∀ fs', oneMoreHost.ReadsBase → ∀ file,
      twoHosts.load unwritten oneMoreHost.file = .ok file →
      twoHosts.load fs' oneMoreHost.file = .ok file := fun _ _ _ loaded => loaded
  exact ⟨_, _, run, (write_again identified (sameBase _) run).1 (by decide +kernel)⟩

def crossedHosts : ValuesSource :=
  hosting "values.yaml" [[("name", "b"), ("ip", "x")], [("ip", "y")]]

def written : FileSystem :=
  unwritten.put ["tmp", "web-helmgen-values.yaml"] (.file (Bytes.ofString
    "hosts: [{name: a, ip: x}, {ip: y}]") false)

def ownLoader : Loader :=
  ⟨⟨"/tmp"⟩, fun fs path => do
    let found ← Loader.permitted .rootOnly ["tmp"] fs path
    (fs.readAt found).mapError .file⟩

theorem ofDirectory_ownLoader :
    Loader.ofDirectory written [] ⟨"/tmp"⟩ .rootOnly = .ok ownLoader := by
  have isDirectory : written.isDirectory [] ⟨"/tmp"⟩ := by decide +kernel
  have located : written.locate [] ⟨"/tmp"⟩ = .ok ["tmp"] := by
    rfl
  simp only [Loader.ofDirectory, isDirectory, located]
  rfl

def secondHost : ValuesSource :=
  hosting "web-helmgen-values.yaml" [[("ip", "x")], [("name", "a"), ("ip", "y")]]

def ChangesAgain (s : ValuesSource) (loader : Loader) (fs : FileSystem) : Prop :=
  ∃ updated later fs' fs'',
    s.write "web" loader [] ⟨"/tmp"⟩ fs = (.ok writtenFile, updated, fs') ∧
    updated.write "web" loader [] ⟨"/tmp"⟩ fs' = (.ok writtenFile, later, fs'') ∧
    later.inline.same updated.inline = false

theorem changesAgain_of_runs {s : ValuesSource} {loader : Loader} {fs : FileSystem}
    (differ :
      let first := s.write "web" loader [] ⟨"/tmp"⟩ fs
      let second := first.2.1.write "web" loader [] ⟨"/tmp"⟩ first.2.2
      first.1.toOption = some writtenFile ∧ second.1.toOption = some writtenFile ∧
        second.2.1.inline.same first.2.1.inline = false) : s.ChangesAgain loader fs := by
  obtain ⟨first, second, apart⟩ := differ
  exact ⟨_, _, _, _, eq_of_toOption first, eq_of_toOption second, apart⟩

/-- Without concord the second write may differ, and so it may where the base file is the one that
is written. -/
theorem write_again_differs :
    (crossedHosts.Identified twoHosts unwritten ∧
      crossedHosts.ChangesAgain twoHosts unwritten) ∧
    Loader.ofDirectory written [] ⟨"/tmp"⟩ .rootOnly = .ok ownLoader ∧
    secondHost.Identified ownLoader written ∧ secondHost.Concordant ownLoader written ∧
      secondHost.ChangesAgain ownLoader written := by
  refine ⟨⟨⟨?_, ?_, ?_⟩, ?_⟩, ofDirectory_ownLoader, ⟨?_, ?_, ?_⟩, ?_, ?_⟩
  · simp [crossedHosts, hosting, Value.same]
  · decide +kernel
  · decide +kernel
  · exact changesAgain_of_runs (by decide +kernel)
  · simp [secondHost, hosting, Value.same]
  · decide +kernel
  · decide +kernel
  · decide +kernel
  · exact changesAgain_of_runs (by decide +kernel)

end ValuesSource

end ChartInflation
