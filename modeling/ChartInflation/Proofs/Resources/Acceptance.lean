import ChartInflation.Proofs.Outcome
import ChartInflation.Proofs.Resources

/-!
# Which documents are resources

What a resource is and why another value is none, told without the functions that check it
(`isResource_iff`, `ofValue_eq_error_iff`).  A collection holds every document that is not empty,
unchanged and in order; the first that is no resource is named by its place among all documents, and
before anything is checked all documents must be readable (`resources_of_all_documents`).
-/

set_option autoImplicit false

namespace ChartInflation

open Yaml (Value Mapping Document)

/-! ## Values under tags -/

namespace Yaml.Value

/-- A value is another one with any number of tags around it. -/
inductive Holds : Value → Value → Prop where
  | bare (v : Value) : Holds v v
  | tagged (tag : Tag) {v core : Value} (inside : Holds v core) : Holds (.tagged tag v) core

theorem holds_untagged (v : Value) : v.Holds v.untagged := by
  cases v with
  | tagged tag v => exact .tagged tag (holds_untagged v)
  | null => exact .bare _
  | bool b => exact .bare _
  | number n => exact .bare _
  | string s => exact .bare _
  | sequence items => exact .bare _
  | mapping entries => exact .bare _

theorem Holds.untagged {v core : Value} (holds : v.Holds core) : v.untagged = core.untagged := by
  induction holds with
  | bare v => rfl
  | tagged tag inside ih =>
      rw [Value.untagged]
      exact ih

theorem isNull_iff (v : Value) : v.isNull ↔ v.Holds .null := by
  constructor
  · intro null
    have inside := holds_untagged v
    unfold isNull at null
    split at null
    · next core => rwa [core] at inside
    · cases null
  · intro holds
    rw [isNull, holds.untagged]
    rfl

theorem text?_eq_some_iff (v : Value) (s : String) : v.text? = some s ↔ v.Holds (.string s) := by
  constructor
  · intro isText
    have inside := holds_untagged v
    unfold text? at isText
    split at isText
    · next core =>
      rw [core, Option.some.inj isText] at inside
      exact inside
    · cases isText
  · intro holds
    rw [text?, holds.untagged]
    rfl

instance : DecidablePred fun v : Value => v.Holds .null :=
  fun v => decidable_of_iff _ (isNull_iff v)

end Yaml.Value

/-! ## Resources and other values -/

def HasText (entries : Mapping) (name : String) : Prop :=
  ∃ field s, Mapping.field? entries name = some field ∧ field.Holds (.string s) ∧ s ≠ ""

/-- A mapping without tags that names its API version and its kind. -/
def IsResource (v : Value) : Prop :=
  ∃ entries, v = .mapping entries ∧ HasText entries "apiVersion" ∧ HasText entries "kind"

inductive IsUnfit : Value → String → Prop where
  | other (v : Value) (noMapping : ∀ entries, v ≠ .mapping entries) :
      IsUnfit v ("expected a mapping, found " ++ Resource.kindOfValue v)
  | noVersion (entries : Mapping) (missing : ¬ HasText entries "apiVersion") :
      IsUnfit (.mapping entries) "missing 'apiVersion'"
  | noKind (entries : Mapping) (versioned : HasText entries "apiVersion")
      (missing : ¬ HasText entries "kind") : IsUnfit (.mapping entries) "missing 'kind'"

namespace Resource

theorem hasText_iff (entries : Mapping) (name : String) :
    hasText entries name ↔ HasText entries name := by
  unfold hasText textField? HasText
  cases found : Mapping.field? entries name with
  | none => simp
  | some field =>
      rw [Option.bind_some]
      constructor
      · intro isText
        split at isText
        · next s text =>
          exact ⟨field, s, rfl, (Value.text?_eq_some_iff field s).mp text, by simpa using isText⟩
        · cases isText
      · rintro ⟨_, s, isField, holds, inhabited⟩
        obtain rfl := Option.some.inj isField
        rw [(Value.text?_eq_some_iff field s).mpr holds]
        simpa using inhabited

theorem ofValue_mapping_eq_error_iff (entries : Mapping) (reason : String) :
    ofValue (.mapping entries) = .error reason ↔
      ∃ name, missing? entries = some name ∧ reason = "missing '" ++ name ++ "'" := by
  rw [ofValue]
  split
  next name missing => simp [missing, eq_comm]
  next complete => simp [complete]

theorem missing?_eq_some_iff (entries : Mapping) (name : String) : missing? entries = some name ↔
    (name = "apiVersion" ∧ ¬ HasText entries "apiVersion") ∨
      (name = "kind" ∧ HasText entries "apiVersion" ∧ ¬ HasText entries "kind") := by
  rw [← hasText_iff, ← hasText_iff]
  cases versioned : hasText entries "apiVersion" <;> cases kinded : hasText entries "kind" <;>
    simp [missing?, requiredFields, List.find?, versioned, kinded, eq_comm]

theorem ofValue_eq_error_iff (v : Value) (reason : String) :
    ofValue v = .error reason ↔ IsUnfit v reason := by
  constructor
  · intro refused
    cases v with
    | mapping entries =>
        obtain ⟨name, missing, rfl⟩ := (ofValue_mapping_eq_error_iff entries reason).mp refused
        obtain ⟨rfl, noVersion⟩ | ⟨rfl, versioned, noKind⟩ :=
          (missing?_eq_some_iff entries name).mp missing
        · exact .noVersion entries noVersion
        · exact .noKind entries versioned noKind
    | null | bool | number | string | sequence | tagged =>
        obtain rfl := Except.error.inj refused
        exact .other _ (by simp)
  · intro unfit
    cases unfit with
    | other v noMapping =>
        cases v with
        | mapping entries => exact absurd rfl (noMapping entries)
        | null | bool | number | string | sequence | tagged => rfl
    | noVersion entries missing =>
        have isFirst := (missing?_eq_some_iff entries "apiVersion").mpr (.inl ⟨rfl, missing⟩)
        exact (ofValue_mapping_eq_error_iff entries _).mpr ⟨_, isFirst, rfl⟩
    | noKind entries versioned missing =>
        have isFirst := (missing?_eq_some_iff entries "kind").mpr (.inr ⟨rfl, versioned, missing⟩)
        exact (ofValue_mapping_eq_error_iff entries _).mpr ⟨_, isFirst, rfl⟩

theorem isResource_toValue (r : Resource) : IsResource r.toValue := by
  have versioned := r.complete "apiVersion" (by decide)
  have kinded := r.complete "kind" (by decide)
  exact ⟨r.entries, rfl, (hasText_iff ..).mp versioned, (hasText_iff ..).mp kinded⟩

theorem isResource_iff (v : Value) : IsResource v ↔ ∃ r, ofValue v = .ok r := by
  simp only [ofValue_eq_ok_iff]
  constructor
  · rintro ⟨entries, rfl, versioned, kinded⟩
    have complete : ∀ name ∈ requiredFields, hasText entries name := by
      simp [requiredFields, hasText_iff, versioned, kinded]
    exact ⟨⟨entries, complete⟩, rfl⟩
  · rintro ⟨r, rfl⟩
    exact r.isResource_toValue

end Resource

/-! ## The resources among documents -/

namespace Resources

theorem are_iff (values : List Value) (rs : Resources) :
    Are values rs ↔ (∀ v ∈ values, v.Holds .null ∨ IsResource v) ∧
      rs.map Resource.toValue = values.filter (¬ Value.Holds · .null) := by
  have inhabited : values.filter (!·.isNull) = values.filter (¬ Value.Holds · .null) := by
    congr 1
    funext v
    simp [← Value.isNull_iff]
  rw [are_iff_eq_map, inhabited]
  constructor
  · intro areAll
    refine ⟨fun v member => or_iff_not_imp_left.mpr fun holdsSomething => ?_, areAll.symm⟩
    have kept : v ∈ rs.map Resource.toValue := by
      rw [← areAll]
      exact List.mem_filter.mpr ⟨member, decide_eq_true holdsSomething⟩
    obtain ⟨r, -, rfl⟩ := List.mem_map.mp kept
    exact r.isResource_toValue
  · rintro ⟨-, areAll⟩
    exact areAll.symm

theorem refuses_iff (front : List Value) (v : Value) (reason : String) :
    Refuses front v reason ↔ (∀ u ∈ front, u.Holds .null ∨ IsResource u) ∧ ¬ v.Holds .null ∧
      IsUnfit v reason := by
  simp only [Resource.isResource_iff, ← Value.isNull_iff, ← Resource.ofValue_eq_error_iff]
  exact ⟨fun ⟨earlier, inhabited, refused⟩ => ⟨earlier, inhabited, refused⟩,
    fun ⟨earlier, inhabited, refused⟩ => ⟨earlier, inhabited, refused⟩⟩

theorem ofValues_ne_yaml (values : List Value) (fault : Yaml.Fault) :
    ofValues values ≠ .error (.yaml fault) := by
  intro refused
  obtain ⟨_, _, _, _, _, _, isError⟩ := (ofValuesFrom_eq_error_iff 0 values _).mp refused
  cases isError

theorem ofBytes_of_readable {bytes : Bytes} {documents : List Document} {values : List Value}
    (cut : Yaml.documents bytes = .ok documents)
    (readable : List.Forall₂ (fun d v => Value.ofDocument d = .ok v) documents values) :
    ofBytes bytes = ofValues values := by
  have read : Value.ofStream bytes = .ok values := by
    rw [Value.ofStream, cut]
    exact Outcome.mapM_eq_ok_iff.mpr readable
  rw [ofBytes, read]

theorem ofBytes_eq_yaml_iff (bytes : Bytes) : (∃ fault, ofBytes bytes = .error (.yaml fault)) ↔
    (∃ fault, Yaml.documents bytes = .error fault) ∨
      ∃ documents, Yaml.documents bytes = .ok documents ∧
        ∃ d ∈ documents, ∃ fault, Value.ofDocument d = .error fault := by
  have ofStream : (∃ fault, ofBytes bytes = .error (.yaml fault)) ↔
      ∃ fault, Value.ofStream bytes = .error fault := by
    cases read : Value.ofStream bytes with
    | error fault => simp [ofBytes, read]
    | ok values => simp [ofBytes, read, ofValues_ne_yaml]
  rw [ofStream, Value.ofStream]
  cases cut : Yaml.documents bytes with
  | error fault => simp
  | ok documents => simp [Outcome.exists_mapM_eq_error_iff]

/-- A collection is all documents that are not empty, if each of them is a resource; else the first
that is none is refused by its place among all documents.  A stream is refused as such if any of its
documents cannot be read, whatever the documents in front of it are. -/
theorem resources_of_all_documents :
    (∀ values rs, ofValues values = .ok rs ↔
      (∀ v ∈ values, v.Holds .null ∨ IsResource v) ∧
        rs.map Resource.toValue = values.filter (¬ Value.Holds · .null)) ∧
    (∀ values e, ofValues values = .error e ↔ ∃ front v back reason, values = front ++ v :: back ∧
      ((∀ u ∈ front, u.Holds .null ∨ IsResource u) ∧ ¬ v.Holds .null ∧ IsUnfit v reason) ∧
        e = .notAResource front.length reason) ∧
    (∀ bytes, (∃ fault, ofBytes bytes = .error (.yaml fault)) ↔
      (∃ fault, Yaml.documents bytes = .error fault) ∨
        ∃ documents, Yaml.documents bytes = .ok documents ∧
          ∃ d ∈ documents, ∃ fault, Value.ofDocument d = .error fault) ∧
    ∀ bytes documents values, Yaml.documents bytes = .ok documents →
      List.Forall₂ (fun d v => Value.ofDocument d = .ok v) documents values →
        ofBytes bytes = ofValues values := by
  refine ⟨?_, ?_, ofBytes_eq_yaml_iff, ?_⟩
  · intro values rs
    rw [ofValues, ofValuesFrom_eq_ok_iff, are_iff]
  · intro values e
    rw [ofValues, ofValuesFrom_eq_error_iff]
    simp only [refuses_iff, Nat.zero_add]
  · intro bytes documents values cut readable
    exact ofBytes_of_readable cut readable

def fourthUnfit : Bytes := Bytes.ofString
  "--- !x\n---\napiVersion: !t v1\nkind: A\n---\napiVersion: !t v1\nkind: A\n---\n- b\n"

theorem resources_of_four_documents : ∃ documents values,
    Yaml.documents fourthUnfit = .ok documents ∧
      List.Forall₂ (fun d v => Value.ofDocument d = .ok v) documents values ∧
      ofBytes fourthUnfit = ofValues values ∧
      ofBytes fourthUnfit = .error (.notAResource 3 "expected a mapping, found a sequence") := by
  have refused : ofBytes fourthUnfit =
      .error (.notAResource 3 "expected a mapping, found a sequence") :=
    Outcome.error?_eq_some_iff.mp (by decide +kernel)
  have four : (Value.ofStream fourthUnfit).toOption.map List.length = some 4 := by decide +kernel
  obtain ⟨values, read, _⟩ := Outcome.exists_ok_of_toOption four
  obtain ⟨documents, cut, areValues⟩ := Outcome.bind_eq_ok_iff.mp read
  have each := Outcome.mapM_eq_ok_iff.mp areValues
  obtain ⟨_, _, _, equal⟩ := resources_of_all_documents
  exact ⟨documents, values, cut, each, equal _ documents values cut each, refused⟩

end Resources

end ChartInflation
