import ChartInflation.Inflation.Output
import ChartInflation.Proofs.Inflation.EffectiveValues
import ChartInflation.Proofs.Inflation.Output
import ChartInflation.Proofs.Text.Utf8
import ChartInflation.Proofs.Values.Items
import ChartInflation.Proofs.Yaml.Decoding
import ChartInflation.Proofs.Yaml.Joining
import ChartInflation.Proofs.Yaml.Printer.Unmarked

/-!
# Streams of resources read back

The stream that resources are printed as is cut into their own documents again, however many there
are and whatever their texts hold, so the resources are read back as far as each of them is alone
(`print_reads_back`).
-/

set_option autoImplicit false

namespace ChartInflation

open Yaml (Value Mapping Document)

/-! ## Resources that were obtained -/

theorem Yaml.ofStream_valid {bytes : Bytes} {values : List Value}
    (read : Value.ofStream bytes = .ok values) : ∀ v ∈ values, v.Valid := by
  obtain ⟨documents, -, areRead⟩ := Outcome.bind_eq_ok_iff.mp read
  rw [Outcome.mapM_eq_ok_iff] at areRead
  clear read
  induction areRead with
  | nil => simp
  | cons isRead _ ih => exact List.forall_mem_cons.mpr ⟨ofDocument_valid isRead, ih⟩

namespace Resources

theorem valid_of_ofBytes {bytes : Bytes} {rs : Resources} (read : ofBytes bytes = .ok rs) :
    ∀ r ∈ rs, r.toValue.Valid := by
  obtain ⟨values, isRead, are⟩ := (ofBytes_eq_ok_iff bytes rs).mp read
  intro r member
  have found : r.toValue ∈ values.filter (!·.isNull) := by
    rw [(are_iff_eq_map values rs).mp are]
    exact List.mem_map_of_mem member
  exact Yaml.ofStream_valid isRead _ (List.mem_of_mem_filter found)

theorem ofBytes_of_output {bytes : Bytes} {rs : Resources}
    (read : Output.resources bytes = .ok rs) : ∃ found, ofBytes found = .ok rs := by
  unfold Output.resources at read
  cases direct : ofBytes bytes with
  | ok all =>
      rw [direct] at read
      exact ⟨bytes, Except.ok.inj read ▸ direct⟩
  | error primary =>
      simp only [direct] at read
      cases begins : Output.fromSeparator? true bytes with
      | none => simp [Output.reread, Output.documents, begins] at read
      | some found => exact ⟨found, ((Output.reread_eq_ok_iff begins primary rs).mp read).1⟩

/-! ## Reading back -/

theorem text?_same {v w : Value} (valid : v.Valid) (equal : v.same w) : v.text? = w.text? := by
  induction valid generalizing w with
  | tagged tag _ ih =>
      obtain ⟨w, rfl, inner⟩ := (Value.same_tagged_iff tag _ w).mp equal
      have inside := ih inner
      exact inside
  | string s => rw [(Value.same_string_iff s w).mp equal]
  | _ => cases w <;> first | rfl | simp [Value.same] at equal

theorem textField?_same {es fs : Mapping} (esValid : (Value.mapping es).Valid)
    (fsValid : (Value.mapping fs).Valid) (equal : (Value.mapping es).same (.mapping fs))
    (name : String) : Resource.textField? es name = Resource.textField? fs name := by
  have found := Values.get?_same esValid fsValid equal (.string name)
  unfold Resource.textField? Mapping.field?
  cases left : Mapping.get? es (.string name) with
  | none =>
      cases right : Mapping.get? fs (.string name) with
      | none => rfl
      | some w => simp [left, right, Values.sameFound] at found
  | some v =>
      cases right : Mapping.get? fs (.string name) with
      | none => simp [left, right, Values.sameFound] at found
      | some w =>
          rw [left, right] at found
          exact text?_same (Mapping.get?_valid esValid left) found

theorem exists_resource_of_same {r : Resource} (valid : r.toValue.Valid) {w : Value}
    (wValid : w.Valid) (equal : w.same r.toValue) : ∃ r' : Resource, r'.toValue = w := by
  have forth : r.toValue.same w := Value.same_symm wValid valid equal
  obtain ⟨fs, rfl⟩ := Value.mapping_of_same forth
  have texts : Resource.hasText fs = Resource.hasText r.entries := by
    funext name
    rw [Resource.hasText, Resource.hasText, textField?_same valid wValid forth]
  have complete : ∀ name ∈ Resource.requiredFields, Resource.hasText fs name := by
    rw [texts]
    exact r.complete
  exact ⟨⟨fs, complete⟩, rfl⟩

theorem readsAlone_of_readsBack {v : Value} {text : String} (printed : v.print = .ok text)
    (inhabited : v ≠ .null) (readsBack : v.ReadsBack) : ∃ document w,
      Yaml.ReadsAlone text document ∧ Value.ofDocument document = .ok w ∧ w.same v := by
  obtain ⟨w, isRead, equal⟩ := readsBack text printed
  obtain ⟨document, isOnly, isValue⟩ := Outcome.bind_eq_ok_iff.mp isRead
  refine ⟨document, w, ⟨Yaml.Printer.print_unmarked printed, ?_, ?_⟩, isValue, equal⟩
  · obtain ⟨documents, areDocuments, single⟩ := Outcome.bind_eq_ok_iff.mp isOnly
    have found : documents = [document] := by
      split at single
      · rw [← Except.ok.inj single]
      · cases single
    rw [Yaml.documents, Bytes.ofString, Utf8.decode?_encode] at areDocuments
    rw [← found]
    exact areDocuments
  · rintro rfl
    rw [← Except.ok.inj isValue] at equal
    exact inhabited ((Value.same_null_iff v).mp equal)

theorem readsAlone_all {rs : Resources} {texts : List String}
    (printed : List.Forall₂ (fun r text => r.print = .ok text) rs texts)
    (valid : ∀ r ∈ rs, r.toValue.Valid) (readsBack : ∀ r ∈ rs, r.toValue.ReadsBack) :
    ∃ documents, ∃ rs' : Resources, List.Forall₂ Yaml.ReadsAlone texts documents ∧
      List.Forall₂ (fun document r => Value.ofDocument document = .ok r.toValue) documents rs' ∧
      List.Forall₂ (fun r r' => r'.toValue.same r.toValue) rs rs' := by
  induction printed with
  | nil => exact ⟨[], [], .nil, .nil, .nil⟩
  | cons isText _ ih =>
      rw [List.forall_mem_cons] at valid readsBack
      obtain ⟨documents, rs', areAlone, areValues, areSame⟩ := ih valid.2 readsBack.2
      obtain ⟨document, w, isAlone, isValue, equal⟩ :=
        readsAlone_of_readsBack isText (by simp [Resource.toValue]) readsBack.1
      obtain ⟨r', rfl⟩ :=
        exists_resource_of_same valid.1 (Yaml.ofDocument_valid isValue) equal
      exact ⟨document :: documents, r' :: rs', .cons isAlone areAlone, .cons isValue areValues,
        .cons equal areSame⟩

theorem are_of_areValues {documents : List Document} {rs : Resources}
    (areValues : List.Forall₂ (fun document r => Value.ofDocument document = .ok r.toValue)
      documents rs) : documents.mapM Value.ofDocument = .ok (rs.map Resource.toValue) ∧
      Are (rs.map Resource.toValue) rs := by
  constructor
  · rw [Outcome.mapM_eq_ok_iff, List.forall₂_map_right_iff]
    exact areValues
  · rw [are_iff_eq_map, List.filter_eq_self, List.forall_mem_map]
    exact fun r _ => rfl

/-- Resources that were read are read again from the stream they are printed as, as many and in
their order, if the text of each of them alone is read as it. -/
theorem print_reads_back {bytes : Bytes} {rs : Resources} {text : String}
    (obtained : ofBytes bytes = .ok rs ∨ Output.resources bytes = .ok rs)
    (readsBack : ∀ r ∈ rs, r.toValue.ReadsBack) (printed : rs.print = .ok text) :
    ∃ rs', ofBytes (Bytes.ofString text) = .ok rs' ∧
      List.Forall₂ (fun r r' => r'.toValue.same r.toValue) rs rs' := by
  have valid : ∀ r ∈ rs, r.toValue.Valid := by
    rcases obtained with direct | output
    · exact valid_of_ofBytes direct
    · obtain ⟨found, direct⟩ := ofBytes_of_output output
      exact valid_of_ofBytes direct
  obtain ⟨texts, areTexts, isText⟩ := Outcome.bind_eq_ok_iff.mp printed
  rw [Outcome.mapM_eq_ok_iff] at areTexts
  obtain ⟨documents, rs', areAlone, areValues, areSame⟩ :=
    readsAlone_all areTexts valid readsBack
  refine ⟨rs', (ofBytes_eq_ok_iff _ _).mpr ?_, areSame⟩
  obtain ⟨valuesRead, are⟩ := are_of_areValues areValues
  have decoded : Yaml.documents (Bytes.ofString text) = Yaml.documentsOfText text.toList := by
    rw [Yaml.documents, Bytes.ofString, Utf8.decode?_encode]
  rw [Value.ofStream, decoded, ← Except.ok.inj isText]
  cases areAlone with
  | nil =>
      cases areValues
      exact ⟨[.null], rfl, .nil⟩
  | cons isAlone others =>
      rw [Yaml.documentsOfText_joined isAlone others]
      exact ⟨_, valuesRead, are⟩

/-- A resource whose text holds lines of dashes and blank lines at its end, a document that holds
nothing, and another resource. -/
def dashedStream : Bytes := Bytes.ofString
  "apiVersion: v1\nkind: A\nnote: \"---\\n---\\n\\n\"\n---\n\n---\nkind: A\napiVersion: v1\n"

theorem print_reads_back_dashed : ∃ rs text rs', ofBytes dashedStream = .ok rs ∧ rs.length = 2 ∧
    (∀ r ∈ rs, r.toValue.ReadsBack) ∧ rs.print = .ok text ∧
    ofBytes (Bytes.ofString text) = .ok rs' ∧
    List.Forall₂ (fun r r' => r'.toValue.same r.toValue) rs rs' := by
  have evaluated : ((ofBytes dashedStream).toOption.any fun rs => decide (rs.length = 2) &&
      rs.all (fun r => decide r.toValue.ReadsBack) && rs.print.toOption.isSome) = true := by
    decide +kernel
  cases read : ofBytes dashedStream with
  | error e => simp [read, Except.toOption] at evaluated
  | ok rs =>
      simp only [read, Except.toOption, Option.any_some, Bool.and_eq_true, decide_eq_true_eq,
        List.all_eq_true] at evaluated
      obtain ⟨⟨two, readsBack⟩, prints⟩ := evaluated
      cases printed : rs.print with
      | error f => simp [printed] at prints
      | ok text =>
          obtain ⟨rs', again, same⟩ := print_reads_back (.inl read) readsBack printed
          exact ⟨rs, text, rs', rfl, two, readsBack, printed, again, same⟩

end Resources

end ChartInflation
