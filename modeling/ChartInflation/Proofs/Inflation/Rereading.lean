import ChartInflation.Proofs.Inflation.Output
import ChartInflation.Proofs.Outcome
import ChartInflation.Proofs.Text.Utf8

/-!
# The document that two readings refuse

What begins with a separator line is read twice from the same place, and refused twice for the same
document.  The first reading numbers all documents, the second one only those that hold something, so
the two give the same number exactly if no empty document stands in front of the refused one
(`reread_names_document`, `reread_misnames_document`).
-/

set_option autoImplicit false

namespace ChartInflation.Output

open Yaml (Value)
open Resources (Refuses)

/-! ## The line that the output begins with -/

theorem eq_firstLine_append (bytes : Bytes) :
    bytes = firstLine bytes ∨ ∃ rest, bytes = firstLine bytes ++ 0x0A :: rest := by
  have whole : firstLine bytes ++ bytes.dropWhile (· != 0x0A) = bytes :=
    List.takeWhile_append_dropWhile
  cases rest : bytes.dropWhile (· != 0x0A) with
  | nil =>
      rw [rest, List.append_nil] at whole
      exact Or.inl whole.symm
  | cons b rest' =>
      have isFeed : b = 0x0A := by
        have stops := List.head?_dropWhile_not (· != 0x0A) bytes
        simpa [rest] using stops
      rw [rest, isFeed] at whole
      exact Or.inr ⟨rest', whole.symm⟩

theorem decodes_firstLine {bytes : Bytes} (decodes : (Utf8.decode? bytes).isSome) :
    (Utf8.decode? (firstLine bytes)).isSome := by
  rcases eq_firstLine_append bytes with alone | ⟨rest, whole⟩
  · rwa [← alone]
  · rw [whole, Utf8.decode?_append_ascii _ (by decide)] at decodes
    exact decodes.1

theorem decodes_of_stream {bytes : Bytes} {values : List Value}
    (read : Value.ofStream bytes = .ok values) : (Utf8.decode? bytes).isSome := by
  obtain ⟨documents, isDocuments, _⟩ := Outcome.bind_eq_ok_iff.mp read
  unfold Yaml.documents at isDocuments
  split at isDocuments
  · cases isDocuments
  · next text decoded => simp [decoded]

/-- In a stream that can be read, a first line with dashes and a comment is a separator line, whether
or not a blank stands between them. -/
theorem isSeparator_of_read {bytes comment : Bytes} {values : List Value}
    (begins : Opens (firstLine bytes) comment ∨ firstLine bytes = dashes ++ 0x23 :: comment)
    (read : Value.ofStream bytes = .ok values) : isSeparator (firstLine bytes) := by
  have decodes := decodes_firstLine (decodes_of_stream read)
  rcases begins with opens | glued
  · rw [isSeparator_of_opens opens]
    generalize firstLine bytes = line at opens decodes
    cases opens with
    | bare blanks ending areBlank ended => rfl
    | commented blanks comment areBlank separated =>
        rw [← List.append_assoc, Utf8.decode?_append_ascii _ (by decide)] at decodes
        exact decodes.2
  · rw [glued, Utf8.decode?_append_ascii _ (by decide)] at decodes
    rw [glued]
    exact decodes.2

/-! ## The number of the refused document -/

theorem message_notAResource (index : Nat) (reason : String) :
    (InputError.notAResource index reason).message =
      "Invalid resource in document " ++ toString index ++ ": " ++ reason := rfl

theorem index_eq_of_message {i j : Nat} {reason : String}
    (same : (InputError.notAResource i reason).message =
      (InputError.notAResource j reason).message) : i = j := by
  rw [message_notAResource, message_notAResource, String.append_left_inj, String.append_left_inj,
    String.append_right_inj] at same
  have digits : Nat.toDigits 10 i = Nat.toDigits 10 j := by
    simpa [Nat.repr] using congrArg String.toList same
  calc
    i = Nat.ofDigitChars 10 (Nat.toDigits 10 i) 0 := Nat.ofDigitChars_ten_toDigits.symm
    _ = Nat.ofDigitChars 10 (Nat.toDigits 10 j) 0 := by rw [digits]
    _ = j := Nat.ofDigitChars_ten_toDigits

theorem ofValues_filter_error {front : List Value} {v : Value} {reason : String} (back : List Value)
    (refuses : Refuses front v reason) :
    Resources.ofValues ((front ++ v :: back).filter (!·.isNull)) =
      .error (.notAResource (front.countP (!·.isNull)) reason) := by
  have kept : (!v.isNull) = true := by simpa using refuses.inhabited
  have cut : (front ++ v :: back).filter (!·.isNull) =
      front.filter (!·.isNull) ++ v :: back.filter (!·.isNull) := by
    rw [List.filter_append, List.filter_cons, if_pos kept]
  rw [Resources.ofValues, cut, Resources.ofValuesFrom_eq_error_iff]
  refine ⟨_, v, _, reason, rfl, refuses.filter, ?_⟩
  rw [Nat.zero_add, List.countP_eq_length_filter]

theorem reread_of_refuses {bytes : Bytes} {front back : List Value} {v : Value} {reason : String}
    (begins : fromSeparator? true bytes = some bytes)
    (read : Value.ofStream bytes = .ok (front ++ v :: back)) (refuses : Refuses front v reason)
    (primary : InputError) :
    reread bytes primary = .error (.output primary
      (some (InputError.notAResource (front.countP (!·.isNull)) reason).message)) := by
  have found : documents bytes = .ok ((front ++ v :: back).filter (!·.isNull)) :=
    (documents_eq_ok_iff begins _).mpr ⟨_, read, rfl⟩
  have refused := ofValues_filter_error back refuses
  rw [reread, found]
  cases values : (front ++ v :: back).filter (!·.isNull) with
  | nil =>
      have member : v ∈ (front ++ v :: back).filter (!·.isNull) := by
        simp [refuses.inhabited]
      simp [values] at member
  | cons u values' =>
      rw [values] at refused
      simp only [refused]

/-- Both readings refuse the same document for the same reason.  The second one gives its number
among the documents that hold something, which is its number among all exactly if none in front of
it is empty. -/
theorem reread_names_document {bytes comment : Bytes} {index : Nat} {reason : String}
    (begins : Opens (firstLine bytes) comment ∨ firstLine bytes = dashes ++ 0x23 :: comment)
    (refused : Resources.ofBytes bytes = .error (.notAResource index reason)) :
    ∃ front v back, Value.ofStream bytes = .ok (front ++ v :: back) ∧ front.length = index ∧
      Refuses front v reason ∧
      resources bytes = .error (.output (.notAResource index reason)
        (some (InputError.notAResource (front.countP (!·.isNull)) reason).message)) ∧
      (resources bytes = .error (.output (.notAResource index reason)
          (some (InputError.notAResource index reason).message)) ↔ ∀ u ∈ front, ¬ u.isNull) := by
  cases read : Value.ofStream bytes with
  | error fault => simp [Resources.ofBytes, read] at refused
  | ok values =>
      have isRefused : Resources.ofValuesFrom 0 values = .error (.notAResource index reason) := by
        rw [Resources.ofBytes, read] at refused
        exact refused
      obtain ⟨front, v, back, reason', rfl, refuses, isError⟩ :=
        (Resources.ofValuesFrom_eq_error_iff 0 _ _).mp isRefused
      obtain ⟨isIndex, rfl⟩ : index = 0 + front.length ∧ reason = reason' := by
        simpa using isError
      rw [Nat.zero_add] at isIndex
      have reread : resources bytes = .error (.output (.notAResource index reason)
          (some (InputError.notAResource (front.countP (!·.isNull)) reason).message)) := by
        rw [resources, refused]
        have found := fromSeparator?_of_isSeparator (isSeparator_of_read begins read)
        exact reread_of_refuses found read refuses _
      refine ⟨front, v, back, rfl, isIndex.symm, refuses, reread, ?_⟩
      have countsAll : front.countP (!·.isNull) = front.length ↔ ∀ u ∈ front, ¬ u.isNull := by
        rw [List.countP_eq_length]
        simp
      rw [reread, ← countsAll, ← isIndex]
      constructor
      · intro same
        simp only [Except.error.injEq, InflationError.output.injEq, Option.some.injEq, true_and]
          at same
        exact index_eq_of_message same
      · intro same
        rw [same]

def secondRefused : Bytes := Bytes.ofString "--- # a\napiVersion: v1\nkind: A\n---\nkind: B\n"

theorem reread_names_second : resources secondRefused =
    .error (.output (.notAResource 1 "missing 'apiVersion'")
      (some (InputError.notAResource 1 "missing 'apiVersion'").message)) := by
  have line : firstLine secondRefused = dashes ++ ([0x20] ++ 0x23 :: [0x20, 0x61]) := by
    decide +kernel
  have opens : Opens (firstLine secondRefused) [0x20, 0x61] := by
    rw [line]
    exact .commented [0x20] [0x20, 0x61] (by simp) (by simp)
  have refused : Resources.ofBytes secondRefused =
      .error (.notAResource 1 "missing 'apiVersion'") :=
    Outcome.error?_eq_some_iff.mp (by decide +kernel)
  have inhabited : (Value.ofStream secondRefused).toOption.map (·.countP (·.isNull)) = some 0 := by
    decide +kernel
  obtain ⟨front, v, back, read, _, _, _, iff⟩ := reread_names_document (Or.inl opens) refused
  rw [read] at inhabited
  have noneEmpty : ∀ u ∈ front, ¬ u.isNull := by
    have counts : (front ++ v :: back).countP (·.isNull) = 0 := by
      simpa [Except.toOption] using inhabited
    intro u member
    exact List.countP_eq_zero.mp counts u (List.mem_append_left _ member)
  exact iff.mpr noneEmpty

def emptyInFront : Bytes := Bytes.ofString "---\n---\nkind: A\n"

/-- The second reading calls the refused document the first one. -/
theorem reread_misnames_document : Opens (firstLine emptyInFront) [] ∧
    Resources.ofBytes emptyInFront = .error (.notAResource 1 "missing 'apiVersion'") ∧
    resources emptyInFront = .error (.output (.notAResource 1 "missing 'apiVersion'")
      (some (InputError.notAResource 0 "missing 'apiVersion'").message)) ∧
    resources emptyInFront ≠ .error (.output (.notAResource 1 "missing 'apiVersion'")
      (some (InputError.notAResource 1 "missing 'apiVersion'").message)) := by
  have line : firstLine emptyInFront = dashes ++ ([] ++ []) := by
    decide +kernel
  have opens : Opens (firstLine emptyInFront) [] := by
    rw [line]
    exact .bare [] [] (by simp) (Or.inl rfl)
  have misnamed : resources emptyInFront = .error (.output (.notAResource 1 "missing 'apiVersion'")
      (some (InputError.notAResource 0 "missing 'apiVersion'").message)) :=
    Outcome.error?_eq_some_iff.mp (by decide +kernel)
  refine ⟨opens, Outcome.error?_eq_some_iff.mp (by decide +kernel), misnamed, ?_⟩
  rw [misnamed]
  intro same
  simp only [Except.error.injEq, InflationError.output.injEq, Option.some.injEq, true_and] at same
  exact absurd (index_eq_of_message same) (by decide)

end ChartInflation.Output
