import ChartInflation.CommandLine.FileName
import ChartInflation.Proofs.Path.Components
import Mathlib.Data.Nat.Digits.Defs

/-!
# The names of output files

Whatever the kind and the name of a resource are, the name of its file is one step of a path, written
with few characters (`isFileCharacter_of_fileName`, `components_fileName`), and tells the number of
the resource (`fileName_inj`): the digits in front of the first dash.
-/

set_option autoImplicit false

namespace ChartInflation.CommandLine

def isFileCharacter (c : Char) : Bool :=
  ('a' ≤ c && c ≤ 'z') || ('0' ≤ c && c ≤ '9') || c == '.' || c == '-' || c == '_'

theorem isFileCharacter_iff (c : Char) : isFileCharacter c ↔
    ('a' ≤ c ∧ c ≤ 'z') ∨ ('0' ≤ c ∧ c ≤ '9') ∨ c = '.' ∨ c = '-' ∨ c = '_' := by
  simp [isFileCharacter, or_assoc]

theorem isFileCharacter_toLower {c : Char} (upper : 'A' ≤ c ∧ c ≤ 'Z') :
    isFileCharacter c.toLower := by
  obtain ⟨low, high⟩ := upper
  rw [Char.le_def, UInt32.le_iff_toNat_le] at low high
  have bounds : c.val ≥ 'A'.val ∧ c.val ≤ 'Z'.val := by
    simp only [ge_iff_le, UInt32.le_iff_toNat_le]
    exact ⟨low, high⟩
  have isLower : c.toLower.val = c.val + ('a'.val - 'A'.val) := by
    unfold Char.toLower
    rw [dif_pos bounds]
  refine (isFileCharacter_iff _).mpr (.inl ?_)
  simp only [Char.le_def, UInt32.le_iff_toNat_le, isLower, UInt32.toNat_add]
  have a : 'A'.val.toNat = 65 := rfl
  have z : 'Z'.val.toNat = 90 := rfl
  have gap : ('a'.val - 'A'.val).toNat = 32 := rfl
  have a' : 'a'.val.toNat = 97 := rfl
  have z' : 'z'.val.toNat = 122 := rfl
  omega

theorem isFileCharacter_of_fileCharacters {c d : Char} (member : d ∈ fileCharacters c) :
    isFileCharacter d := by
  unfold fileCharacters at member
  split at member
  next => exact List.mem_singleton.mp member ▸ by decide
  next =>
    split at member
    next =>
      simp only [List.mem_cons, List.not_mem_nil, or_false] at member
      rcases member with rfl | rfl <;> decide
    next =>
      split at member
      next kept => exact List.mem_singleton.mp member ▸ (isFileCharacter_iff c).mpr kept
      next =>
        split at member
        next upper => exact List.mem_singleton.mp member ▸ isFileCharacter_toLower upper
        next => exact List.mem_singleton.mp member ▸ by decide

theorem isFileCharacter_of_filePart {s : String} {c : Char} (member : c ∈ (filePart s).toList) :
    isFileCharacter c := by
  rw [filePart, String.toList_ofList] at member
  obtain ⟨_, _, isPart⟩ := List.mem_flatMap.mp member
  exact isFileCharacter_of_fileCharacters isPart

theorem isDigit_of_paddedNumber {n : Nat} {c : Char} (member : c ∈ (paddedNumber n).toList) :
    c.isDigit := by
  rw [paddedNumber, String.toList_ofList, List.mem_append] at member
  rcases member with zero | digit
  · rw [List.eq_of_mem_replicate zero]
    decide
  · exact Nat.isDigit_of_mem_toDigits (by decide) (by decide) digit

theorem paddedNumber_inj {i j : Nat} (same : paddedNumber i = paddedNumber j) : i = j := by
  have value (n : Nat) : Nat.ofDigitChars 10 (paddedNumber n).toList 0 = n := by
    rw [paddedNumber, String.toList_ofList, Nat.ofDigitChars_append,
      Nat.ofDigitChars_replicate_zero, Nat.mul_zero, Nat.ofDigitChars_ten_toDigits]
  calc
    i = Nat.ofDigitChars 10 (paddedNumber i).toList 0 := (value i).symm
    _ = Nat.ofDigitChars 10 (paddedNumber j).toList 0 := by rw [same]
    _ = j := value j

section FileName
variable {i j : Nat} {r s : Resource}

theorem fileName_text (i : Nat) (r : Resource) : ∃ rest,
    (fileName i r).toList = (paddedNumber i).toList ++ '-' :: rest ∧
      ∀ c ∈ rest, isFileCharacter c := by
  refine ⟨(filePart (r.kind.getD "resource")).toList ++ '-' ::
    ((filePart (r.name.getD "unnamed")).toList ++ ".yaml".toList), ?_, ?_⟩
  · simp [fileName]
  · intro c member
    simp only [List.mem_append, List.mem_cons] at member
    rcases member with kind | rfl | name | ending
    · exact isFileCharacter_of_filePart kind
    · decide
    · exact isFileCharacter_of_filePart name
    · have all : ".yaml".toList.all isFileCharacter := by decide
      exact List.all_eq_true.mp all c ending

theorem isFileCharacter_of_fileName {c : Char} (member : c ∈ (fileName i r).toList) :
    isFileCharacter c := by
  obtain ⟨rest, text, allowed⟩ := fileName_text i r
  rw [text, List.mem_append, List.mem_cons] at member
  rcases member with digit | rfl | more
  · have isDigit := isDigit_of_paddedNumber digit
    simp only [Char.isDigit, Bool.and_eq_true, decide_eq_true_eq, ge_iff_le] at isDigit
    exact (isFileCharacter_iff c).mpr (.inr (.inl isDigit))
  · decide
  · exact allowed c more

/-- A file name tells the number of its resource. -/
theorem fileName_inj (same : fileName i r = fileName j s) : i = j := by
  obtain ⟨rest, text, _⟩ := fileName_text i r
  obtain ⟨rest', text', _⟩ := fileName_text j s
  have digits (n : Nat) (more : List Char) :
      ((paddedNumber n).toList ++ '-' :: more).takeWhile Char.isDigit =
        (paddedNumber n).toList := by
    rw [List.takeWhile_append_of_pos fun c => isDigit_of_paddedNumber,
      List.takeWhile_cons_of_neg (by decide), List.append_nil]
  have numbers : (paddedNumber i).toList = (paddedNumber j).toList := by
    rw [← digits i rest, ← text, same, text', digits]
  exact paddedNumber_inj (String.toList_inj.mp numbers)

variable (i r)

theorem fileName_inhabited : (fileName i r).toList ≠ [] := by
  obtain ⟨rest, text, _⟩ := fileName_text i r
  simp [text]

theorem fileName_noSlash : '/' ∉ (fileName i r).toList := fun slash => by
  have allowed := isFileCharacter_of_fileName slash
  revert allowed
  decide

theorem fileName_continues : Path.Continues ⟨fileName i r⟩ :=
  Path.continues_of_not_mem (fileName_inhabited i r) (fileName_noSlash i r)

theorem names_fileName : Path.names ⟨fileName i r⟩ = [fileName i r] :=
  Path.names_of_not_mem (fileName_inhabited i r) (fileName_noSlash i r)

theorem fileName_ne : fileName i r ≠ "." ∧ fileName i r ≠ ".." := by
  have long : (fileName i r).toList.length > 2 := by
    have ending : ".yaml".toList.length = 5 := rfl
    simp only [fileName, String.toList_append, List.length_append, ending]
    omega
  constructor <;> intro same <;> rw [same] at long <;> revert long <;> decide

/-- A file stays directly in the directory that it is written to. -/
theorem components_joinName (directory : Path) :
    (directory.joinName (fileName i r)).components =
      directory.components ++ [.name (fileName i r)] := by
  obtain ⟨notHere, notUp⟩ := fileName_ne i r
  have inhabited : fileName i r ≠ "" := by
    intro empty
    exact fileName_inhabited i r (empty ▸ rfl)
  rw [Path.components_joinName (fileName_noSlash i r) notHere notUp, if_neg inhabited]

theorem components_fileName : Path.components ⟨fileName i r⟩ = [.name (fileName i r)] := by
  have alone : Path.joinName ⟨""⟩ (fileName i r) = ⟨fileName i r⟩ := by
    simp [Path.joinName, Path.join, Path.isEmpty, (fileName_continues i r).relative]
  rw [← alone, components_joinName]
  rfl

end FileName

end ChartInflation.CommandLine
