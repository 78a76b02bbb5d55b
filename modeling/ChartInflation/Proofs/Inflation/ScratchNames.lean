import ChartInflation.Proofs.FileSystem.Extending
import ChartInflation.Proofs.Inflation.Confinement
import Mathlib.Algebra.Group.Nat.Defs
import Mathlib.Data.List.Nodup

/-!
# The names of scratch directories

Names are drawn one after the other, and as many differ as six letters can tell apart
(`fresh_of_le`).  Asking for a directory draws names up to the first one that nothing has; those
before it stood already (`asked_cases`).  Once it is released, nothing stands under its name
(`not_stands_of_release`).
-/

set_option autoImplicit false

namespace ChartInflation.Scratch

variable {m : Machine} {s s' : Scratch} {w w' : World} {result : Except FileError Path}

/-! ## Fresh names -/

theorem letter_inj {a b : Nat} (left : a < alphabet.length) (right : b < alphabet.length)
    (same : alphabet.getD a 'a' = alphabet.getD b 'a') : a = b := by
  have different : alphabet.Nodup := by decide
  rw [List.getD_eq_getElem?_getD, List.getElem?_eq_getElem left, List.getD_eq_getElem?_getD,
    List.getElem?_eq_getElem right] at same
  exact (List.Nodup.getElem_inj_iff different).mp same

theorem mod_eq_of_letters {count a b : Nat} (same : letters count a = letters count b) :
    a % alphabet.length ^ count = b % alphabet.length ^ count := by
  induction count generalizing a b with
  | zero => simp [Nat.mod_one]
  | succ count ih =>
      have inRange : ∀ n, n % alphabet.length < alphabet.length :=
        fun n => Nat.mod_lt n (by decide)
      rw [letters, letters] at same
      obtain ⟨front, last⟩ := List.append_inj' same rfl
      have lowest := letter_inj (inRange a) (inRange b) (List.singleton_inj.mp last)
      rw [Nat.pow_succ', Nat.mod_mul, Nat.mod_mul, lowest, ih front]

/-- Whether the names with the numbers from a first one up to a last one all differ. -/
def Fresh (first last : Nat) : Prop :=
  ∀ a b, first ≤ a → a < b → b < last → nameOf a ≠ nameOf b

theorem Fresh.upTo {first last earlier : Nat} (fresh : Fresh first last)
    (isEarlier : earlier ≤ last) : Fresh first earlier :=
  fun a b notBefore less inside => fresh a b notBefore less (Nat.lt_of_lt_of_le inside isEarlier)

theorem Fresh.ne {first last a b : Nat} (fresh : Fresh first last) (other : a ≠ b)
    (isDrawn : first ≤ a ∧ a < last) (isDrawn' : first ≤ b ∧ b < last) : nameOf a ≠ nameOf b := by
  rcases Nat.lt_or_gt_of_ne other with less | greater
  · exact fresh a b isDrawn.1 less isDrawn'.2
  · exact (fresh b a isDrawn'.1 greater isDrawn.2).symm

theorem fresh_of_le {first last : Nat} (few : last ≤ first + alphabet.length ^ 6) :
    Fresh first last := by
  intro a b notBefore less inside same
  have text := congrArg String.toList same
  simp only [nameOf, String.toList_append, String.toList_ofList, List.append_cancel_left_eq] at text
  have remainder : (b - a) % alphabet.length ^ 6 = 0 :=
    Nat.sub_mod_eq_zero_of_mod_eq (mod_eq_of_letters text).symm
  have atLeast := Nat.le_of_dvd (by omega) (Nat.dvd_of_mod_eq_zero remainder)
  omega

theorem nameOf_eq_of_pathOf {a b : Nat} (same : pathOf m a = pathOf m b) : nameOf a = nameOf b := by
  have text := congrArg (fun p => p.text.toList) same
  simp only [pathOf, Path.joinName, Path.join, (nameOf_continues a).relative,
    (nameOf_continues b).relative, Bool.false_eq_true, if_false] at text
  split at text
  · simpa [String.toList_inj] using text
  · simpa [String.toList_inj] using text

/-! ## The texts of names -/

theorem length_letters (count n : Nat) : (letters count n).length = count := by
  induction count generalizing n with
  | zero => rfl
  | succ count ih => rw [letters, List.length_append, ih, List.length_singleton]

theorem length_encode_nameOf (n : Nat) : (Utf8.encode (nameOf n).toList).length = 19 := by
  have all : ("helmgen-helm-".toList ++ alphabet).all
      (fun c => (String.utf8EncodeChar c).length = 1) := by
    decide
  have one : ∀ c ∈ "helmgen-helm-".toList ++ alphabet, (String.utf8EncodeChar c).length = 1 := by
    simpa only [List.all_eq_true, decide_eq_true_iff] using all
  have plain : ∀ c ∈ (nameOf n).toList, (String.utf8EncodeChar c).length = 1 := by
    intro c member
    rw [toList_nameOf, List.mem_append] at member
    exact one c (List.mem_append.mpr (member.imp_right (letters_among 6 n c)))
  rw [Utf8.encode, List.length_flatMap, List.map_congr_left plain, toList_nameOf]
  simp [length_letters]

theorem nameOf_ne_of_short (n : Nat) {name : String} (short : name.toList.length < 13) :
    nameOf n ≠ name := by
  rintro rfl
  have inFront : "helmgen-helm-".toList.length = 13 := by decide
  rw [toList_nameOf, List.length_append] at short
  omega

/-! ## What stands under a name -/

/-- Whether anything stands where a path leads, be it a link. -/
def Stands (m : Machine) (path : Path) (fs : FileSystem) : Prop :=
  ∃ l, fs.resolve false m.directory path = .ok (.found l)

theorem steps_pathOf (m : Machine) (n : Nat) :
    ∃ front, FileSystem.steps (pathOf m n) = front ++ [nameOf n] := by
  refine ⟨m.scratchHome.names, ?_⟩
  rw [pathOf, Path.joinName, Path.steps_join (nameOf_continues n),
    Path.names_of_not_mem (nameOf_continues n).inhabited (nameOf_noSlash n)]

/-- Names in front of the one that is taken stood already. -/
theorem stood_of_create {count : Nat} (made : create m count w = (result, w')) {n : Nat}
    (drawn : w.drawn ≤ n) (earlier : n + 1 < w'.drawn) : Stands m (pathOf m n) w.files := by
  induction count generalizing w with
  | zero =>
      obtain ⟨_, rfl⟩ : .error .exists = result ∧ w = w' := Prod.mk.inj made
      omega
  | succ count ih =>
      rw [create_succ] at made
      split at made
      next files tried =>
          obtain ⟨_, rfl⟩ := Prod.mk.inj made
          simp only at earlier
          omega
      next tried =>
          by_cases isFirst : n = w.drawn
          · exact isFirst ▸ FileSystem.found_of_exists tried
          · exact @ih { w with drawn := w.drawn + 1 } made (show w.drawn + 1 ≤ n by omega)
      next e _ tried =>
          obtain ⟨_, rfl⟩ := Prod.mk.inj made
          simp only at earlier
          omega

/-- Asking for the directory gives the one that is owned, fails, or makes one under the last of the
names that it draws. -/
theorem asked_cases (asked : s.path m w = (result, s', w')) :
    (∃ path, s.directory = some path ∧ result = .ok path ∧ s' = s ∧ w' = w) ∨
    s.directory = none ∧
      (((∃ e, result = .error e) ∧ s' = s ∧ w.drawn ≤ w'.drawn ∧ w'.files = w.files) ∨
        ∃ n, w.drawn ≤ n ∧ w'.drawn = n + 1 ∧ result = .ok (pathOf m n) ∧
          s' = ⟨some (pathOf m n)⟩ ∧
          w.files.makeDirectory m.directory (pathOf m n) = .ok w'.files ∧
          ∀ n', w.drawn ≤ n' → n' < n → Stands m (pathOf m n') w.files) := by
  rcases path_cases asked with
    owned | ⟨unowned, made, ⟨path, isOk, same⟩ | ⟨e, isError, same⟩⟩
  · exact Or.inl owned
  · obtain ⟨_, _, ⟨⟨_, isError⟩, _⟩ | ⟨n, notBefore, last, isPath, directory⟩⟩ :=
      create_cases tries made
    · cases isOk.symm.trans isError
    · obtain rfl := Except.ok.inj (isOk.symm.trans isPath)
      refine Or.inr ⟨unowned, Or.inr ⟨n, notBefore, last, isPath, same, directory, ?_⟩⟩
      exact fun n' drawn earlier => stood_of_create made drawn (by omega)
  · obtain ⟨_, drawn, ⟨_, files⟩ | ⟨_, _, _, isOk, _⟩⟩ := create_cases tries made
    · exact Or.inr ⟨unowned, Or.inl ⟨⟨e, isError⟩, same, drawn, files⟩⟩
    · cases isError.symm.trans isOk

theorem stands_of_makeDirectory {path : Path} {fs fs' : FileSystem}
    (made : fs.makeDirectory m.directory path = .ok fs') :
    ¬ Stands m path fs ∧ ∃ l, fs'.resolve false m.directory path = .ok (.found l) ∧
      fs'.isDirectoryAt l := by
  constructor
  · rintro ⟨l, stood⟩
    simp [FileSystem.makeDirectory, stood, bind, Except.bind, throw, throwThe,
      MonadExceptOf.throw] at made
  · obtain ⟨place, vacant, isPut, found⟩ := FileSystem.makeDirectory_eq_put made
    refine ⟨place, found, ?_⟩
    rw [FileSystem.isDirectoryAt_iff, isPut, FileSystem.entry?_put fs vacant.notRoot, if_pos rfl]

theorem not_stands_of_release {n : Nat} (owned : s.directory = some (pathOf m n))
    (released : s.release m w = (s', w')) : ¬ Stands m (pathOf m n) w'.files := by
  rintro ⟨l', still⟩
  obtain ⟨_, _, _, ⟨same, elsewhere⟩ | ⟨path, l, isOwned, found, removed⟩⟩ :=
    release_cases released
  · rw [same] at still
    exact elsewhere _ l' owned still
  · obtain rfl := Option.some.inj (isOwned.symm.trans owned)
    rw [removed] at still
    exact (FileSystem.removeTree_not_found (nameOf_ne_of_short n (by decide))
      (nameOf_ne_of_short n (by decide)) (steps_pathOf m n) found).2 l' still

end ChartInflation.Scratch
