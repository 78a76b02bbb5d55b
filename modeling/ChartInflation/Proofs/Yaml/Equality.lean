import ChartInflation.Yaml.Value
import Mathlib.Data.List.Forall2

/-!
# Equality of valid trees

A tree is valid if in each of its mappings, those inside keys included, the keys are pairwise
different; all trees that are read from documents are.  Equality looks one mapping's keys up in the
other one, so on arbitrary lists of entries it is no equivalence.  On valid trees it is:
`same_refl`, `same_symm`, `same_trans`.
-/

set_option autoImplicit false

namespace ChartInflation

theorem Binary64.same_iff (x y : Binary64) :
    x.same y ↔ (x.isNan ∧ y.isNan) ∨ (¬ x.isNan ∧ ¬ y.isNan ∧ (x = y ∨ (x.isZero ∧ y.isZero))) := by
  have sameBits : x.bits = y.bits ↔ x = y := by
    cases x
    cases y
    simp
  by_cases left : x.isNan <;> by_cases right : y.isNan <;>
    simp [Binary64.same, left, right, sameBits]

theorem Binary64.same_refl (x : Binary64) : x.same x := by
  by_cases nan : x.isNan <;> simp [Binary64.same_iff, nan]

theorem Binary64.same_symm {x y : Binary64} (equal : x.same y) : y.same x := by
  rw [Binary64.same_iff] at equal ⊢
  grind

theorem Binary64.same_trans {x y z : Binary64} (first : x.same y) (second : y.same z) :
    x.same z := by
  rw [Binary64.same_iff] at first second ⊢
  grind

theorem Number.same_refl (n : Number) : n.same n := by
  cases n with
  | int i => simp [Number.same]
  | float x => exact x.same_refl

theorem Number.same_symm {m n : Number} (equal : m.same n) : n.same m := by
  cases m <;> cases n <;> simp only [Number.same, beq_iff_eq, Bool.false_eq_true] at equal ⊢
  · exact equal.symm
  · exact Binary64.same_symm equal

theorem Number.same_trans {l m n : Number} (first : l.same m) (second : m.same n) :
    l.same n := by
  cases l <;> cases m <;> cases n <;>
    simp only [Number.same, beq_iff_eq, Bool.false_eq_true] at first second ⊢
  · exact first.trans second
  · exact Binary64.same_trans first second

/-- If each item on the left has a partner on the right and no two share one, then with equally many
items each one on the right is a partner. -/
theorem partner_of_length_eq {α β : Type} (partner : α → β → Prop) (xs : List α) :
    ∀ ys : List β, xs.length = ys.length →
      (xs.Pairwise fun x x' => ∀ y ∈ ys, partner x y → ¬ partner x' y) →
      (∀ x ∈ xs, ∃ y ∈ ys, partner x y) → ∀ y ∈ ys, ∃ x ∈ xs, partner x y := by
  induction xs with
  | nil =>
      intro ys sameLength _ _ y member
      rw [List.length_nil, eq_comm, List.length_eq_zero_iff] at sameLength
      simp [sameLength] at member
  | cons x xs ih =>
      intro ys sameLength apart found y member
      obtain ⟨mine, mineMember, isMine⟩ := found x (List.mem_cons_self ..)
      obtain ⟨front, back, rfl⟩ := List.append_of_mem mineMember
      obtain ⟨headApart, tailApart⟩ := List.pairwise_cons.mp apart
      have inOthers : ∀ z, z ∈ front ++ mine :: back → z ≠ mine → z ∈ front ++ back := by
        intro z zMember different
        simpa [different] using zMember
      have widen : ∀ z, z ∈ front ++ back → z ∈ front ++ mine :: back := by
        intro z zMember
        rcases List.mem_append.mp zMember with h | h
        · exact List.mem_append_left _ h
        · exact List.mem_append_right _ (List.mem_cons_of_mem _ h)
      by_cases isIt : y = mine
      · exact ⟨x, List.mem_cons_self .., isIt ▸ isMine⟩
      · have others := ih (front ++ back) ?_ ?_ ?_ y (inOthers y member isIt)
        · obtain ⟨x', x'Member, isPartner⟩ := others
          exact ⟨x', List.mem_cons_of_mem _ x'Member, isPartner⟩
        · simp only [List.length_cons, List.length_append] at sameLength ⊢
          omega
        · exact tailApart.imp fun h z zMember => h z (widen z zMember)
        · intro x' x'Member
          obtain ⟨z, zMember, isPartner⟩ := found x' (List.mem_cons_of_mem _ x'Member)
          have different : z ≠ mine := by
            rintro rfl
            exact headApart x' x'Member z zMember isMine isPartner
          exact ⟨z, inOthers z zMember different, isPartner⟩

namespace Yaml.Value

/-- The keys of each mapping in a tree are pairwise different. -/
inductive Valid : Value → Prop where
  | null : Valid .null
  | bool (b : Bool) : Valid (.bool b)
  | number (n : Number) : Valid (.number n)
  | string (s : String) : Valid (.string s)
  | sequence {items : List Value} (valid : ∀ v ∈ items, Valid v) : Valid (.sequence items)
  | mapping {entries : Mapping}
      (distinct : entries.Pairwise fun e f => e.1.same f.1 = false)
      (keys : ∀ e ∈ entries, Valid e.1) (values : ∀ e ∈ entries, Valid e.2) :
      Valid (.mapping entries)
  | tagged (tag : Tag) {v : Value} (valid : Valid v) : Valid (.tagged tag v)

attribute [simp] Valid.null Valid.bool Valid.number Valid.string

namespace Valid

theorem item {items : List Value} (valid : (Value.sequence items).Valid) {v : Value}
    (member : v ∈ items) : v.Valid := by
  cases valid with
  | sequence items => exact items v member

theorem distinct {entries : Mapping} (valid : (Value.mapping entries).Valid) :
    entries.Pairwise fun e f => e.1.same f.1 = false := by
  cases valid with
  | mapping distinct _ _ => exact distinct

theorem key {entries : Mapping} (valid : (Value.mapping entries).Valid) {e : Value × Value}
    (member : e ∈ entries) : e.1.Valid := by
  cases valid with
  | mapping _ keys _ => exact keys e member

theorem value {entries : Mapping} (valid : (Value.mapping entries).Valid) {e : Value × Value}
    (member : e ∈ entries) : e.2.Valid := by
  cases valid with
  | mapping _ _ values => exact values e member

theorem tail {e : Value × Value} {entries : Mapping}
    (valid : (Value.mapping (e :: entries)).Valid) : (Value.mapping entries).Valid :=
  .mapping (List.pairwise_cons.mp valid.distinct).2
    (fun _ member => valid.key (List.mem_cons_of_mem _ member))
    (fun _ member => valid.value (List.mem_cons_of_mem _ member))

theorem inner {tag : Tag} {v : Value} (valid : (Value.tagged tag v).Valid) : v.Valid := by
  cases valid with
  | tagged _ inner => exact inner

end Valid

@[simp] theorem valid_sequence_iff (items : List Value) :
    (Value.sequence items).Valid ↔ ∀ v ∈ items, v.Valid :=
  ⟨fun valid _ member => valid.item member, .sequence⟩

@[simp] theorem valid_mapping_iff (entries : Mapping) :
    (Value.mapping entries).Valid ↔ (entries.Pairwise fun e f => e.1.same f.1 = false) ∧
      (∀ e ∈ entries, e.1.Valid) ∧ ∀ e ∈ entries, e.2.Valid :=
  ⟨fun valid => ⟨valid.distinct, fun _ => valid.key, fun _ => valid.value⟩,
    fun ⟨distinct, keys, values⟩ => .mapping distinct keys values⟩

@[simp] theorem valid_tagged_iff (tag : Tag) (v : Value) : (Value.tagged tag v).Valid ↔ v.Valid :=
  ⟨Valid.inner, .tagged tag⟩

/-! ## What a tree is equal to -/

attribute [local simp] Value.same Value.sameItems Value.eachIn

theorem same_null_iff (v : Value) : Value.null.same v ↔ v = .null := by
  cases v <;> simp

theorem same_bool_iff (b : Bool) (v : Value) : (Value.bool b).same v ↔ v = .bool b := by
  cases v <;> simp [@eq_comm _ b]

theorem same_number_iff (n : Number) (v : Value) :
    (Value.number n).same v ↔ ∃ m, v = .number m ∧ n.same m := by
  cases v <;> simp

theorem same_string_iff (s : String) (v : Value) : (Value.string s).same v ↔ v = .string s := by
  cases v <;> simp [@eq_comm _ s]

theorem same_tagged_iff (tag : Tag) (u v : Value) :
    (Value.tagged tag u).same v ↔ ∃ w, v = .tagged tag w ∧ u.same w := by
  cases v <;> simp [@eq_comm _ tag]

theorem sameItems_iff (xs ys : List Value) :
    Value.sameItems xs ys ↔ List.Forall₂ (fun x y => x.same y) xs ys := by
  induction xs generalizing ys with
  | nil => cases ys <;> simp
  | cons x xs ih => cases ys <;> simp [ih]

theorem same_sequences_iff (xs ys : List Value) :
    (Value.sequence xs).same (.sequence ys) ↔ xs.length = ys.length ∧
      ∀ i (left : i < xs.length) (right : i < ys.length), xs[i].same ys[i] := by
  simp [sameItems_iff, List.forall₂_iff_get]

theorem sequence_of_same {xs : List Value} {v : Value} (equal : (Value.sequence xs).same v) :
    ∃ ys, v = .sequence ys := by
  cases v <;> simp at equal ⊢

theorem eachIn_iff (es fs : Mapping) :
    Value.eachIn es fs ↔
      ∀ e ∈ es, ∃ f, fs.find? (fun f => e.1.same f.1) = some f ∧ e.2.same f.2 := by
  induction es with
  | nil => simp
  | cons e es ih =>
      obtain ⟨k, v⟩ := e
      cases found : fs.find? (fun f => k.same f.1) <;>
        simp only [Value.eachIn, ih, found, Bool.and_eq_true, List.forall_mem_cons,
          Option.some.injEq, exists_eq_left', reduceCtorEq, false_and, exists_false]

theorem same_mappings_iff (es fs : Mapping) :
    (Value.mapping es).same (.mapping fs) ↔ es.length = fs.length ∧
      ∀ e ∈ es, ∃ f, fs.find? (fun f => e.1.same f.1) = some f ∧ e.2.same f.2 := by
  simp [eachIn_iff]

theorem mapping_of_same {es : Mapping} {v : Value} (equal : (Value.mapping es).same v) :
    ∃ fs, v = .mapping fs := by
  cases v <;> simp at equal ⊢

/-! ## Equality of mappings as a matching of entries -/

theorem eq_of_same_keys {es : Mapping} (distinct : es.Pairwise fun e f => e.1.same f.1 = false)
    {e f : Value × Value} (first : e ∈ es) (second : f ∈ es) (forth : e.1.same f.1)
    (back : f.1.same e.1) : e = f := by
  have forward : es.Pairwise fun e f => e.1.same f.1 → f.1.same e.1 → e = f :=
    distinct.imp fun apart same _ => by simp [apart] at same
  have backward : es.Pairwise (flip fun e f => e.1.same f.1 → f.1.same e.1 → e = f) :=
    distinct.imp fun apart _ same => by simp [apart] at same
  exact List.Pairwise.forall_of_forall_of_flip (fun _ _ _ _ => rfl) forward backward
    first second forth back

theorem matched_of_same {es fs : Mapping} (equal : (Value.mapping es).same (.mapping fs)) :
    ∀ e ∈ es, ∃ f ∈ fs, e.1.same f.1 ∧ e.2.same f.2 := by
  obtain ⟨_, found⟩ := (same_mappings_iff es fs).mp equal
  intro e member
  obtain ⟨f, isFirst, values⟩ := found e member
  exact ⟨f, List.mem_of_find?_eq_some isFirst, by simpa using List.find?_some isFirst, values⟩

/-- Where a key has one equal key only, the first entry that is found is the right one. -/
theorem same_of_matched {es fs : Mapping} (sameLength : es.length = fs.length)
    (matched : ∀ e ∈ es, ∃ f ∈ fs, (e.1.same f.1 ∧ e.2.same f.2) ∧
      ∀ f' ∈ fs, e.1.same f'.1 → f' = f) :
    (Value.mapping es).same (.mapping fs) := by
  refine (same_mappings_iff es fs).mpr ⟨sameLength, ?_⟩
  intro e member
  obtain ⟨f, fMember, ⟨keys, values⟩, only⟩ := matched e member
  cases found : fs.find? (fun f => e.1.same f.1) with
  | none => exact absurd keys (List.find?_eq_none.mp found f fMember)
  | some f' =>
      have isF : f' = f :=
        only f' (List.mem_of_find?_eq_some found) (by simpa using List.find?_some found)
      exact ⟨f', rfl, isF ▸ values⟩

/-! ## The laws of equality at one tree -/

/-- Equality with one tree goes back, on to a third tree, and between any two equal to it. -/
structure Lawful (u : Value) : Prop where
  symm : ∀ v, v.Valid → u.same v → v.same u
  trans : ∀ v w, v.Valid → w.Valid → u.same v → v.same w → u.same w
  between : ∀ v w, v.Valid → w.Valid → u.same v → u.same w → v.same w

theorem lawful_sequence {xs : List Value} (items : ∀ x ∈ xs, Lawful x) :
    Lawful (.sequence xs) := by
  have law : ∀ i (h : i < xs.length), Lawful xs[i] := fun i h => items _ (List.getElem_mem h)
  have valid : ∀ {ys : List Value}, (Value.sequence ys).Valid →
      ∀ i (h : i < ys.length), ys[i].Valid :=
    fun sequenceValid i h => sequenceValid.item (List.getElem_mem h)
  refine ⟨?_, ?_, ?_⟩
  · intro v vValid first
    obtain ⟨ys, rfl⟩ := sequence_of_same first
    obtain ⟨length, same⟩ := (same_sequences_iff xs ys).mp first
    refine (same_sequences_iff ys xs).mpr ⟨length.symm, fun i right left => ?_⟩
    exact (law i left).symm _ (valid vValid i right) (same i left right)
  · intro v w vValid wValid first second
    obtain ⟨ys, rfl⟩ := sequence_of_same first
    obtain ⟨zs, rfl⟩ := sequence_of_same second
    obtain ⟨length, same⟩ := (same_sequences_iff xs ys).mp first
    obtain ⟨length', same'⟩ := (same_sequences_iff ys zs).mp second
    refine (same_sequences_iff xs zs).mpr ⟨length.trans length', fun i left right => ?_⟩
    have middle : i < ys.length := length ▸ left
    exact (law i left).trans _ _ (valid vValid i middle) (valid wValid i right)
      (same i left middle) (same' i middle right)
  · intro v w vValid wValid first second
    obtain ⟨ys, rfl⟩ := sequence_of_same first
    obtain ⟨zs, rfl⟩ := sequence_of_same second
    obtain ⟨length, same⟩ := (same_sequences_iff xs ys).mp first
    obtain ⟨length', same'⟩ := (same_sequences_iff xs zs).mp second
    refine (same_sequences_iff ys zs).mpr ⟨length.symm.trans length', fun i left right => ?_⟩
    have inFirst : i < xs.length := length ▸ left
    exact (law i inFirst).between _ _ (valid vValid i left) (valid wValid i right)
      (same i inFirst left) (same' i inFirst right)

section Mapping
variable {es fs : Mapping} (keys : ∀ e ∈ es, Lawful e.1)
include keys

theorem only_match (valid : (Value.mapping fs).Valid) {e f f' : Value × Value} (member : e ∈ es)
    (fMember : f ∈ fs) (f'Member : f' ∈ fs) (first : e.1.same f.1) (second : e.1.same f'.1) :
    f' = f := by
  have between := (keys e member).between
  exact eq_of_same_keys valid.distinct f'Member fMember
    (between f'.1 f.1 (valid.key f'Member) (valid.key fMember) second first)
    (between f.1 f'.1 (valid.key fMember) (valid.key f'Member) first second)

theorem matched_back (esValid : (Value.mapping es).Valid) (fsValid : (Value.mapping fs).Valid)
    (equal : (Value.mapping es).same (.mapping fs)) :
    ∀ f ∈ fs, ∃ e ∈ es, e.1.same f.1 ∧ e.2.same f.2 := by
  obtain ⟨sameLength, _⟩ := (same_mappings_iff es fs).mp equal
  refine partner_of_length_eq (fun e f => e.1.same f.1 ∧ e.2.same f.2) es fs sameLength ?_
    (matched_of_same equal)
  refine esValid.distinct.imp_of_mem ?_
  intro e e' eMember e'Member different f fMember first second
  have fKey := fsValid.key fMember
  have around := (keys e eMember).trans f.1 e'.1 fKey (esValid.key e'Member) first.1
    ((keys e' e'Member).symm f.1 fKey second.1)
  simp [different] at around

theorem lawful_mapping (values : ∀ e ∈ es, Lawful e.2) (valid : (Value.mapping es).Valid) :
    Lawful (.mapping es) := by
  refine ⟨?_, ?_, ?_⟩
  · intro v vValid first
    obtain ⟨fs, rfl⟩ := mapping_of_same first
    have length := ((same_mappings_iff es fs).mp first).1
    refine same_of_matched length.symm fun f fMember => ?_
    obtain ⟨e, member, keySame, valueSame⟩ := matched_back keys valid vValid first f fMember
    have fKey := vValid.key fMember
    refine ⟨e, member, ⟨(keys e member).symm _ fKey keySame,
      (values e member).symm _ (vValid.value fMember) valueSame⟩, ?_⟩
    intro e' e'Member again
    have forth := (keys e member).trans _ _ fKey (valid.key e'Member) keySame again
    exact eq_of_same_keys valid.distinct e'Member member
      ((keys e member).symm _ (valid.key e'Member) forth) forth
  · intro v w vValid wValid first second
    obtain ⟨fs, rfl⟩ := mapping_of_same first
    obtain ⟨gs, rfl⟩ := mapping_of_same second
    have length := ((same_mappings_iff es fs).mp first).1
    have length' := ((same_mappings_iff fs gs).mp second).1
    refine same_of_matched (length.trans length') fun e member => ?_
    obtain ⟨f, fMember, keySame, valueSame⟩ := matched_of_same first e member
    obtain ⟨g, gMember, keySame', valueSame'⟩ := matched_of_same second f fMember
    have onward := (keys e member).trans _ _ (vValid.key fMember) (wValid.key gMember)
      keySame keySame'
    exact ⟨g, gMember, ⟨onward, (values e member).trans _ _ (vValid.value fMember)
        (wValid.value gMember) valueSame valueSame'⟩,
      fun g' g'Member again => only_match keys wValid member gMember g'Member onward again⟩
  · intro v w vValid wValid first second
    obtain ⟨fs, rfl⟩ := mapping_of_same first
    obtain ⟨gs, rfl⟩ := mapping_of_same second
    have length := ((same_mappings_iff es fs).mp first).1
    have length' := ((same_mappings_iff es gs).mp second).1
    refine same_of_matched (length.symm.trans length') fun f fMember => ?_
    obtain ⟨e, member, keySame, valueSame⟩ := matched_back keys valid vValid first f fMember
    obtain ⟨g, gMember, keySame', valueSame'⟩ := matched_of_same second e member
    have fKey := vValid.key fMember
    refine ⟨g, gMember, ⟨(keys e member).between _ _ fKey (wValid.key gMember) keySame keySame',
      (values e member).between _ _ (vValid.value fMember) (wValid.value gMember)
        valueSame valueSame'⟩, ?_⟩
    intro g' g'Member again
    have onward := (keys e member).trans _ _ fKey (wValid.key g'Member) keySame again
    exact only_match keys wValid member gMember g'Member keySame' onward

end Mapping

theorem lawful_of_eq {u : Value} (only : ∀ v, u.same v ↔ v = u) : Lawful u := by
  refine ⟨?_, ?_, ?_⟩
  · intro v _ first
    rw [(only v).mp first]
    exact (only u).mpr rfl
  · intro v w _ _ first second
    rw [(only v).mp first] at second
    exact second
  · intro v w _ _ first second
    rw [(only v).mp first, (only w).mp second]
    exact (only u).mpr rfl

theorem lawful_number (n : Number) : Lawful (.number n) := by
  refine ⟨?_, ?_, ?_⟩
  · intro v _ first
    obtain ⟨m, rfl, same⟩ := (same_number_iff n v).mp first
    exact (same_number_iff m _).mpr ⟨n, rfl, Number.same_symm same⟩
  · intro v w _ _ first second
    obtain ⟨m, rfl, same⟩ := (same_number_iff n v).mp first
    obtain ⟨l, rfl, same'⟩ := (same_number_iff m w).mp second
    exact (same_number_iff n _).mpr ⟨l, rfl, Number.same_trans same same'⟩
  · intro v w _ _ first second
    obtain ⟨m, rfl, same⟩ := (same_number_iff n v).mp first
    obtain ⟨l, rfl, same'⟩ := (same_number_iff n w).mp second
    exact (same_number_iff m _).mpr ⟨l, rfl, Number.same_trans (Number.same_symm same) same'⟩

theorem lawful_tagged (tag : Tag) {u : Value} (law : Lawful u) : Lawful (.tagged tag u) := by
  refine ⟨?_, ?_, ?_⟩
  · intro v vValid first
    obtain ⟨v, rfl, same⟩ := (same_tagged_iff tag u v).mp first
    exact (same_tagged_iff tag v _).mpr ⟨u, rfl, law.symm v vValid.inner same⟩
  · intro v w vValid wValid first second
    obtain ⟨v, rfl, same⟩ := (same_tagged_iff tag u v).mp first
    obtain ⟨w, rfl, same'⟩ := (same_tagged_iff tag v w).mp second
    exact (same_tagged_iff tag u _).mpr
      ⟨w, rfl, law.trans v w vValid.inner wValid.inner same same'⟩
  · intro v w vValid wValid first second
    obtain ⟨v, rfl, same⟩ := (same_tagged_iff tag u v).mp first
    obtain ⟨w, rfl, same'⟩ := (same_tagged_iff tag u w).mp second
    exact (same_tagged_iff tag v _).mpr
      ⟨w, rfl, law.between v w vValid.inner wValid.inner same same'⟩

/-- The three laws are proved together: looking up the keys of one mapping in another needs all of
them for the keys. -/
theorem lawful_of_valid {u : Value} (valid : u.Valid) : Lawful u := by
  induction valid with
  | null => exact lawful_of_eq same_null_iff
  | bool b => exact lawful_of_eq (same_bool_iff b)
  | number n => exact lawful_number n
  | string s => exact lawful_of_eq (same_string_iff s)
  | sequence _ items => exact lawful_sequence items
  | mapping distinct keysValid valuesValid keys values =>
      exact lawful_mapping keys values (.mapping distinct keysValid valuesValid)
  | tagged tag _ law => exact lawful_tagged tag law

/-! ## Equality is an equivalence -/

theorem same_symm {u v : Value} (uValid : u.Valid) (vValid : v.Valid) (equal : u.same v) :
    v.same u :=
  (lawful_of_valid uValid).symm v vValid equal

theorem same_trans {u v w : Value} (uValid : u.Valid) (vValid : v.Valid) (wValid : w.Valid)
    (first : u.same v) (second : v.same w) : u.same w :=
  (lawful_of_valid uValid).trans v w vValid wValid first second

theorem same_refl {u : Value} (valid : u.Valid) : u.same u := by
  induction valid with
  | null => exact (same_null_iff _).mpr rfl
  | bool b => exact (same_bool_iff b _).mpr rfl
  | number n => exact (same_number_iff n _).mpr ⟨n, rfl, n.same_refl⟩
  | string s => exact (same_string_iff s _).mpr rfl
  | sequence _ items =>
      exact (same_sequences_iff _ _).mpr ⟨rfl, fun i left _ => items _ (List.getElem_mem left)⟩
  | mapping distinct keysValid _ keys values =>
      refine same_of_matched rfl fun e member => ?_
      refine ⟨e, member, ⟨keys e member, values e member⟩, fun e' e'Member forth => ?_⟩
      exact eq_of_same_keys distinct e'Member member
        (same_symm (keysValid e member) (keysValid e' e'Member) forth) forth
  | tagged tag _ inner => exact (same_tagged_iff tag _ _).mpr ⟨_, rfl, inner⟩

end Yaml.Value

end ChartInflation
