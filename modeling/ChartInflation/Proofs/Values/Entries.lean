import ChartInflation.Proofs.Yaml.Lookup
import ChartInflation.Values

/-!
# Merging mappings

Entries are merged into a mapping one after the other, in its place or at its end.  Seen through
lookups the order plays no part: under each key the merge holds what either side alone has there,
and the merge of the two values where both have one (`get?_mergeEntries`).  The keys are those of
the first mapping in their order, then the other ones of the second in theirs
(`keys_mergeEntries`).
-/

set_option autoImplicit false

namespace ChartInflation.Values

open Yaml (Value Mapping)

/-! ## Roots and conflicts -/

theorem rootOf_valid {v : Value} (valid : v.Valid) : (rootOf v).Valid := by
  unfold rootOf
  split
  · exact .mapping .nil (by simp) (by simp)
  · exact valid

theorem merge_eq_choose {p : Precedence} {v w : Value}
    (noMappings : ∀ es fs, v = .mapping es → w ≠ .mapping fs)
    (noSequences : ∀ xs ys, v = .sequence xs → w ≠ .sequence ys) :
    merge p v w = p.choose v w := by
  rw [merge.eq_def]
  split
  · exact absurd rfl (noMappings _ _ rfl)
  · exact absurd rfl (noSequences _ _ rfl)
  · rfl

/-! ## One entry -/

section PutEntry
variable (key fresh : Value) (change : Value → Value)

theorem keys_putEntry (es : Mapping) :
    (putEntry key change fresh es).map Prod.fst =
      es.map Prod.fst ++ (if (Mapping.get? es key).isNone then [key] else []) := by
  induction es with
  | nil => simp [putEntry, Mapping.get?]
  | cons e es ih =>
      obtain ⟨k, v⟩ := e
      by_cases here : k.same key <;> simp [putEntry, Mapping.get?, here, ih]

theorem mem_putEntry {es : Mapping} {e : Value × Value}
    (member : e ∈ putEntry key change fresh es) :
    (∃ old, (e.1, old) ∈ es ∧ (e.2 = old ∨ e.2 = change old)) ∨ e = (key, fresh) := by
  induction es with
  | nil => simpa [putEntry] using member
  | cons head es ih =>
      obtain ⟨k, v⟩ := head
      have widen : (∃ old, (e.1, old) ∈ es ∧ (e.2 = old ∨ e.2 = change old)) →
          ∃ old, (e.1, old) ∈ (k, v) :: es ∧ (e.2 = old ∨ e.2 = change old) := by
        rintro ⟨old, h, value⟩
        exact ⟨old, List.mem_cons_of_mem _ h, value⟩
      by_cases here : k.same key
      · simp only [putEntry, here, if_true, List.mem_cons] at member
        rcases member with rfl | member
        · exact Or.inl ⟨v, List.mem_cons_self .., Or.inr rfl⟩
        · exact Or.inl (widen ⟨e.2, member, Or.inl rfl⟩)
      · simp only [putEntry, here, if_false, List.mem_cons, Bool.false_eq_true] at member
        rcases member with rfl | member
        · exact Or.inl ⟨v, List.mem_cons_self .., Or.inl rfl⟩
        · exact (ih member).imp_left widen

/-- Putting an entry changes no key, so what was found is found where it was. -/
theorem get?_putEntry_of_some {es : Mapping} {k v : Value} (found : Mapping.get? es k = some v) :
    Mapping.get? (putEntry key change fresh es) k = some v ∨
      Mapping.get? (putEntry key change fresh es) k = some (change v) := by
  induction es with
  | nil => simp [Mapping.get?] at found
  | cons e es ih =>
      obtain ⟨l, w⟩ := e
      by_cases atKey : l.same k <;> by_cases here : l.same key <;>
        simp only [putEntry, Mapping.get?, atKey, here, if_true, if_false, Bool.false_eq_true,
          Option.some.injEq] at found ⊢
      · exact Or.inr (congrArg change found)
      · exact Or.inl found
      · exact Or.inl found
      · exact ih found

variable {key fresh change}

theorem get?_putEntry {es : Mapping} (keys : ∀ e ∈ es, e.1.Valid) (keyValid : key.Valid)
    {k : Value} (kValid : k.Valid) :
    Mapping.get? (putEntry key change fresh es) k =
      if key.same k then some (((Mapping.get? es key).map change).getD fresh)
      else Mapping.get? es k := by
  induction es with
  | nil => by_cases equal : key.same k <;> simp [putEntry, Mapping.get?, equal]
  | cons e es ih =>
      obtain ⟨l, v⟩ := e
      have lValid : l.Valid := keys (l, v) (List.mem_cons_self ..)
      have rest := ih fun e member => keys e (List.mem_cons_of_mem _ member)
      by_cases here : l.same key
      · have agree : l.same k = key.same k := by
          rw [Bool.eq_iff_iff]
          constructor
          · intro equal
            exact Value.same_trans keyValid lValid kValid
              (Value.same_symm lValid keyValid here) equal
          · intro equal
            exact Value.same_trans lValid keyValid kValid here equal
        by_cases equal : key.same k <;> simp [putEntry, Mapping.get?, here, agree, equal]
      · by_cases equal : key.same k
        · have apart : l.same k = false := by
            rw [Bool.eq_false_iff]
            intro same
            exact here (Value.same_trans lValid kValid keyValid same
              (Value.same_symm keyValid kValid equal))
          simp [putEntry, Mapping.get?, here, apart, equal, rest]
        · simp [putEntry, Mapping.get?, here, equal, rest]

theorem putEntry_keys_valid {es : Mapping} (keys : ∀ e ∈ es, e.1.Valid) (keyValid : key.Valid) :
    ∀ e ∈ putEntry key change fresh es, e.1.Valid := by
  intro e member
  rcases mem_putEntry key fresh change member with ⟨old, h, _⟩ | h
  · exact keys (e.1, old) h
  · rw [h]
    exact keyValid

theorem putEntry_valid {es : Mapping} (valid : (Value.mapping es).Valid) (keyValid : key.Valid)
    (freshValid : fresh.Valid) (changeValid : ∀ v, v.Valid → (change v).Valid) :
    (Value.mapping (putEntry key change fresh es)).Valid := by
  refine .mapping ?_ (putEntry_keys_valid (fun _ => valid.key) keyValid) ?_
  · have distinct : (es.map Prod.fst).Pairwise fun k l => k.same l = false :=
      List.pairwise_map.mpr valid.distinct
    have distinctPut : ((putEntry key change fresh es).map Prod.fst).Pairwise
        fun k l => k.same l = false := by
      rw [keys_putEntry]
      cases found : Mapping.get? es key with
      | some v => simpa using distinct
      | none =>
          refine List.pairwise_append.mpr ⟨distinct, by simp, ?_⟩
          intro k kMember l lMember
          obtain ⟨e, member, rfl⟩ := List.mem_map.mp kMember
          have isKey : l = key := by simpa using lMember
          rw [isKey]
          exact (Mapping.get?_eq_none_iff es key).mp found e member
    exact List.pairwise_map.mp distinctPut
  · intro e member
    rcases mem_putEntry key fresh change member with ⟨old, h, value | value⟩ | h
    · rw [value]
      exact valid.value h
    · rw [value]
      exact changeValid old (valid.value h)
    · rw [h]
      exact freshValid

end PutEntry

/-! ## All entries -/

def mergeFound (p : Precedence) : Option Value → Option Value → Option Value
  | some v, some w => some (merge p v w)
  | some v, none => some v
  | none, found => found

theorem get?_mergeEntries (p : Precedence) {es fs : Mapping} (keys : ∀ e ∈ es, e.1.Valid)
    (valid : (Value.mapping fs).Valid) {k : Value} (kValid : k.Valid) :
    Mapping.get? (mergeEntries p es fs) k =
      mergeFound p (Mapping.get? es k) (Mapping.get? fs k) := by
  induction fs generalizing es with
  | nil => cases found : Mapping.get? es k <;> simp [mergeEntries, Mapping.get?, mergeFound, found]
  | cons f fs ih =>
      obtain ⟨key, value⟩ := f
      have keyValid : key.Valid := valid.key (List.mem_cons_self ..)
      have headApart := (List.pairwise_cons.mp valid.distinct).1
      rw [mergeEntries, ih (putEntry_keys_valid keys keyValid) valid.tail,
        get?_putEntry keys keyValid kValid]
      by_cases here : key.same k
      · have absent : Mapping.get? fs k = none := by
          refine (Mapping.get?_eq_none_iff fs k).mpr fun e member => ?_
          have eKey := valid.key (List.mem_cons_of_mem _ member)
          rw [Bool.eq_false_iff]
          intro same
          have around := Value.same_trans keyValid kValid eKey here
            (Value.same_symm eKey kValid same)
          simp [headApart e member] at around
        rw [Mapping.get?_congr keys keyValid kValid here]
        cases found : Mapping.get? es k <;> simp [Mapping.get?, here, absent, mergeFound]
      · simp [Mapping.get?, here]

theorem keys_mergeEntries (p : Precedence) {es fs : Mapping} (keys : ∀ e ∈ es, e.1.Valid)
    (valid : (Value.mapping fs).Valid) :
    (mergeEntries p es fs).map Prod.fst =
      es.map Prod.fst ++ (fs.map Prod.fst).filter fun k => (Mapping.get? es k).isNone := by
  induction fs generalizing es with
  | nil => simp [mergeEntries]
  | cons f fs ih =>
      obtain ⟨key, value⟩ := f
      have keyValid : key.Valid := valid.key (List.mem_cons_self ..)
      have headApart := (List.pairwise_cons.mp valid.distinct).1
      have others : (fs.map Prod.fst).filter
            (fun k =>
              (Mapping.get? (putEntry key (fun old => merge p old value) value es) k).isNone) =
          (fs.map Prod.fst).filter fun k => (Mapping.get? es k).isNone := by
        refine List.filter_congr fun k kMember => ?_
        obtain ⟨e, member, rfl⟩ := List.mem_map.mp kMember
        rw [get?_putEntry keys keyValid (valid.key (List.mem_cons_of_mem _ member)),
          headApart e member, if_neg Bool.false_ne_true]
      rw [mergeEntries, ih (putEntry_keys_valid keys keyValid) valid.tail, others, keys_putEntry,
        List.append_assoc]
      cases found : Mapping.get? es key <;> simp [found]

end ChartInflation.Values
