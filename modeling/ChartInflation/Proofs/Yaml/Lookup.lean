import ChartInflation.Proofs.Yaml.Equality

/-!
# Looking up keys

In a valid mapping a key leads to at most one entry, whatever the order of the entries, and equal
keys lead to the same one.
-/

set_option autoImplicit false

namespace ChartInflation.Yaml.Mapping

theorem mem_of_get? {es : Mapping} {k v : Value} (found : get? es k = some v) :
    ∃ e ∈ es, e.1.same k ∧ e.2 = v := by
  induction es with
  | nil => simp [get?] at found
  | cons e es ih =>
      obtain ⟨key, value⟩ := e
      by_cases here : key.same k
      · simp only [get?, here, if_true, Option.some.injEq] at found
        exact ⟨(key, value), List.mem_cons_self .., here, found⟩
      · simp only [get?, here, if_false, Bool.false_eq_true] at found
        obtain ⟨e, member, rest⟩ := ih found
        exact ⟨e, List.mem_cons_of_mem _ member, rest⟩

theorem get?_eq_none_iff (es : Mapping) (k : Value) :
    get? es k = none ↔ ∀ e ∈ es, e.1.same k = false := by
  induction es with
  | nil => simp [get?]
  | cons e es ih =>
      obtain ⟨key, value⟩ := e
      by_cases here : key.same k <;> simp [get?, here, ih]

theorem get?_congr {es : Mapping} (keys : ∀ e ∈ es, e.1.Valid) {k l : Value} (kValid : k.Valid)
    (lValid : l.Valid) (equal : k.same l) : get? es k = get? es l := by
  induction es with
  | nil => rfl
  | cons e es ih =>
      obtain ⟨key, value⟩ := e
      have keyValid : key.Valid := keys (key, value) (List.mem_cons_self ..)
      have rest := ih fun e member => keys e (List.mem_cons_of_mem _ member)
      have agree : key.same k = key.same l := by
        rw [Bool.eq_iff_iff]
        constructor
        · intro same
          exact Value.same_trans keyValid kValid lValid same equal
        · intro same
          exact Value.same_trans keyValid lValid kValid same
            (Value.same_symm kValid lValid equal)
      simp only [get?, agree, rest]

theorem get?_of_mem {es : Mapping} (valid : (Value.mapping es).Valid) {e : Value × Value}
    (member : e ∈ es) {k : Value} (kValid : k.Valid) (equal : e.1.same k) :
    get? es k = some e.2 := by
  cases found : get? es k with
  | none =>
      have apart := (get?_eq_none_iff es k).mp found e member
      simp [equal] at apart
  | some v =>
      obtain ⟨f, fMember, same, rfl⟩ := mem_of_get? found
      have eKey := valid.key member
      have fKey := valid.key fMember
      have forth : e.1.same f.1 :=
        Value.same_trans eKey kValid fKey equal (Value.same_symm fKey kValid same)
      have back : f.1.same e.1 := Value.same_symm eKey fKey forth
      rw [Value.eq_of_same_keys valid.distinct member fMember forth back]

theorem get?_self {es : Mapping} (valid : (Value.mapping es).Valid) {e : Value × Value}
    (member : e ∈ es) : get? es e.1 = some e.2 :=
  get?_of_mem valid member (valid.key member) (Value.same_refl (valid.key member))

theorem get?_valid {es : Mapping} (valid : (Value.mapping es).Valid) {k v : Value}
    (found : get? es k = some v) : v.Valid := by
  obtain ⟨e, member, _, rfl⟩ := mem_of_get? found
  exact valid.value member

/-- A valid mapping is given by its keys, in their order, and what they lead to. -/
theorem eq_of_keys {es fs : Mapping} (fsValid : (Value.mapping fs).Valid)
    (sameKeys : es.map Prod.fst = fs.map Prod.fst) (found : ∀ e ∈ es, get? fs e.1 = some e.2) :
    es = fs := by
  have sameLength : es.length = fs.length := by
    simpa using congrArg List.length sameKeys
  refine List.ext_getElem sameLength fun i left right => ?_
  have keys : es[i].1 = fs[i].1 := by
    have both := List.getElem_of_eq sameKeys (by simpa using left)
    simpa using both
  have values := found es[i] (List.getElem_mem left)
  rw [keys, get?_self fsValid (List.getElem_mem right)] at values
  exact Prod.ext keys (Option.some.inj values).symm

theorem valid_append {es : Mapping} (valid : (Value.mapping es).Valid) {k v : Value}
    (kValid : k.Valid) (vValid : v.Valid) (absent : get? es k = none) :
    (Value.mapping (es ++ [(k, v)])).Valid := by
  have apart := (get?_eq_none_iff es k).mp absent
  refine .mapping (List.pairwise_append.mpr ⟨valid.distinct, by simp, by simpa using apart⟩) ?_ ?_
  · intro e member
    rcases List.mem_append.mp member with there | new
    · exact valid.key there
    · rw [List.mem_singleton.mp new]
      exact kValid
  · intro e member
    rcases List.mem_append.mp member with there | new
    · exact valid.value there
    · rw [List.mem_singleton.mp new]
      exact vValid

end Mapping

namespace Value

/-- Two valid mappings with equally many entries are equal if each entry of the one is found in the
other. -/
theorem same_mappings_of_get? {es fs : Mapping} (esValid : (Value.mapping es).Valid)
    (fsValid : (Value.mapping fs).Valid) (sameLength : es.length = fs.length)
    (found : ∀ e ∈ es, ∃ v, Mapping.get? fs e.1 = some v ∧ e.2.same v) :
    (Value.mapping es).same (.mapping fs) := by
  refine same_of_matched sameLength fun e member => ?_
  obtain ⟨v, atKey, values⟩ := found e member
  obtain ⟨f, fMember, keys, rfl⟩ := Mapping.mem_of_get? atKey
  have forth := same_symm (fsValid.key fMember) (esValid.key member) keys
  have lawful : ∀ e ∈ es, Lawful e.1 := fun e member => lawful_of_valid (esValid.key member)
  exact ⟨f, fMember, ⟨forth, values⟩, fun f' f'Member again =>
    only_match lawful fsValid member fMember f'Member forth again⟩

end Value

end ChartInflation.Yaml
