import ChartInflation.Proofs.Values.Items

/-!
# Merges that keep items apart

Items of a sequence that comes in meet at most one item each, as long as no two of them have one
identity where the sequence merges by key.  Under this condition a merge of equal values gives a
value equal to both (`merge_same`), so an item keeps its identity whatever else is merged into it
(`merge_field?_same`).
-/

set_option autoImplicit false

namespace ChartInflation

open Yaml (Value Mapping)

namespace Values

mutual

/-- Whether the items that come in have pairwise different identities, in each sequence that
merges by key. -/
def separate : Value → Value → Bool
  | .mapping es, .mapping fs => separateEntries es fs
  | .sequence xs, .sequence ys =>
    match sharedKey? xs ys with
    | some key => decide (DifferUnder key ys) && separateItems key xs ys
    | none => true
  | _, _ => true

def separateEntries (es : Mapping) : List (Value × Value) → Bool
  | [] => true
  | (k, w) :: fs =>
    (match Mapping.get? es k with
      | some v => separate v w
      | none => true) && separateEntries es fs

def separateItems (key : String) (xs : List Value) : List Value → Bool
  | [] => true
  | y :: ys =>
    (match itemAt? key (y.field? key) xs with
      | some x => separate x y
      | none => true) && separateItems key xs ys

end

theorem separateEntries_iff (es fs : Mapping) :
    separateEntries es fs ↔ ∀ f ∈ fs, ∀ v, Mapping.get? es f.1 = some v → separate v f.2 := by
  induction fs with
  | nil => simp [separateEntries]
  | cons f fs ih =>
      obtain ⟨k, w⟩ := f
      cases found : Mapping.get? es k <;> simp [separateEntries, ih, found]

theorem separateItems_iff (key : String) (xs ys : List Value) :
    separateItems key xs ys ↔
      ∀ y ∈ ys, ∀ x, itemAt? key (y.field? key) xs = some x → separate x y := by
  induction ys with
  | nil => simp [separateItems]
  | cons y ys ih =>
      cases found : itemAt? key (y.field? key) xs <;> simp [separateItems, ih, found]

theorem separate_keyed {xs ys : List Value} {key : String} (shared : sharedKey? xs ys = some key)
    (apart : separate (.sequence xs) (.sequence ys)) :
    DifferUnder key ys ∧ ∀ y ∈ ys, ∀ x, itemAt? key (y.field? key) xs = some x → separate x y := by
  rw [separate, shared] at apart
  simpa [separateItems_iff] using apart

/-! ## Merges of equal values -/

theorem choose_same {p : Precedence} {v w : Value} (wValid : w.Valid) (equal : v.same w) :
    (p.choose v w).same w := by
  cases p with
  | overlay => exact Value.same_refl wValid
  | base => exact equal

theorem merge_same_mappings {p : Precedence} {es fs : Mapping} (esValid : (Value.mapping es).Valid)
    (fsValid : (Value.mapping fs).Valid) (equal : (Value.mapping es).same (.mapping fs))
    (values : ∀ f ∈ fs, ∀ v, Mapping.get? es f.1 = some v → v.same f.2 → (merge p v f.2).same f.2) :
    (merge p (.mapping es) (.mapping fs)).same (.mapping fs) := by
  have mergedValid := merge_valid p esValid fsValid
  rw [merge] at mergedValid ⊢
  -- both have the same keys, so the merge has those of the first in their places
  have noNewKeys : ((fs.map Prod.fst).filter fun k => (Mapping.get? es k).isNone) = [] := by
    refine List.filter_eq_nil_iff.mpr fun k kMember => ?_
    obtain ⟨f, fMember, rfl⟩ := List.mem_map.mp kMember
    have found := get?_same esValid fsValid equal (fsValid.key fMember)
    rw [Mapping.get?_self fsValid fMember] at found
    cases left : Mapping.get? es f.1 with
    | some v => simp
    | none => simp [left, sameFound] at found
  have keys := keys_mergeEntries p (fun _ => esValid.key) fsValid
  rw [noNewKeys, List.append_nil] at keys
  have length : (mergeEntries p es fs).length = fs.length := by
    rw [← ((Value.same_mappings_iff es fs).mp equal).1, ← List.length_map, keys, List.length_map]
  refine Value.same_mappings_of_get? mergedValid fsValid length fun e member => ?_
  have eKey := mergedValid.key member
  have here := Mapping.get?_self mergedValid member
  rw [get?_mergeEntries p (fun _ => esValid.key) fsValid eKey] at here
  have both := get?_same esValid fsValid equal eKey
  have isKey : e.1 ∈ es.map Prod.fst := keys ▸ List.mem_map_of_mem member
  obtain ⟨old, oldMember, atKey⟩ := List.mem_map.mp isKey
  rw [← atKey, Mapping.get?_self esValid oldMember, atKey] at here both
  cases right : Mapping.get? fs e.1 with
  | none => simp [right, sameFound] at both
  | some w =>
      obtain ⟨f, fMember, same, rfl⟩ := Mapping.mem_of_get? right
      simp only [right, mergeFound, Option.some.injEq, sameFound] at here both
      have sameKeys := Mapping.get?_congr (fun _ => esValid.key) (fsValid.key fMember) eKey same
      rw [← atKey, Mapping.get?_self esValid oldMember] at sameKeys
      exact ⟨f.2, rfl, here ▸ values f fMember old.2 sameKeys both⟩

theorem merge_same_sequences {p : Precedence} {xs ys : List Value}
    (xsValid : (Value.sequence xs).Valid) (ysValid : (Value.sequence ys).Valid)
    (equal : (Value.sequence xs).same (.sequence ys))
    (apart : separate (.sequence xs) (.sequence ys))
    (values : ∀ y ∈ ys, ∀ x, x.Valid → separate x y → x.same y → (merge p x y).same y) :
    (merge p (.sequence xs) (.sequence ys)).same (.sequence ys) := by
  cases shared : sharedKey? xs ys with
  | none =>
      rw [merge, shared]
      exact choose_same ysValid equal
  | some key =>
      obtain ⟨distinct, inside⟩ := separate_keyed shared apart
      obtain ⟨length, items⟩ := (Value.same_sequences_iff xs ys).mp equal
      -- each item meets the one in its own place, so the sequences merge pair by pair
      have merged : ∀ i (left : i < xs.length) (right : i < ys.length),
          (merge p xs[i] ys[i]).same ys[i] := by
        intro i left right
        have member := List.getElem_mem right
        have first := itemAt?_of_same xsValid ysValid equal distinct left right
        exact values ys[i] member xs[i] (xsValid.item (List.getElem_mem left))
          (inside ys[i] member xs[i] first) (items i left right)
      have aligned : List.Forall₂ (Aligned p key) xs ys := by
        refine List.forall₂_iff_get.mpr ⟨length, fun i left right => ?_⟩
        have xValid := xsValid.item (List.getElem_mem left)
        have yValid := ysValid.item (List.getElem_mem right)
        exact ⟨xValid, yValid, field?_same xValid yValid (items i left right) key,
          field?_same (merge_valid p xValid yValid) yValid (merged i left right) key⟩
      have zipped := mergeItems_append p aligned distinct [] (by simp)
      rw [List.nil_append, List.nil_append] at zipped
      rw [merge, shared]
      simp only [zipped]
      refine (Value.same_sequences_iff _ _).mpr ⟨by simp [length], fun i left right => ?_⟩
      rw [List.getElem_zipWith]
      exact merged i (length ▸ right) right

/-- Merging equal values gives a value equal to both. -/
theorem merge_same (p : Precedence) {v w : Value} (vValid : v.Valid) (wValid : w.Valid)
    (apart : separate v w) (equal : v.same w) : (merge p v w).same w := by
  induction wValid generalizing v with
  | mapping distinct keysValid valuesValid _ values =>
      have fsValid := Value.Valid.mapping distinct keysValid valuesValid
      obtain ⟨es, rfl⟩ := Value.mapping_of_same (Value.same_symm vValid fsValid equal)
      refine merge_same_mappings vValid fsValid equal fun f member old found same => ?_
      have inside := (separateEntries_iff es _).mp apart f member old found
      exact values f member (Mapping.get?_valid vValid found) inside same
  | sequence valid items =>
      have ysValid := Value.Valid.sequence valid
      obtain ⟨xs, rfl⟩ := Value.sequence_of_same (Value.same_symm vValid ysValid equal)
      exact merge_same_sequences vValid ysValid equal apart fun y member x xValid inside same =>
        items y member xValid inside same
  | _ =>
      rw [merge_eq_choose (by simp) (by simp)]
      exact choose_same (by simp [*]) equal

theorem merge_field?_same_mappings (p : Precedence) {es fs : Mapping}
    (esValid : (Value.mapping es).Valid) (fsValid : (Value.mapping fs).Valid)
    (apart : separate (.mapping es) (.mapping fs)) {key : String}
    (equal : sameFound ((Value.mapping es).field? key) ((Value.mapping fs).field? key)) :
    sameFound ((merge p (.mapping es) (.mapping fs)).field? key)
      ((Value.mapping fs).field? key) := by
  have left : (Value.mapping es).field? key = Mapping.get? es (.string key) := rfl
  have right : (Value.mapping fs).field? key = Mapping.get? fs (.string key) := rfl
  have result : (merge p (.mapping es) (.mapping fs)).field? key =
      mergeFound p (Mapping.get? es (.string key)) (Mapping.get? fs (.string key)) := by
    rw [merge, ← get?_mergeEntries p (fun _ => esValid.key) fsValid (.string key)]
    rfl
  rw [left, right] at equal
  rw [result, right]
  cases there : Mapping.get? es (.string key) with
  | none => exact sameFound_refl fun w found => Mapping.get?_valid fsValid found
  | some old =>
      cases new : Mapping.get? fs (.string key) with
      | none => simp [there, new, sameFound] at equal
      | some w =>
          obtain ⟨f, fMember, same, rfl⟩ := Mapping.mem_of_get? new
          have atKey := Mapping.get?_congr (fun _ => esValid.key) (fsValid.key fMember)
            (.string key) same
          rw [there, new] at equal
          exact merge_same p (Mapping.get?_valid esValid there) (fsValid.value fMember)
            ((separateEntries_iff es fs).mp apart f fMember old (atKey.trans there)) equal

theorem merge_field?_same (p : Precedence) {v w : Value} (vValid : v.Valid) (wValid : w.Valid)
    (apart : separate v w) {key : String} (equal : sameFound (v.field? key) (w.field? key)) :
    sameFound ((merge p v w).field? key) (w.field? key) := by
  by_cases mappings : (∃ es, v = .mapping es) ∧ ∃ fs, w = .mapping fs
  · obtain ⟨⟨es, rfl⟩, fs, rfl⟩ := mappings
    exact merge_field?_same_mappings p vValid wValid apart equal
  · by_cases sequences : (∃ xs, v = .sequence xs) ∧ ∃ ys, w = .sequence ys
    · obtain ⟨⟨xs, rfl⟩, ys, rfl⟩ := sequences
      have noField : (merge p (.sequence xs) (.sequence ys)).field? key = none := by
        rw [merge]
        split
        · rfl
        · cases p <;> rfl
      rw [noField]
      rfl
    · rw [merge_eq_choose (fun es fs left right => mappings ⟨⟨es, left⟩, fs, right⟩)
        (fun xs ys left right => sequences ⟨⟨xs, left⟩, ys, right⟩)]
      cases p with
      | overlay => exact sameFound_refl (field?_valid wValid key)
      | base => exact equal

end Values

end ChartInflation
