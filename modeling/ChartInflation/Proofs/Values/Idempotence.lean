import ChartInflation.Proofs.Values.Places

/-!
# Merging the same values again

The result of a merge meets the base values again when the merge is repeated with it.  Two sequences
may then have an identifying key in common that they lacked before, and be merged by that one.  The
second merge of identified trees changes nothing as long as that key does not match the items in
another way (`concordant`, `merge_merge`), and only then gives an equal tree
(`same_merge_merge_iff`).
-/

set_option autoImplicit false

namespace ChartInflation.Values

open Yaml (Value Mapping)

/-- Whether an item that comes in meets under another key what it merges with, or nothing if it is
new.  Where the values that are there win, it may hold anything under it in the first case. -/
def meetsAlike (p : Precedence) (key other : String) (existing : List Value) (y : Value) : Bool :=
  match itemAt? key (y.field? key) existing with
  | some x => !hasKey other y || p == .base || Meets other x y
  | none => !hasKey other y || (itemAt? other (y.field? other) existing).isNone

mutual

/-- Whether, in each sequence that merges by key, the key by which the result would be merged again
matches the incoming items in the same way. -/
def concordant (p : Precedence) : Value → Value → Bool
  | .mapping es, .mapping fs => concordantEntries p es fs
  | .sequence xs, .sequence ys =>
    match sharedKey? xs ys with
    | some key =>
      (match sharedKey? xs (mergeItems p key xs ys) with
        | some next => ys.all (meetsAlike p key next xs)
        | none => true) && concordantItems p key xs ys
    | none => true
  | _, _ => true

def concordantEntries (p : Precedence) (es : Mapping) : List (Value × Value) → Bool
  | [] => true
  | (k, w) :: fs =>
    (match Mapping.get? es k with
      | some v => concordant p v w
      | none => true) && concordantEntries p es fs

def concordantItems (p : Precedence) (key : String) (xs : List Value) : List Value → Bool
  | [] => true
  | y :: ys =>
    (match itemAt? key (y.field? key) xs with
      | some x => concordant p x y
      | none => true) && concordantItems p key xs ys

end

theorem concordantEntries_iff (p : Precedence) (es fs : Mapping) : concordantEntries p es fs ↔
    ∀ f ∈ fs, ∀ v, Mapping.get? es f.1 = some v → concordant p v f.2 := by
  induction fs with
  | nil => simp [concordantEntries]
  | cons f fs ih =>
      obtain ⟨k, w⟩ := f
      cases found : Mapping.get? es k <;> simp [concordantEntries, ih, found]

theorem concordantItems_iff (p : Precedence) (key : String) (xs ys : List Value) :
    concordantItems p key xs ys ↔
      ∀ y ∈ ys, ∀ x, itemAt? key (y.field? key) xs = some x → concordant p x y := by
  induction ys with
  | nil => simp [concordantItems]
  | cons y ys ih =>
      cases found : itemAt? key (y.field? key) xs <;> simp [concordantItems, ih, found]

/-! ## Sequences -/

theorem hasKey_of_meets {key : String} {v w : Value} (meet : Meets key v w) (has : hasKey key w) :
    hasKey key v := by
  obtain ⟨j, found⟩ := Option.isSome_iff_exists.mp has
  rw [Meets, found] at meet
  cases left : v.field? key with
  | none => simp [left, sameFound] at meet
  | some i => simp [hasKey, left]

section Keyed
variable (p : Precedence) {key : String} {xs ys : List Value} (xsTold : ToldApart xs)
  (ysTold : ToldApart ys) (shared : sharedKey? xs ys = some key)
include xsTold ysTold shared

theorem meets_merge_of_told {x y : Value} (xMember : x ∈ xs) (yMember : y ∈ ys)
    (meet : Meets key x y) : Meets key (merge p x y) y := by
  obtain ⟨isKey, _, _⟩ := sharedKey?_eq_some shared
  exact meets_merge p (xsTold.valid x xMember) (ysTold.valid y yMember)
    (fun _ found => xsTold.isLeaf isKey xMember found) meet

theorem mergeItems_of_told : mergeItems p key xs ys =
    xs.map (withIncoming p key ys) ++ newItems key xs ys := by
  obtain ⟨isKey, xsHave, ysHave⟩ := sharedKey?_eq_some shared
  refine mergeItems_eq p (xsTold.apart isKey xsHave) (ysTold.apart isKey ysHave) ?_
  intro x xMember y yMember meet
  exact meets_merge_of_told p xsTold ysTold shared xMember yMember meet

/-- What becomes of an item: it met none, or it was merged with the only one that it met. -/
theorem withIncoming_cases {x : Value} (xMember : x ∈ xs) :
    withIncoming p key ys x = x ∨ ∃ y ∈ ys, Meets key x y ∧
      withIncoming p key ys x = merge p x y ∧ itemAt? key (y.field? key) xs = some x := by
  obtain ⟨isKey, xsHave, _⟩ := sharedKey?_eq_some shared
  have xValid := xsTold.valid x xMember
  cases found : itemAt? key (x.field? key) ys with
  | none =>
      left
      rw [withIncoming, found]
  | some y =>
      right
      have yMember := List.mem_of_find?_eq_some found
      have yValid := ysTold.valid y yMember
      have meet : Meets key y x := itemAt?_identity found
      rw [meets_comm yValid xValid] at meet
      refine ⟨y, yMember, meet, by rw [withIncoming, found], ?_⟩
      exact itemAt?_of_meets xsTold.valid yValid (xsTold.apart isKey xsHave).distinct xMember meet

theorem sharedKey?_mergeItems : ∃ next, sharedKey? xs (mergeItems p key xs ys) = some next := by
  obtain ⟨isKey, xsHave, ysHave⟩ := sharedKey?_eq_some shared
  have xsInhabited : xs ≠ [] := by
    rintro rfl
    simp [sharedKey?] at shared
  rw [mergeItems_of_told p xsTold ysTold shared]
  refine sharedKey?_isSome xsInhabited (by simp [xsInhabited]) isKey xsHave fun z member => ?_
  rcases List.mem_append.mp member with there | new
  · obtain ⟨x, xMember, rfl⟩ := List.mem_map.mp there
    rcases withIncoming_cases p xsTold ysTold shared xMember with alone | ⟨y, yMember, meet, merged, _⟩
    · rw [alone]
      exact xsHave x xMember
    · rw [merged]
      exact hasKey_of_meets (meets_merge_of_told p xsTold ysTold shared xMember yMember meet)
        (ysHave y yMember)
  · exact ysHave z (mem_newItems_iff.mp new).1

theorem leafUnder_of_told {next : String} (isKey : next ∈ identifyingKeys) :
    ∀ z ∈ mergeItems p key xs ys, LeafUnder next z := by
  have xsLeaves : ∀ x ∈ xs, LeafUnder next x := fun x member =>
    ⟨xsTold.valid x member, fun _ => xsTold.isLeaf isKey member⟩
  have ysLeaves : ∀ y ∈ ys, LeafUnder next y := fun y member =>
    ⟨ysTold.valid y member, fun _ => ysTold.isLeaf isKey member⟩
  rw [mergeItems_of_told p xsTold ysTold shared]
  intro z member
  rcases List.mem_append.mp member with there | new
  · obtain ⟨x, xMember, rfl⟩ := List.mem_map.mp there
    rcases withIncoming_cases p xsTold ysTold shared xMember with alone | ⟨y, yMember, _, merged, _⟩
    · rw [alone]
      exact xsLeaves x xMember
    · rw [merged]
      exact leafUnder_merge p (xsLeaves x xMember) (ysLeaves y yMember)
  · exact ysLeaves z (mem_newItems_iff.mp new).1

section Next
variable {next : String} (again : sharedKey? xs (mergeItems p key xs ys) = some next)
include again

/-- An item keeps what it holds under the key of the second merge if that key matches alike. -/
theorem meets_withIncoming (alike : ∀ y ∈ ys, meetsAlike p key next xs y) {x : Value}
    (xMember : x ∈ xs) (has : hasKey next (withIncoming p key ys x)) :
    Meets next (withIncoming p key ys x) x := by
  obtain ⟨isNext, xsHave, _⟩ := sharedKey?_eq_some again
  have xValid := xsTold.valid x xMember
  rcases withIncoming_cases p xsTold ysTold shared xMember with
    alone | ⟨y, yMember, _, merged, found⟩
  · rw [alone]
    exact meets_self xValid
  · have yValid := ysTold.valid y yMember
    have leaf : ∀ i, x.field? next = some i → i.isLeaf := fun _ => xsTold.isLeaf isNext xMember
    have match' := alike y yMember
    simp only [meetsAlike, found, Bool.or_eq_true, Bool.not_eq_true', beq_iff_eq] at match'
    rw [merged] at has ⊢
    rcases match' with (missing | isBase) | meet
    · have none : y.field? next = none := by simpa [hasKey] using missing
      exact meets_merge_self p xValid yValid leaf has (Or.inl none)
    · exact meets_merge_self p xValid yValid leaf has (Or.inr ⟨isBase, xsHave x xMember⟩)
    · rw [meets_congr_right (merge_valid p xValid yValid) xValid yValid meet]
      exact meets_merge p xValid yValid leaf meet

theorem extends_of_alike (alike : ∀ y ∈ ys, meetsAlike p key next xs y) :
    Extends next xs (mergeItems p key xs ys) := by
  obtain ⟨isNext, _, zsHave⟩ := sharedKey?_eq_some again
  have zsLeaves := leafUnder_of_told p xsTold ysTold shared isNext
  rw [mergeItems_of_told p xsTold ysTold shared] at zsHave zsLeaves ⊢
  refine (extends_append_iff _ xs _).mpr ⟨fun x xMember => ?_, fun y new => ?_⟩
  · have member : withIncoming p key ys x ∈
        xs.map (withIncoming p key ys) ++ newItems key xs ys :=
      List.mem_append_left _ (List.mem_map_of_mem xMember)
    have xValid := xsTold.valid x xMember
    have mergedLeaf := zsLeaves _ member
    refine ⟨⟨xValid, fun _ => xsTold.isLeaf isNext xMember⟩, mergedLeaf, ?_⟩
    rw [meets_comm xValid mergedLeaf.valid]
    exact meets_withIncoming p xsTold ysTold shared again alike xMember (zsHave _ member)
  · have member : y ∈ xs.map (withIncoming p key ys) ++ newItems key xs ys :=
      List.mem_append_right _ new
    obtain ⟨yMember, meetsNone⟩ := mem_newItems_iff.mp new
    have match' := alike y yMember
    rw [meetsAlike, (itemAt?_eq_none_iff key y xs).mpr meetsNone] at match'
    simp only [zsHave y member, Bool.not_true, Bool.false_or, Option.isNone_iff_eq_none,
      itemAt?_eq_none_iff] at match'
    exact ⟨zsLeaves y member, match'⟩

section Grown
variable (grown : Extends next xs (mergeItems p key xs ys))
include grown

theorem apart_of_extends : Apart next (mergeItems p key xs ys) := by
  obtain ⟨isNext, xsHave, zsHave⟩ := sharedKey?_eq_some again
  have valid := fun z member => (grown.leaves z member).valid
  refine ⟨valid, ?_⟩
  rw [mergeItems_of_told p xsTold ysTold shared] at grown zsHave ⊢
  obtain ⟨front, back⟩ := (extends_append_iff _ xs _).mp grown
  have newSublist : (newItems key xs ys).Sublist ys := List.filter_sublist
  have newDistinguished : Distinguishes next (newItems key xs ys) := by
    have fewer := newSublist.filterMap fun v => v.field? next
    have ysDistinguished := ysTold.distinguished next isNext
    exact ⟨fun i member => ysDistinguished.1 i (fewer.subset member),
      ysDistinguished.2.sublist fewer⟩
  refine List.pairwise_append.mpr ⟨List.pairwise_map.mpr ?_, ?_, ?_⟩
  · refine (xsTold.apart isNext xsHave).distinct.imp_of_mem fun {v w} vMember wMember apart => ?_
    have vKeeps := front v vMember
    have wKeeps := front w wMember
    change Meets next (withIncoming p key ys v) (withIncoming p key ys w) = false
    rw [← meets_congr_left vKeeps.left.valid vKeeps.right.valid wKeeps.right.valid vKeeps.meets,
      ← meets_congr_right vKeeps.left.valid wKeeps.left.valid wKeeps.right.valid wKeeps.meets]
    exact apart
  · exact differUnder_of_distinguishes newDistinguished fun y member =>
      zsHave y (List.mem_append_right _ member)
  · intro z there y new
    obtain ⟨x, xMember, rfl⟩ := List.mem_map.mp there
    have keeps := front x xMember
    change Meets next (withIncoming p key ys x) y = false
    rw [← meets_congr_left keeps.left.valid keeps.right.valid (back y new).1.valid keeps.meets]
    exact (back y new).2 x xMember

theorem mergeItems_again : mergeItems p next xs (mergeItems p key xs ys) =
    xs.map (fun x => merge p x (withIncoming p key ys x)) ++ newItems key xs ys := by
  obtain ⟨isNext, xsHave, _⟩ := sharedKey?_eq_some again
  have zsApart := apart_of_extends p xsTold ysTold shared again grown
  have keeps : ∀ x ∈ xs, ∀ z ∈ mergeItems p key xs ys, Meets next x z →
      Meets next (merge p x z) z := by
    intro x member z zMember meet
    exact meets_merge p (xsTold.valid x member) (zsApart.valid z zMember)
      (fun _ => xsTold.isLeaf isNext member) meet
  rw [mergeItems_eq p (xsTold.apart isNext xsHave) zsApart keeps]
  rw [mergeItems_of_told p xsTold ysTold shared] at grown zsApart ⊢
  obtain ⟨front, back⟩ := (extends_append_iff _ xs _).mp grown
  congr 1
  · refine List.map_congr_left fun x member => ?_
    exact withIncoming_of_meets p zsApart.valid (xsTold.valid x member) zsApart.distinct
      (List.mem_append_left _ (List.mem_map_of_mem member)) (front x member).meets
  · have frontMet : newItems next xs (xs.map (withIncoming p key ys)) = [] := by
      refine List.eq_nil_iff_forall_not_mem.mpr fun z isNew => ?_
      obtain ⟨there, meetsNone⟩ := mem_newItems_iff.mp isNew
      obtain ⟨x, member, rfl⟩ := List.mem_map.mp there
      have meet := (front x member).meets
      rw [meetsNone x member] at meet
      simp at meet
    have backNew : newItems next xs (newItems key xs ys) = newItems key xs ys := by
      refine List.filter_eq_self.mpr fun y new => ?_
      rw [Option.isNone_iff_eq_none, itemAt?_eq_none_iff]
      exact (back y new).2
    rw [newItems] at frontMet backNew ⊢
    rw [List.filter_append, frontMet, backNew, List.nil_append]

/-- The key of the second merge matches alike only if the first one kept the identities under it. -/
theorem alike_of_extends : ∀ y ∈ ys, meetsAlike p key next xs y := by
  intro y yMember
  obtain ⟨isKey, _, ysHave⟩ := sharedKey?_eq_some shared
  have yValid := ysTold.valid y yMember
  rw [mergeItems_of_told p xsTold ysTold shared, extends_append_iff] at grown
  obtain ⟨front, back⟩ := grown
  cases found : itemAt? key (y.field? key) xs with
  | none =>
      have new : y ∈ newItems key xs ys :=
        mem_newItems_iff.mpr ⟨yMember, (itemAt?_eq_none_iff key y xs).mp found⟩
      simp [meetsAlike, found, (itemAt?_eq_none_iff next y xs).mpr (back y new).2]
  | some x =>
      have xMember := List.mem_of_find?_eq_some found
      have meet : Meets key x y := itemAt?_identity found
      have keeps := front x xMember
      rw [withIncoming_of_meets p ysTold.valid keeps.left.valid
        (ysTold.apart isKey ysHave).distinct yMember meet] at keeps
      simp only [meetsAlike, found, Bool.or_eq_true, Bool.not_eq_true', beq_iff_eq]
      by_cases has : hasKey next y
      · cases p with
        | base => exact Or.inl (Or.inr rfl)
        | overlay =>
            right
            have taken := meets_overlay keeps.left yValid has
            rw [← meets_congr_right keeps.left.valid keeps.right.valid yValid taken]
            exact keeps.meets
      · exact Or.inl (Or.inl (by simpa using has))

end Grown

/-- The second merge leaves the items as they are if its key matches alike and it changes none of
them inside. -/
theorem mergeItems_again_of_alike (alike : ∀ y ∈ ys, meetsAlike p key next xs y)
    (inside : ∀ x ∈ xs, merge p x (withIncoming p key ys x) = withIncoming p key ys x) :
    mergeItems p next xs (mergeItems p key xs ys) = mergeItems p key xs ys := by
  have grown := extends_of_alike p xsTold ysTold shared again alike
  rw [mergeItems_again p xsTold ysTold shared again grown, mergeItems_of_told p xsTold ysTold shared,
    List.map_congr_left inside]

theorem extends_of_same (equal : (Value.sequence (mergeItems p next xs (mergeItems p key xs ys))).same
    (.sequence (mergeItems p key xs ys))) : Extends next xs (mergeItems p key xs ys) := by
  obtain ⟨isNext, _, _⟩ := sharedKey?_eq_some again
  have zsLeaves := leafUnder_of_told p xsTold ysTold shared isNext
  have xsLeaves : ∀ x ∈ xs, LeafUnder next x := fun x member =>
    ⟨xsTold.valid x member, fun _ => xsTold.isLeaf isNext member⟩
  have grown := extends_mergeItems p zsLeaves (Extends.refl xsLeaves)
  rw [Value.same, Value.sameItems_iff] at equal
  exact grown.kept (allKept_of_same grown.leaves zsLeaves equal)

theorem inside_of_same (equal : (Value.sequence (mergeItems p next xs (mergeItems p key xs ys))).same
    (.sequence (mergeItems p key xs ys))) {x : Value} (member : x ∈ xs) :
    (merge p x (withIncoming p key ys x)).same (withIncoming p key ys x) := by
  have grown := extends_of_same p xsTold ysTold shared again equal
  rw [Value.same, Value.sameItems_iff, mergeItems_again p xsTold ysTold shared again grown,
    mergeItems_of_told p xsTold ysTold shared] at equal
  have front := List.forall₂_take xs.length equal
  rw [List.take_left' (by simp), List.take_left' (by simp), List.forall₂_map_left_iff,
    List.forall₂_map_right_iff, List.forall₂_same] at front
  exact front x member

end Next

end Keyed

/-! ## Trees -/

/-- Where two values are in conflict, the second merge meets the winner of the first. -/
theorem merge_merge_of_choose (p : Precedence) {v w : Value} (vValid : v.Valid)
    (identified : isIdentified v) (conflict : merge p v w = p.choose v w) :
    merge p v (merge p v w) = merge p v w := by
  cases p with
  | overlay =>
      have isIncoming : merge .overlay v w = w := conflict
      rw [isIncoming, isIncoming]
  | base =>
      have isExisting : merge .base v w = v := conflict
      rw [isExisting, merge_self .base vValid identified]

theorem mergeFound_again (p : Precedence) {found other : Option Value}
    (own : ∀ v, found = some v → merge p v v = v)
    (both : ∀ v w, found = some v → other = some w → merge p v (merge p v w) = merge p v w) :
    mergeFound p found (mergeFound p found other) = mergeFound p found other := by
  cases found with
  | none => rfl
  | some v =>
      cases other with
      | none => simp [mergeFound, own v rfl]
      | some w => simp [mergeFound, both v w rfl rfl]

theorem merge_merge_mappings (p : Precedence) {es fs : Mapping} (esValid : (Value.mapping es).Valid)
    (fsValid : (Value.mapping fs).Valid) (identified : ∀ e ∈ es, isIdentified e.2)
    (inside : ∀ f ∈ fs, ∀ v, Mapping.get? es f.1 = some v →
      merge p v (merge p v f.2) = merge p v f.2) :
    merge p (.mapping es) (merge p (.mapping es) (.mapping fs)) =
      merge p (.mapping es) (.mapping fs) := by
  have gsValid := merge_valid p esValid fsValid
  have hsValid := merge_valid p esValid gsValid
  rw [merge] at gsValid hsValid ⊢
  rw [merge] at hsValid ⊢
  congr 1
  refine Mapping.eq_of_keys gsValid ?_ fun e member => ?_
  · -- the keys of the base are not new, the others are again
    rw [keys_mergeEntries p (fun _ => esValid.key) gsValid,
      keys_mergeEntries p (fun _ => esValid.key) fsValid, List.filter_append, List.filter_filter]
    have known : (es.map Prod.fst).filter (fun k => (Mapping.get? es k).isNone) = [] := by
      refine List.filter_eq_nil_iff.mpr fun k kMember => ?_
      obtain ⟨old, oldMember, rfl⟩ := List.mem_map.mp kMember
      simp [Mapping.get?_self esValid oldMember]
    simp only [known, List.nil_append, Bool.and_self]
  · have eKey := hsValid.key member
    have here := Mapping.get?_self hsValid member
    have once := get?_mergeEntries p (fun _ => esValid.key) fsValid eKey
    rw [get?_mergeEntries p (fun _ => esValid.key) gsValid eKey, once] at here
    rw [once, ← here, mergeFound_again p]
    · intro v found
      obtain ⟨old, oldMember, _, rfl⟩ := Mapping.mem_of_get? found
      exact merge_self p (esValid.value oldMember) (identified old oldMember)
    · intro v w found other
      obtain ⟨f, fMember, same, rfl⟩ := Mapping.mem_of_get? other
      have atKey := Mapping.get?_congr (fun _ => esValid.key) (fsValid.key fMember) eKey same
      exact inside f fMember v (atKey.trans found)

section Sequences
variable (p : Precedence) {key next : String} {xs ys : List Value}
  (shared : sharedKey? xs ys = some key)
include shared

theorem merge_keyed : merge p (.sequence xs) (.sequence ys) =
    .sequence (mergeItems p key xs ys) := by
  rw [merge, shared]

variable (again : sharedKey? xs (mergeItems p key xs ys) = some next)
include again

theorem concordant_sequences_iff : concordant p (.sequence xs) (.sequence ys) ↔
    (∀ y ∈ ys, meetsAlike p key next xs y) ∧
      ∀ y ∈ ys, ∀ x, itemAt? key (y.field? key) xs = some x → concordant p x y := by
  rw [concordant, shared]
  simp only [again, Bool.and_eq_true, List.all_eq_true, concordantItems_iff]

variable (xsTold : ToldApart xs) (ysTold : ToldApart ys)
include xsTold ysTold

theorem merge_merge_sequences (identified : ∀ x ∈ xs, isIdentified x)
    (concord : concordant p (.sequence xs) (.sequence ys))
    (inside : ∀ y ∈ ys, ∀ x ∈ xs, concordant p x y → merge p x (merge p x y) = merge p x y) :
    merge p (.sequence xs) (merge p (.sequence xs) (.sequence ys)) =
      merge p (.sequence xs) (.sequence ys) := by
  obtain ⟨alike, inItems⟩ := (concordant_sequences_iff p shared again).mp concord
  rw [merge_keyed p shared, merge_keyed p again]
  congr 1
  refine mergeItems_again_of_alike p xsTold ysTold shared again alike fun x member => ?_
  rcases withIncoming_cases p xsTold ysTold shared member with
    alone | ⟨y, yMember, _, merged, found⟩
  · rw [alone]
    exact merge_self p (xsTold.valid x member) (identified x member)
  · rw [merged]
    exact inside y yMember x member (inItems y yMember x found)

theorem concordant_sequences_of_same
    (equal : (merge p (.sequence xs) (merge p (.sequence xs) (.sequence ys))).same
      (merge p (.sequence xs) (.sequence ys)))
    (inside : ∀ y ∈ ys, ∀ x ∈ xs, (merge p x (merge p x y)).same (merge p x y) →
      concordant p x y) : concordant p (.sequence xs) (.sequence ys) := by
  obtain ⟨isKey, _, ysHave⟩ := sharedKey?_eq_some shared
  rw [merge_keyed p shared, merge_keyed p again] at equal
  have grown := extends_of_same p xsTold ysTold shared again equal
  refine (concordant_sequences_iff p shared again).mpr
    ⟨alike_of_extends p xsTold ysTold shared again grown, fun y yMember x found => ?_⟩
  have xMember := List.mem_of_find?_eq_some found
  have unchanged := inside_of_same p xsTold ysTold shared again equal xMember
  rw [withIncoming_of_meets p ysTold.valid (xsTold.valid x xMember)
    (ysTold.apart isKey ysHave).distinct yMember (itemAt?_identity found)] at unchanged
  exact inside y yMember x xMember unchanged

end Sequences

theorem concordant_mappings_of_same (p : Precedence) {es fs : Mapping}
    (esValid : (Value.mapping es).Valid) (fsValid : (Value.mapping fs).Valid)
    (equal : (merge p (.mapping es) (merge p (.mapping es) (.mapping fs))).same
      (merge p (.mapping es) (.mapping fs)))
    (inside : ∀ f ∈ fs, ∀ e ∈ es, (merge p e.2 (merge p e.2 f.2)).same (merge p e.2 f.2) →
      concordant p e.2 f.2) : concordant p (.mapping es) (.mapping fs) := by
  rw [concordant, concordantEntries_iff]
  intro f member old found
  obtain ⟨e, eMember, _, rfl⟩ := Mapping.mem_of_get? found
  have onceValid := merge_valid p esValid fsValid
  have twiceValid := merge_valid p esValid onceValid
  rw [merge] at onceValid equal twiceValid
  rw [merge] at equal twiceValid
  have fKey := fsValid.key member
  have atKey := get?_same twiceValid onceValid equal fKey
  rw [get?_mergeEntries p (fun _ => esValid.key) onceValid fKey,
    get?_mergeEntries p (fun _ => esValid.key) fsValid fKey, found,
    Mapping.get?_self fsValid member] at atKey
  exact inside f member e eMember atKey

/-- Merging the result in once more changes nothing, if the items of both trees identify themselves
and their keys are in concord. -/
theorem merge_merge (p : Precedence) {v w : Value} (vValid : v.Valid) (wValid : w.Valid)
    (vIdentified : isIdentified v) (wIdentified : isIdentified w) (concord : concordant p v w) :
    merge p v (merge p v w) = merge p v w := by
  induction wValid generalizing v with
  | @mapping fs distinct keysValid valuesValid _ values =>
      by_cases isMapping : ∃ es, v = .mapping es
      · obtain ⟨es, rfl⟩ := isMapping
        have identified := (isIdentified_mapping_iff es).mp vIdentified
        refine merge_merge_mappings p vValid (.mapping distinct keysValid valuesValid) identified ?_
        intro f member old found
        obtain ⟨e, eMember, _, rfl⟩ := Mapping.mem_of_get? found
        exact values f member (vValid.value eMember) (identified e eMember)
          ((isIdentified_mapping_iff fs).mp wIdentified f member)
          ((concordantEntries_iff p es fs).mp concord f member e.2 found)
      · exact merge_merge_of_choose p vValid vIdentified
          (merge_eq_choose (fun es _ left _ => isMapping ⟨es, left⟩) (by simp))
  | @sequence ys valid items =>
      by_cases isSequence : ∃ xs, v = .sequence xs
      · obtain ⟨xs, rfl⟩ := isSequence
        cases shared : sharedKey? xs ys with
        | none =>
            refine merge_merge_of_choose p vValid vIdentified ?_
            rw [merge, shared]
        | some key =>
            have xsTold := toldApart_of_identified (fun _ member => vValid.item member) vIdentified
            have ysTold := toldApart_of_identified valid wIdentified
            have xsInside := ((isIdentified_sequence_iff xs).mp vIdentified).2
            have ysInside := ((isIdentified_sequence_iff ys).mp wIdentified).2
            obtain ⟨next, again⟩ := sharedKey?_mergeItems p xsTold ysTold shared
            exact merge_merge_sequences p shared again xsTold ysTold xsInside concord
              fun y yMember x xMember => items y yMember (xsTold.valid x xMember)
                (xsInside x xMember) (ysInside y yMember)
      · exact merge_merge_of_choose p vValid vIdentified
          (merge_eq_choose (by simp) (fun xs _ left _ => isSequence ⟨xs, left⟩))
  | _ =>
      exact merge_merge_of_choose p vValid vIdentified (merge_eq_choose (by simp) (by simp))

theorem concordant_of_same (p : Precedence) {v w : Value} (vValid : v.Valid) (wValid : w.Valid)
    (vIdentified : isIdentified v) (wIdentified : isIdentified w)
    (equal : (merge p v (merge p v w)).same (merge p v w)) : concordant p v w := by
  induction wValid generalizing v with
  | @mapping fs distinct keysValid valuesValid _ values =>
      cases v with
      | mapping es =>
          have esInside := (isIdentified_mapping_iff es).mp vIdentified
          have fsInside := (isIdentified_mapping_iff fs).mp wIdentified
          exact concordant_mappings_of_same p vValid (.mapping distinct keysValid valuesValid) equal
            fun f member e eMember => values f member (vValid.value eMember) (esInside e eMember)
              (fsInside f member)
      | _ => rfl
  | @sequence ys valid items =>
      cases v with
      | sequence xs =>
          cases shared : sharedKey? xs ys with
          | none => rw [concordant, shared]
          | some key =>
              have xsTold := toldApart_of_identified (fun _ member => vValid.item member) vIdentified
              have ysTold := toldApart_of_identified valid wIdentified
              have xsInside := ((isIdentified_sequence_iff xs).mp vIdentified).2
              have ysInside := ((isIdentified_sequence_iff ys).mp wIdentified).2
              obtain ⟨next, again⟩ := sharedKey?_mergeItems p xsTold ysTold shared
              exact concordant_sequences_of_same p shared again xsTold ysTold equal
                fun y yMember x xMember => items y yMember (xsTold.valid x xMember)
                  (xsInside x xMember) (ysInside y yMember)
      | _ => rfl
  | _ => cases v <;> rfl

/-- Merging the result in once more changes nothing exactly if the keys are in concord. -/
theorem same_merge_merge_iff (p : Precedence) {v w : Value} (vValid : v.Valid) (wValid : w.Valid)
    (vIdentified : isIdentified v) (wIdentified : isIdentified w) :
    (merge p v (merge p v w)).same (merge p v w) ↔ concordant p v w := by
  constructor
  · exact concordant_of_same p vValid wValid vIdentified wIdentified
  · intro concord
    rw [merge_merge p vValid wValid vIdentified wIdentified concord]
    exact Value.same_refl (merge_valid p vValid wValid)

end ChartInflation.Values
