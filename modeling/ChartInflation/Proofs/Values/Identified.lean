import ChartInflation.Proofs.Values.Matching
import ChartInflation.Proofs.Values.Paths

/-!
# Trees whose items identify themselves

In an identified tree the items of a sequence that have an identifying key hold pairwise different
leaves under it.  An item keeps such an identity when it is merged with one that it meets
(`meets_merge`), and a merge of an identified tree with itself changes nothing (`merge_self`).
-/

set_option autoImplicit false

namespace ChartInflation.Values

open Yaml (Value Mapping)

def identities (key : String) (items : List Value) : List Value :=
  items.filterMap fun v => v.field? key

/-- The items that have a key hold pairwise different leaves under it. -/
def Distinguishes (key : String) (items : List Value) : Prop :=
  (∀ i ∈ identities key items, i.isLeaf) ∧
    (identities key items).Pairwise fun i j => i.same j = false

instance (key : String) (items : List Value) : Decidable (Distinguishes key items) :=
  inferInstanceAs (Decidable (_ ∧ _))

mutual

/-- Whether in each sequence every identifying key tells the items that have it apart.  Nothing is
asked of what is inside a tag or a key, where no merge reaches. -/
def isIdentified : Value → Bool
  | .sequence items =>
    identifyingKeys.all (fun key => decide (Distinguishes key items)) && areIdentified items
  | .mapping entries => valuesIdentified entries
  | _ => true

def areIdentified : List Value → Bool
  | [] => true
  | v :: items => isIdentified v && areIdentified items

def valuesIdentified : List (Value × Value) → Bool
  | [] => true
  | (_, v) :: entries => isIdentified v && valuesIdentified entries

end

@[simp] theorem isIdentified_sequence_iff (items : List Value) : isIdentified (.sequence items) ↔
    (∀ key ∈ identifyingKeys, Distinguishes key items) ∧ ∀ v ∈ items, isIdentified v := by
  have inside : areIdentified items ↔ ∀ v ∈ items, isIdentified v := by
    induction items with
    | nil => simp [areIdentified]
    | cons v items ih => simp [areIdentified, ih]
  simp [isIdentified, inside]

@[simp] theorem isIdentified_mapping_iff (entries : Mapping) :
    isIdentified (.mapping entries) ↔ ∀ e ∈ entries, isIdentified e.2 := by
  rw [isIdentified]
  induction entries with
  | nil => simp [valuesIdentified]
  | cons e entries ih => simp [valuesIdentified, ih]

/-! ## Identities of items -/

section Distinguishes
variable {key : String} {items : List Value} (distinguishes : Distinguishes key items)
include distinguishes

theorem isLeaf_of_distinguishes {v i : Value} (member : v ∈ items) (found : v.field? key = some i) :
    i.isLeaf :=
  distinguishes.1 i (List.mem_filterMap.mpr ⟨v, member, found⟩)

theorem differUnder_of_distinguishes (all : ∀ v ∈ items, hasKey key v) : DifferUnder key items := by
  have pairs := List.pairwise_filterMap.mp distinguishes.2
  refine pairs.imp_of_mem fun {v w} vMember wMember apart => ?_
  obtain ⟨i, vFound⟩ := Option.isSome_iff_exists.mp (all v vMember)
  obtain ⟨j, wFound⟩ := Option.isSome_iff_exists.mp (all w wMember)
  rw [vFound, wFound]
  exact apart i vFound j wFound

end Distinguishes

theorem sharedKey?_eq_some {xs ys : List Value} {key : String} (shared : sharedKey? xs ys = some key) :
    key ∈ identifyingKeys ∧ (∀ x ∈ xs, hasKey key x) ∧ ∀ y ∈ ys, hasKey key y := by
  unfold sharedKey? at shared
  split at shared
  · simp at shared
  · have all := List.find?_some shared
    rw [List.all_eq_true] at all
    exact ⟨List.mem_of_find?_eq_some shared, fun x member => all x (List.mem_append_left _ member),
      fun y member => all y (List.mem_append_right _ member)⟩

structure ToldApart (items : List Value) : Prop where
  valid : ∀ v ∈ items, v.Valid
  distinguished : ∀ key ∈ identifyingKeys, Distinguishes key items

namespace ToldApart
variable {items : List Value} (told : ToldApart items) {key : String}
  (isKey : key ∈ identifyingKeys)
include told isKey

theorem apart (all : ∀ v ∈ items, hasKey key v) : Apart key items :=
  ⟨told.valid, differUnder_of_distinguishes (told.distinguished key isKey) all⟩

theorem isLeaf {v i : Value} (member : v ∈ items) (found : v.field? key = some i) : i.isLeaf :=
  isLeaf_of_distinguishes (told.distinguished key isKey) member found

end ToldApart

theorem toldApart_of_identified {items : List Value} (valid : ∀ v ∈ items, v.Valid)
    (identified : isIdentified (.sequence items)) : ToldApart items :=
  ⟨valid, ((isIdentified_sequence_iff items).mp identified).1⟩

theorem sharedKey?_isSome {xs ys : List Value} (xsInhabited : xs ≠ []) (ysInhabited : ys ≠ [])
    {key : String} (isKey : key ∈ identifyingKeys) (xsHave : ∀ x ∈ xs, hasKey key x)
    (ysHave : ∀ y ∈ ys, hasKey key y) : ∃ next, sharedKey? xs ys = some next := by
  have all : ∀ v ∈ xs ++ ys, hasKey key v := fun v member =>
    (List.mem_append.mp member).elim (xsHave v) (ysHave v)
  have found : (identifyingKeys.find? fun key => (xs ++ ys).all (hasKey key)).isSome :=
    List.find?_isSome.mpr ⟨key, isKey, List.all_eq_true.mpr all⟩
  obtain ⟨next, isNext⟩ := Option.isSome_iff_exists.mp found
  refine ⟨next, ?_⟩
  rw [sharedKey?, if_neg (by simp [xsInhabited, ysInhabited])]
  exact isNext

/-! ## Items that keep their identities -/

theorem merge_of_isLeaf (p : Precedence) {v : Value} (leaf : v.isLeaf) (w : Value) :
    merge p v w = p.choose v w := by
  refine merge_eq_choose ?_ ?_
  · rintro es fs rfl
    simp [Value.isLeaf] at leaf
  · rintro xs ys rfl
    simp [Value.isLeaf] at leaf

section Merged
variable (p : Precedence) {key : String} {x y : Value} (xValid : x.Valid) (yValid : y.Valid)
  (leaf : ∀ i, x.field? key = some i → i.isLeaf)
include xValid yValid leaf

theorem meets_merge (meet : Meets key x y) : Meets key (merge p x y) y := by
  have ySelf : Meets key y y := meets_self yValid
  rcases field?_merge p xValid yValid key with merged | chosen
  · rw [Meets] at meet ySelf ⊢
    rw [merged]
    cases left : x.field? key with
    | none =>
        rw [mergeFound]
        exact ySelf
    | some i =>
        cases right : y.field? key with
        | none => simp [left, right, sameFound] at meet
        | some j =>
            rw [left, right] at meet
            rw [right] at ySelf
            rw [mergeFound, merge_of_isLeaf p (leaf i left)]
            cases p with
            | overlay => exact ySelf
            | base => exact meet
  · rw [Meets] at meet ySelf ⊢
    rw [chosen]
    cases p with
    | overlay => exact ySelf
    | base => exact meet

/-- An item keeps an identity that the one merged into it lacks, or must not change. -/
theorem meets_merge_self (has : hasKey key (merge p x y))
    (keeps : y.field? key = none ∨ p = .base ∧ (x.field? key).isSome) :
    Meets key (merge p x y) x := by
  have xSelf : Meets key x x := meets_self xValid
  rcases field?_merge p xValid yValid key with merged | chosen
  · rw [Meets] at xSelf ⊢
    rw [merged]
    rcases keeps with missing | ⟨rfl, isSome⟩
    · rw [missing]
      cases left : x.field? key with
      | none => rfl
      | some i =>
          rw [left] at xSelf
          exact xSelf
    · obtain ⟨i, left⟩ := Option.isSome_iff_exists.mp isSome
      rw [left] at xSelf ⊢
      cases y.field? key with
      | none => exact xSelf
      | some j =>
          rw [mergeFound, merge_of_isLeaf .base (leaf i left)]
          exact xSelf
  · cases p with
    | base =>
        rw [Meets, chosen]
        exact xSelf
    | overlay =>
        -- the incoming item has taken the place of the other one
        rcases keeps with missing | ⟨isBase, _⟩
        · have absent : (merge .overlay x y).field? key = none := chosen.trans missing
          simp [hasKey, absent] at has
        · cases isBase

end Merged

/-! ## A merge with itself -/

theorem choose_self (p : Precedence) (v : Value) : p.choose v v = v := by
  cases p <;> rfl

theorem merge_self (p : Precedence) {v : Value} (valid : v.Valid) (identified : isIdentified v) :
    merge p v v = v := by
  induction valid with
  | @mapping es distinct keysValid valuesValid _ values =>
      have esValid := Value.Valid.mapping distinct keysValid valuesValid
      have inside := (isIdentified_mapping_iff es).mp identified
      have keys : (mergeEntries p es es).map Prod.fst = es.map Prod.fst := by
        rw [keys_mergeEntries p keysValid esValid, List.filter_eq_nil_iff.mpr, List.append_nil]
        intro k member
        obtain ⟨e, eMember, rfl⟩ := List.mem_map.mp member
        simp [Mapping.get?_self esValid eMember]
      rw [merge]
      congr 1
      symm
      refine Mapping.eq_of_keys (merge_valid p esValid esValid) keys.symm fun e member => ?_
      rw [get?_mergeEntries p keysValid esValid (keysValid e member),
        Mapping.get?_self esValid member, mergeFound, values e member (inside e member)]
  | @sequence xs valid items =>
      have inside := ((isIdentified_sequence_iff xs).mp identified).2
      have same : ∀ x ∈ xs, merge p x x = x := fun x member => items x member (inside x member)
      rw [merge]
      cases shared : sharedKey? xs xs with
      | none => exact choose_self p _
      | some key =>
          obtain ⟨isKey, xsHave, _⟩ := sharedKey?_eq_some shared
          have apart := (toldApart_of_identified valid identified).apart isKey xsHave
          have keeps : ∀ x ∈ xs, ∀ y ∈ xs, Meets key x y → Meets key (merge p x y) y := by
            intro x xMember y yMember meet
            have yMeets : Meets key y y := meets_self (valid y yMember)
            rw [apart.eq_of_meets (valid y yMember) xMember yMember meet yMeets, same y yMember]
            exact yMeets
          have front : xs.map (withIncoming p key xs) = xs := by
            have each : ∀ x ∈ xs, withIncoming p key xs x = id x := by
              intro x member
              rw [withIncoming_of_meets p valid (valid x member) apart.distinct member
                (meets_self (valid x member)), same x member, id]
            rw [List.map_congr_left each, List.map_id]
          have noNew : newItems key xs xs = [] := by
            refine List.eq_nil_iff_forall_not_mem.mpr fun x isNew => ?_
            obtain ⟨member, meetsNone⟩ := mem_newItems_iff.mp isNew
            have own := meetsNone x member
            rw [meets_self (valid x member)] at own
            simp at own
          simp only [mergeItems_eq p apart apart keeps, front, noNew, List.append_nil]
  | _ => rw [merge_eq_choose (by simp) (by simp), choose_self]

end ChartInflation.Values
