import ChartInflation.Proofs.Values.Identified

/-!
# The places of items

A merge by key leaves each item that is there in its place and with its identity, and what it puts
behind them has none of these identities (`extends_mergeItems`).  No two items need to differ for
that; what they hold under the key must be leaves, so that a merge does not make something else of
it.
-/

set_option autoImplicit false

namespace ChartInflation.Values

open Yaml (Value)

structure LeafUnder (key : String) (v : Value) : Prop where
  valid : v.Valid
  leaf : ∀ i, v.field? key = some i → i.isLeaf

structure Keeps (key : String) (v w : Value) : Prop where
  left : LeafUnder key v
  right : LeafUnder key w
  meets : Meets key v w

/-- The first items of the second list have the identities of those of the first one, one by one,
and no other item has one of these. -/
structure Extends (key : String) (xs zs : List Value) : Prop where
  front : List.Forall₂ (Keeps key) xs (zs.take xs.length)
  back : ∀ z ∈ zs.drop xs.length, LeafUnder key z ∧ ∀ x ∈ xs, Meets key x z = false

theorem exists_of_forall₂ {α β : Type} {R : α → β → Prop} {xs : List α} {ys : List β}
    (related : List.Forall₂ R xs ys) {y : β} (member : y ∈ ys) : ∃ x ∈ xs, R x y := by
  induction related with
  | nil => simp at member
  | @cons x z xs zs here _ ih =>
      rcases List.mem_cons.mp member with rfl | inTail
      · exact ⟨x, List.mem_cons_self .., here⟩
      · obtain ⟨x', x'Member, found⟩ := ih inTail
        exact ⟨x', List.mem_cons_of_mem _ x'Member, found⟩

section Keeps
variable {key : String}

theorem keeps_refl {v : Value} (leaf : LeafUnder key v) : Keeps key v v :=
  ⟨leaf, leaf, meets_self leaf.valid⟩

theorem keeps_trans {u v w : Value} (first : Keeps key u v) (second : Keeps key v w) :
    Keeps key u w := by
  refine ⟨first.left, second.right, ?_⟩
  rw [← meets_congr_right first.left.valid first.right.valid second.right.valid second.meets]
  exact first.meets

theorem allKept_refl {xs : List Value} (leaves : ∀ x ∈ xs, LeafUnder key x) :
    List.Forall₂ (Keeps key) xs xs :=
  List.forall₂_same.mpr fun x member => keeps_refl (leaves x member)

theorem allKept_trans {xs ys zs : List Value} (first : List.Forall₂ (Keeps key) xs ys)
    (second : List.Forall₂ (Keeps key) ys zs) : List.Forall₂ (Keeps key) xs zs := by
  induction first generalizing zs with
  | nil => exact second
  | cons here _ ih =>
      cases second with
      | cons next rest => exact .cons (keeps_trans here next) (ih rest)

theorem allKept_of_same {zs zs' : List Value} (leaves : ∀ z ∈ zs, LeafUnder key z)
    (leaves' : ∀ z ∈ zs', LeafUnder key z) (same : List.Forall₂ (fun z z' => z.same z') zs zs') :
    List.Forall₂ (Keeps key) zs zs' := by
  induction same with
  | nil => exact .nil
  | @cons z z' zs zs' here _ ih =>
      have zLeaf := leaves z (List.mem_cons_self ..)
      have z'Leaf := leaves' z' (List.mem_cons_self ..)
      refine .cons ⟨zLeaf, z'Leaf, field?_same zLeaf.valid z'Leaf.valid here key⟩ (ih ?_ ?_)
      · exact fun w member => leaves w (List.mem_cons_of_mem _ member)
      · exact fun w member => leaves' w (List.mem_cons_of_mem _ member)

end Keeps

/-! ## One item -/

section OneItem
variable (p : Precedence) {key : String} {x y : Value} (xLeaf : LeafUnder key x)
  (yLeaf : LeafUnder key y)
include xLeaf yLeaf

theorem leafUnder_merge : LeafUnder key (merge p x y) := by
  have chooses : ∀ {i j k : Value}, i.isLeaf → j.isLeaf → p.choose i j = k → k.isLeaf := by
    intro i j k iLeaf jLeaf chosen
    cases p with
    | overlay => exact chosen ▸ jLeaf
    | base => exact chosen ▸ iLeaf
  refine ⟨merge_valid p xLeaf.valid yLeaf.valid, fun k found => ?_⟩
  rcases field?_merge p xLeaf.valid yLeaf.valid key with merged | chosen
  · rw [merged] at found
    cases left : x.field? key with
    | none =>
        rw [left] at found
        exact yLeaf.leaf k found
    | some i =>
        have iLeaf := xLeaf.leaf i left
        rw [left] at found
        cases right : y.field? key with
        | none =>
            rw [right] at found
            exact Option.some.inj found ▸ iLeaf
        | some j =>
            rw [right, mergeFound, merge_of_isLeaf p iLeaf] at found
            exact chooses iLeaf (yLeaf.leaf j right) (Option.some.inj found)
  · rw [chosen] at found
    cases p with
    | overlay => exact yLeaf.leaf k found
    | base => exact xLeaf.leaf k found

theorem keeps_merge (meet : Meets key x y) : Keeps key x (merge p x y) := by
  have mergedLeaf := leafUnder_merge p xLeaf yLeaf
  have merged := meets_merge p xLeaf.valid yLeaf.valid xLeaf.leaf meet
  refine ⟨xLeaf, mergedLeaf, ?_⟩
  rw [meets_comm mergedLeaf.valid yLeaf.valid] at merged
  rw [meets_congr_left xLeaf.valid yLeaf.valid mergedLeaf.valid meet]
  exact merged

end OneItem

/-- An item whose values win leaves its own identity behind. -/
theorem meets_overlay {key : String} {x y : Value} (xLeaf : LeafUnder key x) (yValid : y.Valid)
    (has : hasKey key y) : Meets key (merge .overlay x y) y := by
  have ySelf : Meets key y y := meets_self yValid
  obtain ⟨j, right⟩ := Option.isSome_iff_exists.mp has
  rw [Meets] at ySelf ⊢
  rcases field?_merge .overlay xLeaf.valid yValid key with merged | chosen
  · cases left : x.field? key with
    | none =>
        rw [merged, left, mergeFound]
        exact ySelf
    | some i =>
        rw [merged, left, right, mergeFound, merge_of_isLeaf .overlay (xLeaf.leaf i left), ← right]
        rw [right] at ySelf ⊢
        exact ySelf
  · rw [chosen]
    exact ySelf

theorem allKept_putItem (p : Precedence) {key : String} {y : Value} (yLeaf : LeafUnder key y)
    {zs : List Value} (leaves : ∀ z ∈ zs, LeafUnder key z) (met : ∃ z ∈ zs, Meets key z y) :
    List.Forall₂ (Keeps key) zs
      (putItem key (y.field? key) (fun old => merge p old y) y zs) := by
  induction zs with
  | nil => simp at met
  | cons z zs ih =>
      have zLeaf := leaves z (List.mem_cons_self ..)
      have restLeaves : ∀ w ∈ zs, LeafUnder key w := fun w member =>
        leaves w (List.mem_cons_of_mem _ member)
      by_cases here : Meets key z y
      · rw [putItem, if_pos here]
        exact .cons (keeps_merge p zLeaf yLeaf here) (allKept_refl restLeaves)
      · rw [putItem, if_neg here]
        have inRest : ∃ w ∈ zs, Meets key w y := by
          obtain ⟨w, member, meet⟩ := met
          rcases List.mem_cons.mp member with rfl | inTail
          · exact absurd meet here
          · exact ⟨w, inTail, meet⟩
        exact .cons (keeps_refl zLeaf) (ih restLeaves inRest)

theorem leaves_putItem (p : Precedence) {key : String} {y : Value} (yLeaf : LeafUnder key y)
    {zs : List Value} (leaves : ∀ z ∈ zs, LeafUnder key z) :
    ∀ z ∈ putItem key (y.field? key) (fun old => merge p old y) y zs, LeafUnder key z := by
  intro z member
  by_cases met : ∃ w ∈ zs, Meets key w y
  · obtain ⟨w, _, kept⟩ := exists_of_forall₂ (allKept_putItem p yLeaf leaves met) member
    exact kept.right
  · have new : ∀ w ∈ zs, Meets key w y = false := by simpa using met
    rw [putItem_of_apart _ y new] at member
    rcases List.mem_append.mp member with there | isNew
    · exact leaves z there
    · rw [List.mem_singleton.mp isNew]
      exact yLeaf

/-! ## All items -/

namespace Extends
variable {key : String} {xs zs : List Value}

theorem refl (leaves : ∀ x ∈ xs, LeafUnder key x) : Extends key xs xs := by
  refine ⟨?_, by simp⟩
  rw [List.take_length]
  exact allKept_refl leaves

variable (grown : Extends key xs zs)
include grown

theorem length_le : xs.length ≤ zs.length := by
  have sameLength := grown.front.length_eq
  rw [List.length_take] at sameLength
  omega

theorem leaves : ∀ z ∈ zs, LeafUnder key z := by
  intro z member
  rw [← List.take_append_drop xs.length zs] at member
  rcases List.mem_append.mp member with inFront | inBack
  · obtain ⟨_, _, kept⟩ := exists_of_forall₂ grown.front inFront
    exact kept.right
  · exact (grown.back z inBack).1

theorem kept {zs' : List Value} (all : List.Forall₂ (Keeps key) zs zs') : Extends key xs zs' := by
  refine ⟨allKept_trans grown.front (List.forall₂_take _ all), fun z' member => ?_⟩
  obtain ⟨z, zMember, keeps⟩ := exists_of_forall₂ (List.forall₂_drop _ all) member
  refine ⟨keeps.right, fun x xMember => ?_⟩
  obtain ⟨_, new⟩ := grown.back z zMember
  obtain ⟨_, _, xKeeps⟩ := exists_of_forall₂ grown.front.flip xMember
  rw [← meets_congr_right xKeeps.left.valid keeps.left.valid keeps.right.valid keeps.meets]
  exact new x xMember

theorem add {y : Value} (yLeaf : LeafUnder key y) (new : ∀ z ∈ zs, Meets key z y = false) :
    Extends key xs (zs ++ [y]) := by
  constructor
  · rw [List.take_append_of_le_length grown.length_le]
    exact grown.front
  · intro z member
    rw [List.drop_append_of_le_length grown.length_le] at member
    rcases List.mem_append.mp member with inBack | isNew
    · exact grown.back z inBack
    · rw [List.mem_singleton.mp isNew]
      refine ⟨yLeaf, fun x xMember => ?_⟩
      obtain ⟨z', z'Member, keeps⟩ := exists_of_forall₂ grown.front.flip xMember
      rw [meets_congr_left keeps.left.valid keeps.right.valid yLeaf.valid keeps.meets]
      exact new z' (List.mem_of_mem_take z'Member)

end Extends

theorem extends_append_iff {key : String} (change : Value → Value) (xs back : List Value) :
    Extends key xs (xs.map change ++ back) ↔ (∀ x ∈ xs, Keeps key x (change x)) ∧
      ∀ z ∈ back, LeafUnder key z ∧ ∀ x ∈ xs, Meets key x z = false := by
  have sameLength : (xs.map change).length = xs.length := by simp
  constructor
  · rintro ⟨front, new⟩
    rw [List.take_left' sameLength, List.forall₂_map_right_iff, List.forall₂_same] at front
    rw [List.drop_left' sameLength] at new
    exact ⟨front, new⟩
  · rintro ⟨front, new⟩
    refine ⟨?_, ?_⟩
    · rw [List.take_left' sameLength, List.forall₂_map_right_iff, List.forall₂_same]
      exact front
    · rw [List.drop_left' sameLength]
      exact new

theorem extends_mergeItems (p : Precedence) {key : String} {xs zs ys : List Value}
    (ysLeaves : ∀ y ∈ ys, LeafUnder key y) (grown : Extends key xs zs) :
    Extends key xs (mergeItems p key zs ys) := by
  induction ys generalizing zs with
  | nil =>
      rw [mergeItems]
      exact grown
  | cons y ys ih =>
      have yLeaf := ysLeaves y (List.mem_cons_self ..)
      rw [mergeItems]
      refine ih (fun z member => ysLeaves z (List.mem_cons_of_mem _ member)) ?_
      by_cases met : ∃ z ∈ zs, Meets key z y
      · exact grown.kept (allKept_putItem p yLeaf grown.leaves met)
      · have new : ∀ z ∈ zs, Meets key z y = false := by simpa using met
        rw [putItem_of_apart _ _ new]
        exact grown.add yLeaf new

end ChartInflation.Values
