import ChartInflation.Proofs.Values.Items

/-!
# What becomes of each item

Two items meet under a key if they have the same identity there.  If the items that are there are
pairwise different, and so are those that come in, each item that is there is merged with the one
it meets, in its place, and those that meet none follow in their order (`mergeItems_eq`).
-/

set_option autoImplicit false

namespace ChartInflation.Values

open Yaml (Value Mapping)

abbrev Meets (key : String) (v w : Value) : Bool :=
  sameFound (v.field? key) (w.field? key)

section Meets
variable {key : String} {u v w : Value} (uValid : u.Valid) (vValid : v.Valid) (wValid : w.Valid)

include vValid in
theorem meets_self : Meets key v v :=
  sameFound_refl (field?_valid vValid key)

include vValid wValid in
theorem meets_comm : Meets key v w = Meets key w v := by
  rw [Bool.eq_iff_iff]
  constructor
  · intro meet
    exact sameFound_symm (field?_valid vValid key) (field?_valid wValid key) meet
  · intro meet
    exact sameFound_symm (field?_valid wValid key) (field?_valid vValid key) meet

include uValid vValid wValid in
theorem meets_congr_left (meet : Meets key u v) : Meets key u w = Meets key v w := by
  have uId := field?_valid uValid key
  have vId := field?_valid vValid key
  have wId := field?_valid wValid key
  rw [Bool.eq_iff_iff]
  constructor
  · intro other
    exact sameFound_trans vId uId wId (sameFound_symm uId vId meet) other
  · intro other
    exact sameFound_trans uId vId wId meet other

include uValid vValid wValid in
theorem meets_congr_right (meet : Meets key v w) : Meets key u v = Meets key u w := by
  rw [meets_comm uValid vValid, meets_comm uValid wValid]
  exact meets_congr_left vValid wValid uValid meet

end Meets

theorem itemAt?_eq_none_iff (key : String) (v : Value) (items : List Value) :
    itemAt? key (v.field? key) items = none ↔ ∀ x ∈ items, Meets key x v = false := by
  simp [itemAt?, List.find?_eq_none]

/-- The only item that meets a value is the first one. -/
theorem itemAt?_of_meets {key : String} {items : List Value} {v x : Value}
    (itemsValid : ∀ y ∈ items, y.Valid) (vValid : v.Valid) (distinct : DifferUnder key items)
    (member : x ∈ items) (meet : Meets key x v) : itemAt? key (v.field? key) items = some x := by
  have xId := field?_valid (itemsValid x member) key
  rw [← itemAt?_congr itemsValid xId (field?_valid vValid key) meet]
  exact itemAt?_self itemsValid distinct member

def withIncoming (p : Precedence) (key : String) (incoming : List Value) (x : Value) : Value :=
  match itemAt? key (x.field? key) incoming with
  | some y => merge p x y
  | none => x

def newItems (key : String) (existing incoming : List Value) : List Value :=
  incoming.filter fun y => (itemAt? key (y.field? key) existing).isNone

theorem mem_newItems_iff {key : String} {xs ys : List Value} {y : Value} :
    y ∈ newItems key xs ys ↔ y ∈ ys ∧ ∀ x ∈ xs, Meets key x y = false := by
  rw [newItems, List.mem_filter, Option.isNone_iff_eq_none, itemAt?_eq_none_iff]

theorem withIncoming_of_meets (p : Precedence) {key : String} {ys : List Value} {x y : Value}
    (ysValid : ∀ y ∈ ys, y.Valid) (xValid : x.Valid) (distinct : DifferUnder key ys)
    (member : y ∈ ys) (meet : Meets key x y) : withIncoming p key ys x = merge p x y := by
  rw [meets_comm xValid (ysValid y member)] at meet
  rw [withIncoming, itemAt?_of_meets ysValid xValid distinct member meet]

theorem withIncoming_of_apart (p : Precedence) {key : String} {ys : List Value} {x : Value}
    (ysValid : ∀ y ∈ ys, y.Valid) (xValid : x.Valid) (apart : ∀ y ∈ ys, Meets key x y = false) :
    withIncoming p key ys x = x := by
  have none : itemAt? key (x.field? key) ys = none := by
    rw [itemAt?_eq_none_iff]
    intro y member
    rw [meets_comm (ysValid y member) xValid]
    exact apart y member
  rw [withIncoming, none]

section OneItem
variable (p : Precedence) {key : String} {ys : List Value} {y : Value}

theorem withIncoming_cons_of_apart {x : Value} (xValid : x.Valid) (yValid : y.Valid)
    (apart : Meets key x y = false) :
    withIncoming p key (y :: ys) x = withIncoming p key ys x := by
  rw [meets_comm xValid yValid] at apart
  rw [withIncoming, withIncoming, itemAt?, itemAt?, List.find?_cons_of_neg (by simp [apart])]

theorem newItems_cons_of_meets {xs : List Value} {x : Value} (member : x ∈ xs)
    (meet : Meets key x y) : newItems key xs (y :: ys) = newItems key xs ys := by
  have found : (itemAt? key (y.field? key) xs).isNone = false := by
    rw [Bool.eq_false_iff, ne_eq, Option.isNone_iff_eq_none, itemAt?_eq_none_iff]
    intro apart
    simp [apart x member] at meet
  rw [newItems, newItems, List.filter_cons_of_neg (by simp [found])]

theorem newItems_cons_of_apart {xs : List Value} (apart : ∀ x ∈ xs, Meets key x y = false) :
    newItems key xs (y :: ys) = y :: newItems key xs ys := by
  have none := (itemAt?_eq_none_iff key y xs).mpr apart
  rw [newItems, newItems, List.filter_cons_of_pos (by simp [none])]

theorem newItems_congr {xs xs' : List Value}
    (same : ∀ z ∈ ys, (∃ x ∈ xs, Meets key x z) ↔ ∃ x ∈ xs', Meets key x z) :
    newItems key xs ys = newItems key xs' ys := by
  refine List.filter_congr fun z member => ?_
  rw [Bool.eq_iff_iff, Option.isNone_iff_eq_none, Option.isNone_iff_eq_none, itemAt?_eq_none_iff,
    itemAt?_eq_none_iff]
  have both := same z member
  constructor
  · intro apart x inOther
    rw [Bool.eq_false_iff]
    intro meet
    obtain ⟨x', there, meet'⟩ := both.mpr ⟨x, inOther, meet⟩
    simp [apart x' there] at meet'
  · intro apart x inFirst
    rw [Bool.eq_false_iff]
    intro meet
    obtain ⟨x', there, meet'⟩ := both.mp ⟨x, inFirst, meet⟩
    simp [apart x' there] at meet'

end OneItem

theorem putItem_of_apart {key : String} {y : Value} (change : Value → Value) (fresh : Value)
    {xs : List Value} (apart : ∀ x ∈ xs, Meets key x y = false) :
    putItem key (y.field? key) change fresh xs = xs ++ [fresh] := by
  induction xs with
  | nil => rfl
  | cons x xs ih =>
      have head := apart x (List.mem_cons_self ..)
      have rest := ih fun z member => apart z (List.mem_cons_of_mem _ member)
      rw [putItem, if_neg (by simp [head]), rest, List.cons_append]

/-! ## All items -/

structure Apart (key : String) (items : List Value) : Prop where
  valid : ∀ v ∈ items, v.Valid
  distinct : DifferUnder key items

namespace Apart
variable {key : String}

theorem tail {y : Value} {ys : List Value} (apart : Apart key (y :: ys)) : Apart key ys :=
  ⟨fun z member => apart.valid z (List.mem_cons_of_mem _ member),
    (List.pairwise_cons.mp apart.distinct).2⟩

theorem head {y : Value} {ys : List Value} (apart : Apart key (y :: ys)) :
    y.Valid ∧ ∀ z ∈ ys, Meets key y z = false :=
  ⟨apart.valid y (List.mem_cons_self ..), (List.pairwise_cons.mp apart.distinct).1⟩

theorem add {xs : List Value} {y : Value} (apart : Apart key xs) (yValid : y.Valid)
    (new : ∀ x ∈ xs, Meets key x y = false) : Apart key (xs ++ [y]) := by
  refine ⟨?_, List.pairwise_append.mpr ⟨apart.distinct, by simp, ?_⟩⟩
  · intro z member
    rcases List.mem_append.mp member with there | isNew
    · exact apart.valid z there
    · rw [List.mem_singleton.mp isNew]
      exact yValid
  · intro x member z isNew
    rw [List.mem_singleton.mp isNew]
    exact new x member

theorem eq_of_meets {items : List Value} (apart : Apart key items) {v x y : Value} (vValid : v.Valid)
    (xMember : x ∈ items) (yMember : y ∈ items) (xMeets : Meets key x v) (yMeets : Meets key y v) :
    x = y := by
  have first := itemAt?_of_meets apart.valid vValid apart.distinct xMember xMeets
  rw [itemAt?_of_meets apart.valid vValid apart.distinct yMember yMeets] at first
  exact (Option.some.inj first).symm

section Middle
variable {front back : List Value} {x : Value} (apart : Apart key (front ++ x :: back))
include apart

theorem others {z : Value} (member : z ∈ front ∨ z ∈ back) : z.Valid ∧ Meets key z x = false := by
  have xValid := apart.valid x (by simp)
  have zValid := apart.valid z (by simp [or_left_comm, member])
  obtain ⟨_, restDistinct, across⟩ := List.pairwise_append.mp apart.distinct
  refine ⟨zValid, ?_⟩
  rcases member with inFront | inBack
  · exact across z inFront x (List.mem_cons_self ..)
  · rw [meets_comm zValid xValid]
    exact (List.pairwise_cons.mp restDistinct).1 z inBack

/-- What one of the items meets, no other one does. -/
theorem others_miss {y z : Value} (yValid : y.Valid) (meet : Meets key x y)
    (member : z ∈ front ∨ z ∈ back) : Meets key z y = false := by
  obtain ⟨zValid, miss⟩ := apart.others member
  rw [← meets_congr_right zValid (apart.valid x (by simp)) yValid meet]
  exact miss

/-- An item may be changed as long as it meets what it met. -/
theorem change {x' : Value} (x'Valid : x'.Valid)
    (same : ∀ z, z.Valid → Meets key x' z = Meets key x z) : Apart key (front ++ x' :: back) := by
  have xValid := apart.valid x (by simp)
  obtain ⟨frontDistinct, restDistinct, across⟩ := List.pairwise_append.mp apart.distinct
  obtain ⟨backApart, backDistinct⟩ := List.pairwise_cons.mp restDistinct
  refine ⟨?_, List.pairwise_append.mpr ⟨frontDistinct, List.pairwise_cons.mpr
    ⟨?_, backDistinct⟩, ?_⟩⟩
  · intro z member
    rcases List.mem_append.mp member with inFront | inRest
    · exact apart.valid z (by simp [inFront])
    · rcases List.mem_cons.mp inRest with rfl | inBack
      · exact x'Valid
      · exact apart.valid z (by simp [inBack])
  · intro z inBack
    exact (same z (apart.valid z (by simp [inBack]))).trans (backApart z inBack)
  · intro z inFront w inRest
    rcases List.mem_cons.mp inRest with rfl | inBack
    · have zValid := apart.valid z (by simp [inFront])
      have here := across z inFront x (List.mem_cons_self ..)
      change Meets key z x = false at here
      change Meets key z w = false
      rw [meets_comm zValid x'Valid, same z zValid, meets_comm xValid zValid]
      exact here
    · exact across z inFront w (List.mem_cons_of_mem _ inBack)

end Middle

end Apart

section AllItems
variable (p : Precedence) {key : String} {ys : List Value} {y : Value}

theorem merged_cons_of_apart {xs : List Value} (xsApart : Apart key xs) (ysApart : Apart key (y :: ys))
    (new : ∀ x ∈ xs, Meets key x y = false) :
    (xs ++ [y]).map (withIncoming p key ys) ++ newItems key (xs ++ [y]) ys =
      xs.map (withIncoming p key (y :: ys)) ++ newItems key xs (y :: ys) := by
  obtain ⟨yValid, headApart⟩ := ysApart.head
  have front : xs.map (withIncoming p key ys) = xs.map (withIncoming p key (y :: ys)) := by
    refine List.map_congr_left fun x member => ?_
    rw [withIncoming_cons_of_apart p (xsApart.valid x member) yValid (new x member)]
  have back : newItems key (xs ++ [y]) ys = newItems key xs ys := by
    refine newItems_congr fun z member => ?_
    simp [headApart z member]
  rw [newItems_cons_of_apart new, List.map_append, front, back, List.map_singleton,
    withIncoming_of_apart p ysApart.tail.valid yValid headApart, List.append_assoc,
    List.singleton_append]

theorem merged_cons_of_meets {front back : List Value} {x : Value}
    (xsApart : Apart key (front ++ x :: back)) (ysApart : Apart key (y :: ys))
    (meet : Meets key x y) (same : ∀ z, z.Valid → Meets key (merge p x y) z = Meets key x z) :
    (front ++ merge p x y :: back).map (withIncoming p key ys) ++
        newItems key (front ++ merge p x y :: back) ys =
      (front ++ x :: back).map (withIncoming p key (y :: ys)) ++
        newItems key (front ++ x :: back) (y :: ys) := by
  obtain ⟨yValid, headApart⟩ := ysApart.head
  have tailValid := ysApart.tail.valid
  have xValid := xsApart.valid x (by simp)
  have others : ∀ z, z ∈ front ∨ z ∈ back →
      withIncoming p key ys z = withIncoming p key (y :: ys) z := by
    intro z member
    exact (withIncoming_cons_of_apart p (xsApart.others member).1 yValid
      (xsApart.others_miss yValid meet member)).symm
  have here : withIncoming p key ys (merge p x y) = withIncoming p key (y :: ys) x := by
    have mergedApart : ∀ z ∈ ys, Meets key (merge p x y) z = false := by
      intro z member
      rw [same z (tailValid z member), meets_congr_left xValid yValid (tailValid z member) meet]
      exact headApart z member
    rw [withIncoming_of_apart p tailValid (merge_valid p xValid yValid) mergedApart]
    rw [meets_comm xValid yValid] at meet
    simp [withIncoming, itemAt?, meet]
  have new : newItems key (front ++ merge p x y :: back) ys =
      newItems key (front ++ x :: back) ys := by
    refine newItems_congr fun z member => ?_
    simp [same z (tailValid z member), or_and_right, exists_or]
  rw [newItems_cons_of_meets (by simp) meet, new]
  congr 1
  rw [List.map_append, List.map_append, List.map_cons, List.map_cons, here,
    List.map_congr_left fun z inFront => others z (Or.inl inFront),
    List.map_congr_left fun z inBack => others z (Or.inr inBack)]

/-- Items that differ from one another merge pair by pair: each of those that are there with the one
it meets, the new ones behind them. -/
theorem mergeItems_eq {xs : List Value} (xsApart : Apart key xs) (ysApart : Apart key ys)
    (keeps : ∀ x ∈ xs, ∀ y ∈ ys, Meets key x y → Meets key (merge p x y) y) :
    mergeItems p key xs ys = xs.map (withIncoming p key ys) ++ newItems key xs ys := by
  induction ys generalizing xs with
  | nil =>
      have unchanged : ∀ x ∈ xs, withIncoming p key [] x = x := fun _ _ => rfl
      simp [mergeItems, newItems, List.map_congr_left unchanged]
  | cons y ys ih =>
      obtain ⟨yValid, headApart⟩ := ysApart.head
      have tailKeeps : ∀ x ∈ xs, ∀ z ∈ ys, Meets key x z → Meets key (merge p x z) z :=
        fun x member z inTail => keeps x member z (List.mem_cons_of_mem _ inTail)
      rw [mergeItems]
      by_cases met : ∃ x ∈ xs, Meets key x y
      · obtain ⟨x, member, meet⟩ := met
        obtain ⟨front, back, rfl⟩ := List.append_of_mem member
        have xValid := xsApart.valid x member
        have mergedValid := merge_valid p xValid yValid
        -- the merged item has the identity of the one in whose place it stands
        have same : ∀ z, z.Valid → Meets key (merge p x y) z = Meets key x z := by
          intro z zValid
          rw [meets_congr_left mergedValid yValid zValid
              (keeps x member y (List.mem_cons_self ..) meet),
            meets_congr_left xValid yValid zValid meet]
        have frontApart : ∀ z ∈ front, Meets key z y = false := fun z inFront =>
          xsApart.others_miss yValid meet (Or.inl inFront)
        have changedKeeps : ∀ z ∈ front ++ merge p x y :: back, ∀ w ∈ ys, Meets key z w →
            Meets key (merge p z w) w := by
          intro z inNew w inTail meet'
          rcases List.mem_append.mp inNew with inFront | inRest
          · exact tailKeeps z (by simp [inFront]) w inTail meet'
          rcases List.mem_cons.mp inRest with rfl | inBack
          · have wValid := ysApart.tail.valid w inTail
            rw [same w wValid, meets_congr_left xValid yValid wValid meet] at meet'
            simp [headApart w inTail] at meet'
          · exact tailKeeps z (by simp [inBack]) w inTail meet'
        rw [putItem_append (fun old => merge p old y) y back frontApart meet,
          ih (xsApart.change mergedValid same) ysApart.tail changedKeeps]
        exact merged_cons_of_meets p xsApart ysApart meet same
      · have new : ∀ x ∈ xs, Meets key x y = false := by
          intro x member
          rw [Bool.eq_false_iff]
          intro meet
          exact met ⟨x, member, meet⟩
        have addedKeeps : ∀ z ∈ xs ++ [y], ∀ w ∈ ys, Meets key z w →
            Meets key (merge p z w) w := by
          intro z member w inTail meet
          rcases List.mem_append.mp member with there | isNew
          · exact tailKeeps z there w inTail meet
          · rw [List.mem_singleton.mp isNew] at meet
            simp [headApart w inTail] at meet
        rw [putItem_of_apart _ y new, ih (xsApart.add yValid new) ysApart.tail addedKeeps]
        exact merged_cons_of_apart p xsApart ysApart new

end AllItems

end ChartInflation.Values
