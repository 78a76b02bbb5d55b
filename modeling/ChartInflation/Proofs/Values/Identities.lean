import ChartInflation.Proofs.Values.Places

/-!
# The identities of a merged sequence

A merge by key leaves the identities of the items that are there as they are, in their order.  Behind
them stand those that only come in, each once, in the order in which they first come in
(`identities_merge`).  Identities may repeat on either side: only the first item that has one is ever
changed.
-/

set_option autoImplicit false

namespace ChartInflation.Values

open Yaml (Value)

def isUnknown (known : List Value) (i : Value) : Bool :=
  !known.any fun j => j.same i

/-- The identities that come in and are not known, each where it first occurs. -/
def newAmong (known coming : List Value) : List Value :=
  (coming.filter (isUnknown known)).eraseDupsBy Value.same

structure HasIdentity (key : String) (v i : Value) : Prop where
  leaf : LeafUnder key v
  valid : i.Valid
  found : ∃ j, v.field? key = some j ∧ j.same i

/-! ## New identities -/

theorem isUnknown_iff (known : List Value) (i : Value) :
    isUnknown known i ↔ ∀ j ∈ known, j.same i = false := by
  simp [isUnknown]

theorem newAmong_cons_of_known {known : List Value} {i : Value} (isKnown : ∃ j ∈ known, j.same i)
    (coming : List Value) : newAmong known (i :: coming) = newAmong known coming := by
  have dropped : ¬ isUnknown known i := by
    rw [isUnknown_iff]
    obtain ⟨j, member, same⟩ := isKnown
    intro unknown
    simp [unknown j member] at same
  rw [newAmong, newAmong, List.filter_cons_of_neg dropped]

theorem newAmong_cons_of_new {known coming : List Value} {i : Value} (iValid : i.Valid)
    (valid : ∀ j ∈ coming, j.Valid) (isNew : ∀ j ∈ known, j.same i = false) :
    newAmong known (i :: coming) = i :: newAmong (known ++ [i]) coming := by
  have kept : isUnknown known i := (isUnknown_iff known i).mpr isNew
  have others : (coming.filter (isUnknown known)).filter (fun j => decide (j.same i = false)) =
      coming.filter (isUnknown (known ++ [i])) := by
    rw [List.filter_filter]
    refine List.filter_congr fun j member => ?_
    have turned : j.same i = i.same j := by
      rw [Bool.eq_iff_iff]
      exact ⟨Value.same_symm (valid j member) iValid, Value.same_symm iValid (valid j member)⟩
    rw [turned, Bool.eq_iff_iff, Bool.and_eq_true, decide_eq_true_iff, isUnknown_iff, isUnknown_iff,
      List.forall_mem_append, List.forall_mem_singleton]
    exact and_comm
  rw [newAmong, newAmong, List.filter_cons_of_pos kept, List.eraseDupsBy_cons, others]

/-! ## One item -/

namespace HasIdentity
variable {key : String} {v w i j : Value}

theorem of_field? (leaf : LeafUnder key v) (found : v.field? key = some i) :
    HasIdentity key v i := by
  have valid : i.Valid := field?_valid leaf.valid key i found
  exact ⟨leaf, valid, i, found, Value.same_refl valid⟩

theorem meets_eq (vHas : HasIdentity key v i) (wHas : HasIdentity key w j) :
    Meets key v w = i.same j := by
  obtain ⟨i', vFound, iSame⟩ := vHas.found
  obtain ⟨j', wFound, jSame⟩ := wHas.found
  have i'Valid : i'.Valid := field?_valid vHas.leaf.valid key i' vFound
  have j'Valid : j'.Valid := field?_valid wHas.leaf.valid key j' wFound
  have isSame : Meets key v w = i'.same j' := by rw [Meets, vFound, wFound, sameFound]
  rw [isSame, Bool.eq_iff_iff]
  constructor
  · intro same
    have back : i.same i' := Value.same_symm i'Valid vHas.valid iSame
    exact Value.same_trans vHas.valid i'Valid wHas.valid back
      (Value.same_trans i'Valid j'Valid wHas.valid same jSame)
  · intro same
    have back : j.same j' := Value.same_symm j'Valid wHas.valid jSame
    exact Value.same_trans i'Valid vHas.valid j'Valid iSame
      (Value.same_trans vHas.valid wHas.valid j'Valid same back)

theorem kept (vHas : HasIdentity key v i) (keeps : Keeps key v w) : HasIdentity key w i := by
  obtain ⟨i', vFound, iSame⟩ := vHas.found
  have meet : Meets key v w := keeps.meets
  rw [Meets, vFound] at meet
  cases wFound : w.field? key with
  | none => simp [wFound, sameFound] at meet
  | some j =>
      rw [wFound, sameFound] at meet
      have i'Valid : i'.Valid := field?_valid keeps.left.valid key i' vFound
      have jValid : j.Valid := field?_valid keeps.right.valid key j wFound
      refine ⟨keeps.right, vHas.valid, j, wFound, ?_⟩
      exact Value.same_trans jValid i'Valid vHas.valid (Value.same_symm i'Valid jValid meet) iSame

end HasIdentity

theorem hasIdentities {key : String} {items : List Value} (leaves : ∀ v ∈ items, LeafUnder key v)
    (all : ∀ v ∈ items, hasKey key v) :
    List.Forall₂ (HasIdentity key) items (identities key items) := by
  induction items with
  | nil => exact .nil
  | cons v items ih =>
      obtain ⟨i, found⟩ := Option.isSome_iff_exists.mp (all v (List.mem_cons_self ..))
      have first : identities key (v :: items) = i :: identities key items :=
        List.filterMap_cons_some found
      rw [first]
      refine .cons (.of_field? (leaves v (List.mem_cons_self ..)) found) (ih ?_ ?_)
      · exact fun w member => leaves w (List.mem_cons_of_mem _ member)
      · exact fun w member => all w (List.mem_cons_of_mem _ member)

theorem allKept {key : String} {zs zs' is : List Value} (has : List.Forall₂ (HasIdentity key) zs is)
    (keeps : List.Forall₂ (Keeps key) zs zs') : List.Forall₂ (HasIdentity key) zs' is := by
  induction has generalizing zs' with
  | nil =>
      cases keeps
      exact .nil
  | cons here _ ih =>
      cases keeps with
      | cons keepsHead keepsTail => exact .cons (here.kept keepsHead) (ih keepsTail)

/-- An item is changed only if it is the first one with the identity that comes in. -/
theorem putItem_getElem? {key : String} {y : Value} (change : Value → Value) (fresh : Value)
    {zs : List Value} {n : Nat} {z : Value} (here : zs[n]? = some z)
    (spared : Meets key z y = false ∨ ∃ m < n, ∃ z', zs[m]? = some z' ∧ Meets key z' y) :
    (putItem key (y.field? key) change fresh zs)[n]? = some z := by
  induction zs generalizing n with
  | nil => simp at here
  | cons head zs ih =>
      by_cases isFirst : Meets key head y
      · rw [putItem, if_pos isFirst]
        cases n with
        | zero =>
            have isHead : head = z := by simpa using here
            rcases spared with apart | ⟨m, before, _⟩
            · rw [isHead, apart] at isFirst
              simp at isFirst
            · exact absurd before (Nat.not_lt_zero m)
        | succ n => simpa using here
      · rw [putItem, if_neg isFirst]
        cases n with
        | zero => simpa using here
        | succ n =>
            rw [List.getElem?_cons_succ] at here ⊢
            refine ih here (spared.imp_right ?_)
            rintro ⟨m, before, z', there, meet⟩
            cases m with
            | zero =>
                have isHead : head = z' := by simpa using there
                exact absurd (isHead ▸ meet) isFirst
            | succ m => exact ⟨m, Nat.lt_of_succ_lt_succ before, z', by simpa using there, meet⟩

/-! ## All items -/

section Runs
variable (p : Precedence) {key : String}

theorem hasIdentities_mergeItems {zs is ys js : List Value}
    (there : List.Forall₂ (HasIdentity key) zs is) (coming : List.Forall₂ (HasIdentity key) ys js) :
    List.Forall₂ (HasIdentity key) (mergeItems p key zs ys) (is ++ newAmong is js) := by
  induction coming generalizing zs is with
  | nil =>
      have none : newAmong is [] = [] := rfl
      rw [mergeItems, none, List.append_nil]
      exact there
  | @cons y j ys js yHas coming ih =>
      have zsLeaves : ∀ z ∈ zs, LeafUnder key z := by
        intro z member
        obtain ⟨i, _, zHas⟩ := exists_of_forall₂ there.flip member
        exact zHas.leaf
      rw [mergeItems]
      by_cases met : ∃ z ∈ zs, Meets key z y
      · have keeps := allKept_putItem p yHas.leaf zsLeaves met
        have isKnown : ∃ i ∈ is, i.same j := by
          obtain ⟨z, member, meet⟩ := met
          obtain ⟨i, iMember, zHas⟩ := exists_of_forall₂ there.flip member
          exact ⟨i, iMember, zHas.meets_eq yHas ▸ meet⟩
        rw [newAmong_cons_of_known isKnown]
        exact ih (allKept there keeps)
      · have apart : ∀ z ∈ zs, Meets key z y = false := by simpa using met
        have isNew : ∀ i ∈ is, i.same j = false := by
          intro i member
          obtain ⟨z, zMember, zHas⟩ := exists_of_forall₂ there member
          exact zHas.meets_eq yHas ▸ apart z zMember
        have jsValid : ∀ i ∈ js, i.Valid := by
          intro i member
          obtain ⟨z, _, zHas⟩ := exists_of_forall₂ coming member
          exact zHas.valid
        have added := ih (List.rel_append there (.cons yHas .nil))
        rw [List.append_assoc, List.singleton_append] at added
        rw [putItem_of_apart _ _ apart, newAmong_cons_of_new yHas.valid jsValid isNew]
        exact added

def MetBefore (key : String) (zs : List Value) (n : Nat) (z : Value) : Prop :=
  ∃ m < n, ∃ z', zs[m]? = some z' ∧ Meets key z' z

section One
variable {zs : List Value} {y z : Value} {n : Nat} (yLeaf : LeafUnder key y)
  (zsLeaves : ∀ w ∈ zs, LeafUnder key w) (zLeaf : LeafUnder key z)
include yLeaf zsLeaves zLeaf

theorem MetBefore.of_meets (before : MetBefore key zs n z) (meet : Meets key z y) :
    MetBefore key zs n y := by
  obtain ⟨m, less, z', there, met⟩ := before
  have z'Leaf := zsLeaves z' (List.mem_of_getElem? there)
  refine ⟨m, less, z', there, ?_⟩
  rw [meets_congr_left z'Leaf.valid zLeaf.valid yLeaf.valid met]
  exact meet

theorem MetBefore.putItem (before : MetBefore key zs n z) :
    MetBefore key (putItem key (y.field? key) (fun old => merge p old y) y zs) n z := by
  obtain ⟨m, less, z', there, met⟩ := before
  obtain ⟨bound, isAt⟩ := List.getElem?_eq_some_iff.mp there
  by_cases known : ∃ w ∈ zs, Meets key w y
  · -- the item that is put may change the one in front, but not its identity
    obtain ⟨sameLength, kept⟩ := List.forall₂_iff_get.mp (allKept_putItem p yLeaf zsLeaves known)
    have keepsAt := kept m bound (sameLength ▸ bound)
    rw [List.get_eq_getElem, List.get_eq_getElem, isAt] at keepsAt
    refine ⟨m, less, _, List.getElem?_eq_getElem (sameLength ▸ bound), ?_⟩
    rw [← meets_congr_left keepsAt.left.valid keepsAt.right.valid zLeaf.valid keepsAt.meets]
    exact met
  · have apart : ∀ w ∈ zs, Meets key w y = false := by simpa using known
    rw [putItem_of_apart _ _ apart]
    refine ⟨m, less, z', ?_, met⟩
    rw [List.getElem?_append_left bound]
    exact there

end One

/-- What an item meets among those in front of it, or fails to meet among those that come in, stays
so through each step of a merge. -/
theorem mergeItems_getElem? {zs ys : List Value} (zsLeaves : ∀ z ∈ zs, LeafUnder key z)
    (ysLeaves : ∀ y ∈ ys, LeafUnder key y) {n : Nat} {z : Value} (here : zs[n]? = some z)
    (spared : MetBefore key zs n z ∨ ∀ y ∈ ys, Meets key z y = false) :
    (mergeItems p key zs ys)[n]? = some z := by
  induction ys generalizing zs with
  | nil =>
      rw [mergeItems]
      exact here
  | cons y ys ih =>
      have yLeaf := ysLeaves y (List.mem_cons_self ..)
      have zLeaf := zsLeaves z (List.mem_of_getElem? here)
      have tailLeaves : ∀ w ∈ ys, LeafUnder key w := fun w member =>
        ysLeaves w (List.mem_cons_of_mem _ member)
      have sparedByHead : Meets key z y = false ∨ MetBefore key zs n y := by
        rcases spared with before | apart
        · by_cases meet : Meets key z y
          · exact Or.inr (before.of_meets yLeaf zsLeaves zLeaf meet)
          · exact Or.inl (by simpa using meet)
        · exact Or.inl (apart y (List.mem_cons_self ..))
      have sparedByTail :
          MetBefore key (putItem key (y.field? key) (fun old => merge p old y) y zs) n z ∨
            ∀ w ∈ ys, Meets key z w = false := by
        rcases spared with before | apart
        · exact Or.inl (before.putItem p yLeaf zsLeaves zLeaf)
        · exact Or.inr fun w member => apart w (List.mem_cons_of_mem _ member)
      rw [mergeItems]
      exact ih (leaves_putItem p yLeaf zsLeaves) tailLeaves
        (putItem_getElem? _ _ here sparedByHead) sparedByTail

end Runs

/-- Sequences that merge by key keep the identities that are there and add the new ones behind them,
each once.  An item that is not the first with its identity, or whose identity does not come in, is
left alone. -/
theorem identities_merge (p : Precedence) {key : String} {xs ys : List Value}
    (shared : sharedKey? xs ys = some key) (xsLeaves : ∀ x ∈ xs, LeafUnder key x)
    (ysLeaves : ∀ y ∈ ys, LeafUnder key y) :
    ∃ zs, merge p (.sequence xs) (.sequence ys) = .sequence zs ∧
      List.Forall₂ (HasIdentity key) zs
        (identities key xs ++ newAmong (identities key xs) (identities key ys)) ∧
      ∀ (n : Nat) (x : Value), xs[n]? = some x →
        (∃ m < n, ∃ x', xs[m]? = some x' ∧ Meets key x' x) ∨ (∀ y ∈ ys, Meets key x y = false) →
        zs[n]? = some x := by
  obtain ⟨_, xsHave, ysHave⟩ := sharedKey?_eq_some shared
  have merged : merge p (.sequence xs) (.sequence ys) = .sequence (mergeItems p key xs ys) := by
    rw [merge, shared]
  refine ⟨mergeItems p key xs ys, merged, ?_, ?_⟩
  · exact hasIdentities_mergeItems p (hasIdentities xsLeaves xsHave) (hasIdentities ysLeaves ysHave)
  · intro n x here spared
    exact mergeItems_getElem? p xsLeaves ysLeaves here spared

def labels (items : List (String × String)) : List Value :=
  items.map fun item =>
    .mapping [(.string "name", .string item.1), (.string "value", .string item.2)]

theorem leafUnder_labels (items : List (String × String)) :
    ∀ v ∈ labels items, LeafUnder "name" v := by
  intro v member
  obtain ⟨item, _, rfl⟩ := List.mem_map.mp member
  refine ⟨by simp [Value.same], fun i found => ?_⟩
  have isName : i = .string item.1 := by
    simpa [Value.field?, Value.entries?, Value.untagged, Yaml.Mapping.field?, Yaml.Mapping.get?,
      Value.same, eq_comm] using found
  rw [isName]
  rfl

/-- Both sides repeat an identity.  The second `a` is left alone, and `c` comes in once. -/
theorem identities_merge_repeated :
    sharedKey? (labels [("a", "1"), ("b", "2"), ("a", "3")])
      (labels [("c", "4"), ("a", "5"), ("c", "6")]) = some "name" ∧
    (∀ x ∈ labels [("a", "1"), ("b", "2"), ("a", "3")], LeafUnder "name" x) ∧
    (∀ y ∈ labels [("c", "4"), ("a", "5"), ("c", "6")], LeafUnder "name" y) ∧
    ∃ zs, merge .overlay (.sequence (labels [("a", "1"), ("b", "2"), ("a", "3")]))
        (.sequence (labels [("c", "4"), ("a", "5"), ("c", "6")])) = .sequence zs ∧
      List.Forall₂ (HasIdentity "name") zs
        [.string "a", .string "b", .string "a", .string "c"] ∧
      zs[2]? = (labels [("a", "3")])[0]? := by
  have shared : sharedKey? (labels [("a", "1"), ("b", "2"), ("a", "3")])
      (labels [("c", "4"), ("a", "5"), ("c", "6")]) = some "name" := by rfl
  have xsLeaves := leafUnder_labels [("a", "1"), ("b", "2"), ("a", "3")]
  have ysLeaves := leafUnder_labels [("c", "4"), ("a", "5"), ("c", "6")]
  obtain ⟨zs, merged, identities, spared⟩ :=
    identities_merge .overlay shared xsLeaves ysLeaves
  refine ⟨shared, xsLeaves, ysLeaves, zs, merged, identities, ?_⟩
  exact spared 2 _ rfl (Or.inl ⟨0, by decide, _, rfl, rfl⟩)

end ChartInflation.Values
