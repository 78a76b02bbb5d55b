import ChartInflation.Proofs.Values.BaseKept
import ChartInflation.Proofs.Values.Places
import ChartInflation.Proofs.Yaml.Reordering

/-!
# The two precedences

An overlay that wins and a base that wins are one merge seen from two sides: of two identified trees
the merge does not depend on which of them is there and which comes in, only on which of them wins,
up to the order of entries and items (`merged_dual`).
-/

set_option autoImplicit false

namespace ChartInflation.Values

open Yaml (Value Mapping)
open Yaml.Value (Reordered reordered_refl)

/-! ## Sequences by identity -/

def ItemReordered (key : String) (x y : Value) : Prop :=
  Meets key x y ∧ Reordered x y

/-- If two sequences are related under each identity, each item is related to one that it meets. -/
theorem exists_met {related : Value → Value → Prop} {key : String} {xs ys : List Value}
    (xsApart : Apart key xs)
    (found : ∀ i, FoundValid i → Option.Rel related (itemAt? key i xs) (itemAt? key i ys))
    {x : Value} (member : x ∈ xs) : ∃ y ∈ ys, Meets key y x ∧ related x y := by
  have both := found (x.field? key) (field?_valid (xsApart.valid x member) key)
  rw [itemAt?_self xsApart.valid xsApart.distinct member] at both
  cases there : itemAt? key (x.field? key) ys with
  | none =>
      rw [there] at both
      cases both
  | some y =>
      rw [there] at both
      cases both with
      | some inside =>
          exact ⟨y, List.mem_of_find?_eq_some there, itemAt?_identity there, inside⟩

theorem Apart.not_both {key : String} {xs : List Value} (apart : Apart key xs) :
    xs.Pairwise fun x x' => ∀ v, v.Valid → Meets key x v → ¬ Meets key x' v := by
  refine apart.distinct.imp_of_mem fun {x x'} xMember x'Member differ v vValid first second => ?_
  have meet : Meets key x x' := by
    rw [meets_congr_right (apart.valid x xMember) (apart.valid x' x'Member) vValid second]
    exact first
  simp [differ] at meet

/-- Two sequences of items that differ from one another are equal up to order if they hold the same
under each identity. -/
theorem reordered_sequences {key : String} {xs ys : List Value} (xsApart : Apart key xs)
    (ysApart : Apart key ys)
    (found : ∀ i, FoundValid i → Option.Rel Reordered (itemAt? key i xs) (itemAt? key i ys)) :
    Reordered (.sequence xs) (.sequence ys) := by
  have meetsBack : ∀ x ∈ xs, ∀ y ∈ ys, Meets key x y = Meets key y x := fun x xMember y yMember =>
    meets_comm (xsApart.valid x xMember) (ysApart.valid y yMember)
  have forth : ∀ x ∈ xs, ∃ y ∈ ys, ItemReordered key x y := by
    intro x member
    obtain ⟨y, yMember, meet, inside⟩ := exists_met xsApart found member
    exact ⟨y, yMember, (meetsBack x member y yMember).trans meet, inside⟩
  have back : ∀ y ∈ ys, ∃ x ∈ xs, ItemReordered key x y := by
    intro y member
    obtain ⟨x, xMember, meet, inside⟩ :=
      exists_met ysApart (fun i valid => Yaml.Value.rel_flip (found i valid)) member
    exact ⟨x, xMember, meet, inside⟩
  have xsDiffer : xs.Pairwise fun x x' =>
      ∀ y ∈ ys, ItemReordered key x y → ¬ ItemReordered key x' y :=
    xsApart.not_both.imp fun notBoth y yMember first second =>
      notBoth y (ysApart.valid y yMember) first.1 second.1
  have ysDiffer : ys.Pairwise fun y y' =>
      ∀ x ∈ xs, ItemReordered key x y → ¬ ItemReordered key x y' := by
    refine ysApart.not_both.imp_of_mem fun {y y'} yMember y'Member notBoth x xMember first second => ?_
    have firstBack := (meetsBack x xMember y yMember).symm.trans first.1
    have secondBack := (meetsBack x xMember y' y'Member).symm.trans second.1
    exact notBoth x (xsApart.valid x xMember) firstBack secondBack
  obtain ⟨zs, partners, order⟩ := Yaml.exists_order_of_partners forth back xsDiffer ysDiffer
  exact .sequence (partners.imp fun _ _ both => both.2) order

/-! ## The items of a merge -/

theorem sharedKey?_comm (xs ys : List Value) : sharedKey? xs ys = sharedKey? ys xs := by
  have sameItems : ∀ key, (xs ++ ys).all (hasKey key) = (ys ++ xs).all (hasKey key) := by
    intro key
    rw [List.all_append, List.all_append, Bool.and_comm]
  simp only [sharedKey?, sameItems, Bool.or_comm]

/-- Items that differ from one another still do so after others were merged into them. -/
theorem apart_mergeItems (p : Precedence) {key : String} {xs ys : List Value}
    (xsApart : Apart key xs) (xsLeaves : ∀ x ∈ xs, LeafUnder key x)
    (ysLeaves : ∀ y ∈ ys, LeafUnder key y) : Apart key (mergeItems p key xs ys) := by
  induction ys generalizing xs with
  | nil =>
      rw [mergeItems]
      exact xsApart
  | cons y ys ih =>
      have yLeaf := ysLeaves y (List.mem_cons_self ..)
      have tailLeaves : ∀ z ∈ ys, LeafUnder key z := fun z member =>
        ysLeaves z (List.mem_cons_of_mem _ member)
      rw [mergeItems]
      refine ih ?_ (leaves_putItem p yLeaf xsLeaves) tailLeaves
      by_cases met : ∃ x ∈ xs, Meets key x y
      · obtain ⟨x, member, meet⟩ := met
        obtain ⟨front, back, rfl⟩ := List.append_of_mem member
        have xLeaf := xsLeaves x member
        have frontApart : ∀ z ∈ front, Meets key z y = false := fun z inFront =>
          xsApart.others_miss yLeaf.valid meet (Or.inl inFront)
        rw [putItem_append (fun old => merge p old y) y back frontApart meet]
        have kept := keeps_merge p xLeaf yLeaf meet
        refine xsApart.change kept.right.valid fun z zValid => ?_
        exact (meets_congr_left xLeaf.valid kept.right.valid zValid kept.meets).symm
      · have new : ∀ x ∈ xs, Meets key x y = false := by simpa using met
        rw [putItem_of_apart _ y new]
        exact xsApart.add yLeaf.valid new

/-! ## One merge, two sides -/

/-- Where both sides hold something, the two merges of it are equal up to order, and elsewhere both
merges hold what one side has. -/
theorem mergeFound_dual {v w : Option Value} (vValid : FoundValid v) (wValid : FoundValid w)
    (both : ∀ x y, v = some x → w = some y →
      Reordered (merge .overlay x y) (merge .base y x)) :
    Option.Rel Reordered (mergeFound .overlay v w) (mergeFound .base w v) := by
  cases v with
  | none =>
      cases w with
      | none => exact .none
      | some y => exact .some (reordered_refl (wValid y rfl))
  | some x =>
      cases w with
      | none => exact .some (reordered_refl (vValid x rfl))
      | some y => exact .some (both x y rfl rfl)

theorem merge_dual_mappings {es fs : Mapping} (esValid : (Value.mapping es).Valid)
    (fsValid : (Value.mapping fs).Valid)
    (values : ∀ f ∈ fs, ∀ v, Mapping.get? es f.1 = some v →
      Reordered (merge .overlay v f.2) (merge .base f.2 v)) :
    Reordered (merge .overlay (.mapping es) (.mapping fs))
      (merge .base (.mapping fs) (.mapping es)) := by
  have overlayValid := merge_valid .overlay esValid fsValid
  have baseValid := merge_valid .base fsValid esValid
  rw [merge] at overlayValid baseValid
  rw [merge, merge]
  refine Value.reordered_mappings overlayValid baseValid fun k kValid => ?_
  rw [get?_mergeEntries .overlay (fun _ => esValid.key) fsValid kValid,
    get?_mergeEntries .base (fun _ => fsValid.key) esValid kValid]
  refine mergeFound_dual (fun _ => Mapping.get?_valid esValid) (fun _ => Mapping.get?_valid fsValid) ?_
  intro v w left right
  obtain ⟨f, member, keys, rfl⟩ := Mapping.mem_of_get? right
  refine values f member v ?_
  rw [Mapping.get?_congr (fun _ => esValid.key) (fsValid.key member) kValid keys]
  exact left

theorem merge_dual_sequences {xs ys : List Value} (xsTold : ToldApart xs) (ysTold : ToldApart ys)
    (items : ∀ x ∈ xs, ∀ y ∈ ys, Reordered (merge .overlay x y) (merge .base y x)) :
    Reordered (merge .overlay (.sequence xs) (.sequence ys))
      (merge .base (.sequence ys) (.sequence xs)) := by
  cases shared : sharedKey? xs ys with
  | none =>
      have turned : sharedKey? ys xs = none := (sharedKey?_comm ys xs).trans shared
      rw [merge, merge, shared, turned]
      exact reordered_refl (.sequence ysTold.valid)
  | some key =>
      have turned : sharedKey? ys xs = some key := (sharedKey?_comm ys xs).trans shared
      obtain ⟨isKey, xsHave, ysHave⟩ := sharedKey?_eq_some shared
      have xsApart := xsTold.apart isKey xsHave
      have ysApart := ysTold.apart isKey ysHave
      have xsLeaves : ∀ x ∈ xs, LeafUnder key x := fun x member =>
        ⟨xsTold.valid x member, fun _ => xsTold.isLeaf isKey member⟩
      have ysLeaves : ∀ y ∈ ys, LeafUnder key y := fun y member =>
        ⟨ysTold.valid y member, fun _ => ysTold.isLeaf isKey member⟩
      -- an item keeps its identity in either merge, so both can be looked up
      have keeps : ∀ (p : Precedence) {us vs : List Value}, (∀ u ∈ us, LeafUnder key u) →
          (∀ v ∈ vs, LeafUnder key v) → ∀ v ∈ vs, ∀ u, itemAt? key (v.field? key) us = some u →
          sameFound ((merge p u v).field? key) (v.field? key) := by
        intro p us vs usLeaves vsLeaves v vMember u found
        have uLeaf := usLeaves u (List.mem_of_find?_eq_some found)
        exact meets_merge p uLeaf.valid (vsLeaves v vMember).valid uLeaf.leaf (itemAt?_identity found)
      rw [merge, merge, shared, turned]
      refine reordered_sequences (apart_mergeItems .overlay xsApart xsLeaves ysLeaves)
        (apart_mergeItems .base ysApart ysLeaves xsLeaves) fun i iValid => ?_
      rw [itemAt?_mergeItems .overlay xsApart.valid ysApart.valid ysApart.distinct
          (keeps .overlay xsLeaves ysLeaves) iValid,
        itemAt?_mergeItems .base ysApart.valid xsApart.valid xsApart.distinct
          (keeps .base ysLeaves xsLeaves) iValid]
      refine mergeFound_dual (itemAt?_valid xsApart.valid) (itemAt?_valid ysApart.valid) ?_
      intro x y left right
      exact items x (List.mem_of_find?_eq_some left) y (List.mem_of_find?_eq_some right)

theorem merge_dual_of_isLeaf {w : Value} (wValid : w.Valid) (leaf : w.isLeaf) (v : Value) :
    Reordered (merge .overlay v w) (merge .base w v) := by
  have overlay : merge .overlay v w = w := prevail_of_isLeaf (p := .overlay) leaf v
  have base : merge .base w v = w := prevail_of_isLeaf (p := .base) leaf v
  rw [overlay, base]
  exact reordered_refl wValid

/-- What wins a merge does not depend on which side it is on, up to order. -/
theorem merge_dual {v w : Value} (vValid : v.Valid) (wValid : w.Valid) (vIdentified : isIdentified v)
    (wIdentified : isIdentified w) : Reordered (merge .overlay v w) (merge .base w v) := by
  induction wValid generalizing v with
  | @mapping fs distinct keysValid valuesValid _ values =>
      have fsValid := Value.Valid.mapping distinct keysValid valuesValid
      by_cases isMapping : ∃ es, v = .mapping es
      · obtain ⟨es, rfl⟩ := isMapping
        have vInside := (isIdentified_mapping_iff es).mp vIdentified
        have wInside := (isIdentified_mapping_iff fs).mp wIdentified
        refine merge_dual_mappings vValid fsValid fun f member x found => ?_
        obtain ⟨e, eMember, _, isValue⟩ := Mapping.mem_of_get? found
        exact values f member (Mapping.get?_valid vValid found) (isValue ▸ vInside e eMember)
          (wInside f member)
      · have noMapping : ∀ es, v ≠ .mapping es := fun es isIt => isMapping ⟨es, isIt⟩
        have overlay : merge .overlay v (.mapping fs) = .mapping fs :=
          prevail_mapping_of_other (p := .overlay) fs noMapping
        have base : merge .base (.mapping fs) v = .mapping fs :=
          prevail_mapping_of_other (p := .base) fs noMapping
        rw [overlay, base]
        exact reordered_refl fsValid
  | @sequence ys valid items =>
      by_cases isSequence : ∃ xs, v = .sequence xs
      · obtain ⟨xs, rfl⟩ := isSequence
        have xsTold := toldApart_of_identified (fun _ => vValid.item) vIdentified
        have vInside := ((isIdentified_sequence_iff xs).mp vIdentified).2
        have wInside := ((isIdentified_sequence_iff ys).mp wIdentified).2
        refine merge_dual_sequences xsTold (toldApart_of_identified valid wIdentified) ?_
        intro x xMember y yMember
        exact items y yMember (vValid.item xMember) (vInside x xMember) (wInside y yMember)
      · have noSequence : ∀ xs, v ≠ .sequence xs := fun xs isIt => isSequence ⟨xs, isIt⟩
        rw [merge_eq_choose (by simp) (fun xs _ isIt => absurd isIt (noSequence xs)),
          merge_eq_choose (by simp) (fun _ xs _ => noSequence xs)]
        exact reordered_refl (.sequence valid)
  | _ => exact merge_dual_of_isLeaf (by simp [*]) rfl v

theorem isIdentified_rootOf {v : Value} (identified : isIdentified v) : isIdentified (rootOf v) := by
  unfold rootOf
  split
  · exact (isIdentified_mapping_iff []).mpr (by simp)
  · exact identified

/-- An overlay that wins over a base, and the same values as a base that wins over an overlay, merge
to the same tree, up to the order of entries and items. -/
theorem merged_dual {base overlay : Value} (baseValid : base.Valid) (overlayValid : overlay.Valid)
    (baseIdentified : isIdentified base) (overlayIdentified : isIdentified overlay) :
    Reordered (merged base overlay .overlay) (merged overlay base .base) := by
  rw [merged, merged]
  exact merge_dual (rootOf_valid baseValid) (rootOf_valid overlayValid)
    (isIdentified_rootOf baseIdentified) (isIdentified_rootOf overlayIdentified)

/-- The two merges hold the same ports, but not in the same order. -/
theorem merged_dual_ports :
    (ports [("web", 80), ("admin", 81)]).Valid ∧ (ports [("metrics", 90), ("web", 8080)]).Valid ∧
    isIdentified (ports [("web", 80), ("admin", 81)]) ∧
    isIdentified (ports [("metrics", 90), ("web", 8080)]) ∧
    Reordered
      (merged (ports [("web", 80), ("admin", 81)]) (ports [("metrics", 90), ("web", 8080)]) .overlay)
      (merged (ports [("metrics", 90), ("web", 8080)]) (ports [("web", 80), ("admin", 81)]) .base) ∧
    merged (ports [("web", 80), ("admin", 81)]) (ports [("metrics", 90), ("web", 8080)]) .overlay =
      ports [("web", 8080), ("admin", 81), ("metrics", 90)] ∧
    merged (ports [("metrics", 90), ("web", 8080)]) (ports [("web", 80), ("admin", 81)]) .base =
      ports [("metrics", 90), ("web", 8080), ("admin", 81)] := by
  have baseValid : (ports [("web", 80), ("admin", 81)]).Valid := by
    simp [ports, Value.same, Value.int]
  have overlayValid : (ports [("metrics", 90), ("web", 8080)]).Valid := by
    simp [ports, Value.same, Value.int]
  have baseIdentified : isIdentified (ports [("web", 80), ("admin", 81)]) := by rfl
  have overlayIdentified : isIdentified (ports [("metrics", 90), ("web", 8080)]) := by rfl
  exact ⟨baseValid, overlayValid, baseIdentified, overlayIdentified,
    merged_dual baseValid overlayValid baseIdentified overlayIdentified, by rfl, by rfl⟩

end ChartInflation.Values
