import ChartInflation.Proofs.Yaml.Lookup

/-!
# Trees up to order

Two trees are reorderings of one another if they differ at most in the order in which mappings have
their entries and sequences their items.  Valid mappings are so as soon as they hold the same under
each key, up to order (`reordered_mappings`).
-/

set_option autoImplicit false

namespace ChartInflation.Yaml

/-- If each item has a partner on the other side, and none has two, the second list can be put in
the order of the first one. -/
theorem exists_order_of_partners {α β : Type} {partner : α → β → Prop} {xs : List α} {ys : List β}
    (forth : ∀ x ∈ xs, ∃ y ∈ ys, partner x y) (back : ∀ y ∈ ys, ∃ x ∈ xs, partner x y)
    (xsApart : xs.Pairwise fun x x' => ∀ y ∈ ys, partner x y → ¬ partner x' y)
    (ysApart : ys.Pairwise fun y y' => ∀ x ∈ xs, partner x y → ¬ partner x y') :
    ∃ zs, List.Forall₂ partner xs zs ∧ zs.Perm ys := by
  induction xs generalizing ys with
  | nil =>
      have empty : ys = [] := by
        refine List.eq_nil_iff_forall_not_mem.mpr fun y member => ?_
        obtain ⟨x, inNil, _⟩ := back y member
        simp at inNil
      exact ⟨[], .nil, by rw [empty]⟩
  | cons x xs ih =>
      -- the partner of the head is taken out, the others keep theirs
      obtain ⟨y, member, isPartner⟩ := forth x (List.mem_cons_self ..)
      obtain ⟨front, rest, rfl⟩ := List.append_of_mem member
      obtain ⟨headApart, tailApart⟩ := List.pairwise_cons.mp xsApart
      have fewer : (front ++ rest).Sublist (front ++ y :: rest) :=
        (List.sublist_cons_self y rest).append_left front
      have only : ∀ z ∈ front ++ rest, ¬ partner x z := by
        intro z zMember isPartner'
        obtain ⟨_, restApart, across⟩ := List.pairwise_append.mp ysApart
        rcases List.mem_append.mp zMember with inFront | inRest
        · exact across z inFront y (List.mem_cons_self ..) x (List.mem_cons_self ..) isPartner'
            isPartner
        · exact (List.pairwise_cons.mp restApart).1 z inRest x (List.mem_cons_self ..) isPartner
            isPartner'
      have others : ∃ zs, List.Forall₂ partner xs zs ∧ zs.Perm (front ++ rest) := by
        refine ih ?_ ?_ ?_ ?_
        · intro x' x'Member
          obtain ⟨z, zMember, isPartner'⟩ := forth x' (List.mem_cons_of_mem _ x'Member)
          have different : z ≠ y := by
            rintro rfl
            exact headApart x' x'Member z zMember isPartner isPartner'
          exact ⟨z, by simpa [different] using zMember, isPartner'⟩
        · intro z zMember
          obtain ⟨x', x'Member, isPartner'⟩ := back z (fewer.subset zMember)
          rcases List.mem_cons.mp x'Member with rfl | inTail
          · exact absurd isPartner' (only z zMember)
          · exact ⟨x', inTail, isPartner'⟩
        · exact tailApart.imp fun apart z zMember => apart z (fewer.subset zMember)
        · exact (ysApart.sublist fewer).imp fun apart x' x'Member =>
            apart x' (List.mem_cons_of_mem _ x'Member)
      obtain ⟨zs, partners, order⟩ := others
      exact ⟨y :: zs, .cons isPartner partners, (order.cons y).trans List.perm_middle.symm⟩

namespace Value

/-- The trees are equal up to the order of the entries of mappings and of the items of sequences, at
any depth. -/
inductive Reordered : Value → Value → Prop where
  | same {v w : Value} (equal : v.same w) : Reordered v w
  | sequence {xs ys zs : List Value} (items : List.Forall₂ Reordered xs ys) (order : ys.Perm zs) :
      Reordered (.sequence xs) (.sequence zs)
  | mapping {es fs gs : Mapping}
      (keys : List.Forall₂ (fun k l : Value => k.same l) (es.map Prod.fst) (fs.map Prod.fst))
      (values : List.Forall₂ Reordered (es.map Prod.snd) (fs.map Prod.snd)) (order : fs.Perm gs) :
      Reordered (.mapping es) (.mapping gs)

theorem reordered_refl {v : Value} (valid : v.Valid) : Reordered v v :=
  .same (same_refl valid)

def EntryReordered (e f : Value × Value) : Prop :=
  e.1.same f.1 ∧ Reordered e.2 f.2

theorem rel_flip {α β : Type} {related : α → β → Prop} {a : Option α} {b : Option β}
    (both : Option.Rel related a b) : Option.Rel (fun y x => related x y) b a := by
  cases both with
  | some inside => exact .some inside
  | none => exact .none

/-- If two mappings are related under each key, each entry is related to one under its key. -/
theorem exists_same_key {related : Value → Value → Prop} {es fs : Mapping}
    (esValid : (Value.mapping es).Valid)
    (found : ∀ k : Value, k.Valid → Option.Rel related (Mapping.get? es k) (Mapping.get? fs k))
    {e : Value × Value} (member : e ∈ es) : ∃ f ∈ fs, f.1.same e.1 ∧ related e.2 f.2 := by
  have both := found e.1 (esValid.key member)
  rw [Mapping.get?_self esValid member] at both
  cases there : Mapping.get? fs e.1 with
  | none =>
      rw [there] at both
      cases both
  | some w =>
      rw [there] at both
      obtain ⟨f, fMember, keys, rfl⟩ := Mapping.mem_of_get? there
      cases both with
      | some values => exact ⟨f, fMember, keys, values⟩

theorem Valid.not_both {es : Mapping} (valid : (Value.mapping es).Valid) :
    es.Pairwise fun e e' => ∀ k : Value, k.Valid → e.1.same k → ¬ e'.1.same k := by
  refine valid.distinct.imp_of_mem fun {e e'} eMember e'Member apart k kValid first second => ?_
  have e'Key := valid.key e'Member
  have around := same_trans (valid.key eMember) kValid e'Key first (same_symm e'Key kValid second)
  simp [apart] at around

/-- Two mappings that hold the same under each key, up to order, are equal up to order. -/
theorem reordered_mappings {es fs : Mapping} (esValid : (Value.mapping es).Valid)
    (fsValid : (Value.mapping fs).Valid)
    (found : ∀ k : Value, k.Valid →
      Option.Rel Reordered (Mapping.get? es k) (Mapping.get? fs k)) :
    Reordered (.mapping es) (.mapping fs) := by
  have forth : ∀ e ∈ es, ∃ f ∈ fs, EntryReordered e f := by
    intro e member
    obtain ⟨f, fMember, keys, values⟩ := exists_same_key esValid found member
    exact ⟨f, fMember, same_symm (fsValid.key fMember) (esValid.key member) keys, values⟩
  have back : ∀ f ∈ fs, ∃ e ∈ es, EntryReordered e f := by
    intro f member
    exact exists_same_key fsValid (fun k valid => rel_flip (found k valid)) member
  have esApart : es.Pairwise fun e e' => ∀ f ∈ fs, EntryReordered e f → ¬ EntryReordered e' f :=
    esValid.not_both.imp fun notBoth f member first second =>
      notBoth f.1 (fsValid.key member) first.1 second.1
  have fsApart : fs.Pairwise fun f f' => ∀ e ∈ es, EntryReordered e f → ¬ EntryReordered e f' := by
    refine fsValid.not_both.imp_of_mem fun {f f'} fMember f'Member notBoth e member first second => ?_
    have eKey := esValid.key member
    exact notBoth e.1 eKey (same_symm eKey (fsValid.key fMember) first.1)
      (same_symm eKey (fsValid.key f'Member) second.1)
  obtain ⟨gs, entries, order⟩ := exists_order_of_partners forth back esApart fsApart
  refine .mapping ?_ ?_ order
  · rw [List.forall₂_map_left_iff, List.forall₂_map_right_iff]
    exact entries.imp fun _ _ both => both.1
  · rw [List.forall₂_map_left_iff, List.forall₂_map_right_iff]
    exact entries.imp fun _ _ both => both.2

end Value

end ChartInflation.Yaml
