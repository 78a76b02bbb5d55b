import ChartInflation.Proofs.Values.Entries

/-!
# Merging sequences by key

Items are merged into a sequence one after the other: into the first item of the same identity, or
at the end.  As long as a merged item keeps its identity and the incoming ones have pairwise
different identities, this is the merge of two mappings from identities to items
(`itemAt?_mergeItems`).  All merges of valid trees are valid (`merge_valid`).
-/

set_option autoImplicit false

namespace ChartInflation

open Yaml (Value Mapping)

namespace Values

/-! ## Identities -/

def FoundValid (found : Option Value) : Prop := ∀ v, found = some v → v.Valid

theorem sameFound_refl {i : Option Value} (valid : FoundValid i) : sameFound i i := by
  cases i with
  | none => rfl
  | some v => exact Value.same_refl (valid v rfl)

theorem sameFound_symm {i j : Option Value} (iValid : FoundValid i) (jValid : FoundValid j)
    (equal : sameFound i j) : sameFound j i := by
  cases i <;> cases j <;> simp only [sameFound, Bool.false_eq_true] at equal ⊢
  exact Value.same_symm (iValid _ rfl) (jValid _ rfl) equal

theorem sameFound_trans {i j k : Option Value} (iValid : FoundValid i) (jValid : FoundValid j)
    (kValid : FoundValid k) (first : sameFound i j) (second : sameFound j k) :
    sameFound i k := by
  cases i <;> cases j <;> cases k <;>
    simp only [sameFound, Bool.false_eq_true] at first second ⊢
  exact Value.same_trans (iValid _ rfl) (jValid _ rfl) (kValid _ rfl) first second

theorem entries?_valid {v : Value} (valid : v.Valid) {es : Mapping} (found : v.entries? = some es) :
    (Value.mapping es).Valid := by
  induction valid with
  | mapping distinct keys values =>
      have isIt : _ = es := Option.some.inj found
      exact isIt ▸ .mapping distinct keys values
  | tagged tag _ inner => exact inner found
  | _ => simp [Value.entries?, Value.untagged] at found

theorem field?_valid {v : Value} (valid : v.Valid) (name : String) :
    FoundValid (v.field? name) := by
  intro w found
  cases entries : v.entries? with
  | none => simp [Value.field?, entries] at found
  | some es =>
      simp only [Value.field?, entries] at found
      exact Mapping.get?_valid (entries?_valid valid entries) found

theorem get?_same {es fs : Mapping} (esValid : (Value.mapping es).Valid)
    (fsValid : (Value.mapping fs).Valid) (equal : (Value.mapping es).same (.mapping fs))
    {k : Value} (kValid : k.Valid) : sameFound (Mapping.get? es k) (Mapping.get? fs k) := by
  cases left : Mapping.get? es k with
  | some v =>
      obtain ⟨e, eMember, here, rfl⟩ := Mapping.mem_of_get? left
      obtain ⟨f, fMember, keys, values⟩ := Value.matched_of_same equal e eMember
      have eKey := esValid.key eMember
      have fKey := fsValid.key fMember
      rw [Mapping.get?_of_mem fsValid fMember kValid
        (Value.same_trans fKey eKey kValid (Value.same_symm eKey fKey keys) here)]
      exact values
  | none =>
      cases right : Mapping.get? fs k with
      | none => rfl
      | some w =>
          obtain ⟨f, fMember, here, rfl⟩ := Mapping.mem_of_get? right
          obtain ⟨e, eMember, keys, _⟩ := Value.matched_back
            (fun _ member => Value.lawful_of_valid (esValid.key member)) esValid fsValid equal
            f fMember
          have same := Value.same_trans (esValid.key eMember) (fsValid.key fMember) kValid keys here
          simp [(Mapping.get?_eq_none_iff es k).mp left e eMember] at same

theorem field?_same {v w : Value} (vValid : v.Valid) (wValid : w.Valid) (equal : v.same w)
    (name : String) : sameFound (v.field? name) (w.field? name) := by
  induction vValid generalizing w with
  | mapping distinct keys values =>
      obtain ⟨fs, rfl⟩ := Value.mapping_of_same equal
      exact get?_same (.mapping distinct keys values) wValid equal (.string name)
  | tagged tag _ inner =>
      obtain ⟨w, rfl, same⟩ := (Value.same_tagged_iff tag _ w).mp equal
      have inside := inner wValid.inner same
      exact inside
  | sequence _ =>
      obtain ⟨ys, rfl⟩ := Value.sequence_of_same equal
      rfl
  | null =>
      rw [(Value.same_null_iff w).mp equal]
      rfl
  | bool b =>
      rw [(Value.same_bool_iff b w).mp equal]
      rfl
  | number n =>
      obtain ⟨m, rfl, _⟩ := (Value.same_number_iff n w).mp equal
      rfl
  | string s =>
      rw [(Value.same_string_iff s w).mp equal]
      rfl

abbrev DifferUnder (key : String) (items : List Value) : Prop :=
  items.Pairwise fun v w => sameFound (v.field? key) (w.field? key) = false

def itemAt? (key : String) (identity : Option Value) (items : List Value) : Option Value :=
  items.find? fun item => sameFound (item.field? key) identity

theorem itemAt?_self {key : String} {items : List Value} (valid : ∀ v ∈ items, v.Valid)
    (distinct : DifferUnder key items)
    {item : Value} (member : item ∈ items) : itemAt? key (item.field? key) items = some item := by
  induction items with
  | nil => simp at member
  | cons head items ih =>
      obtain ⟨headApart, tailDistinct⟩ := List.pairwise_cons.mp distinct
      rcases List.mem_cons.mp member with rfl | member
      · have here := sameFound_refl (field?_valid (valid item (List.mem_cons_self ..)) key)
        simp [itemAt?, here]
      · have rest := ih (fun v h => valid v (List.mem_cons_of_mem _ h)) tailDistinct member
        rw [itemAt?, List.find?_cons_of_neg (by simp [headApart item member])]
        exact rest

theorem itemAt?_valid {key : String} {identity : Option Value} {items : List Value}
    (valid : ∀ v ∈ items, v.Valid) : FoundValid (itemAt? key identity items) :=
  fun v found => valid v (List.mem_of_find?_eq_some found)

theorem itemAt?_identity {key : String} {identity : Option Value} {items : List Value} {v : Value}
    (found : itemAt? key identity items = some v) : sameFound (v.field? key) identity := by
  simpa using List.find?_some found

theorem itemAt?_congr {key : String} {items : List Value} (valid : ∀ v ∈ items, v.Valid)
    {i j : Option Value} (iValid : FoundValid i) (jValid : FoundValid j) (equal : sameFound i j) :
    itemAt? key i items = itemAt? key j items := by
  induction items with
  | nil => rfl
  | cons v items ih =>
      have identityValid := field?_valid (valid v (List.mem_cons_self ..)) key
      have rest := ih fun w member => valid w (List.mem_cons_of_mem _ member)
      have agree : sameFound (v.field? key) i = sameFound (v.field? key) j := by
        rw [Bool.eq_iff_iff]
        constructor
        · intro same
          exact sameFound_trans identityValid iValid jValid same equal
        · intro same
          exact sameFound_trans identityValid jValid iValid same
            (sameFound_symm iValid jValid equal)
      simp only [itemAt?] at rest ⊢
      rw [List.find?_cons, List.find?_cons, agree, rest]

/-- Each item of a sequence is the first one with its identity, if those of an equal one are. -/
theorem itemAt?_of_same {key : String} {xs ys : List Value} (xsValid : (Value.sequence xs).Valid)
    (ysValid : (Value.sequence ys).Valid) (equal : (Value.sequence xs).same (.sequence ys))
    (distinct : DifferUnder key ys)
    {i : Nat} (left : i < xs.length) (right : i < ys.length) :
    itemAt? key (ys[i].field? key) xs = some xs[i] := by
  obtain ⟨length, items⟩ := (Value.same_sequences_iff xs ys).mp equal
  have xValid : ∀ j (bound : j < xs.length), xs[j].Valid :=
    fun j bound => xsValid.item (List.getElem_mem bound)
  have yValid : ∀ j (bound : j < ys.length), ys[j].Valid :=
    fun j bound => ysValid.item (List.getElem_mem bound)
  have same : ∀ j (inLeft : j < xs.length) (inRight : j < ys.length),
      sameFound (xs[j].field? key) (ys[j].field? key) := fun j inLeft inRight =>
    field?_same (xValid j inLeft) (yValid j inRight) (items j inLeft inRight) key
  have xsDistinct : DifferUnder key xs := by
    refine List.pairwise_iff_getElem.mpr fun j k inLeft inLeft' before => ?_
    have inRight : j < ys.length := length ▸ inLeft
    have inRight' : k < ys.length := length ▸ inLeft'
    have xj := field?_valid (xValid j inLeft) key
    have xk := field?_valid (xValid k inLeft') key
    have yj := field?_valid (yValid j inRight) key
    have yk := field?_valid (yValid k inRight') key
    rw [Bool.eq_false_iff]
    intro meet
    have around := sameFound_trans yj xj yk (sameFound_symm xj yj (same j inLeft inRight))
      (sameFound_trans xj xk yk meet (same k inLeft' inRight'))
    simp [List.pairwise_iff_getElem.mp distinct j k inRight inRight' before] at around
  have xIdentity := field?_valid (xValid i left) key
  have yIdentity := field?_valid (yValid i right) key
  have xsItems : ∀ x ∈ xs, x.Valid := fun _ member => xsValid.item member
  rw [← itemAt?_congr xsItems xIdentity yIdentity (same i left right)]
  exact itemAt?_self xsItems xsDistinct (List.getElem_mem left)

/-! ## One item -/

section PutItem
variable {key : String} {identity : Option Value} {change : Value → Value} {fresh : Value}

theorem mem_putItem {items : List Value} {v : Value}
    (member : v ∈ putItem key identity change fresh items) :
    (∃ old ∈ items, v = old ∨ v = change old) ∨ v = fresh := by
  induction items with
  | nil => simpa [putItem] using member
  | cons head items ih =>
      by_cases here : sameFound (head.field? key) identity
      · simp only [putItem, here, if_true, List.mem_cons] at member
        rcases member with rfl | member
        · exact Or.inl ⟨head, List.mem_cons_self .., Or.inr rfl⟩
        · exact Or.inl ⟨v, List.mem_cons_of_mem _ member, Or.inl rfl⟩
      · simp only [putItem, here, if_false, List.mem_cons, Bool.false_eq_true] at member
        rcases member with rfl | member
        · exact Or.inl ⟨v, List.mem_cons_self .., Or.inl rfl⟩
        · rcases ih member with ⟨old, oldMember, value⟩ | isFresh
          · exact Or.inl ⟨old, List.mem_cons_of_mem _ oldMember, value⟩
          · exact Or.inr isFresh

theorem putItem_valid {items : List Value} (valid : ∀ v ∈ items, v.Valid) (freshValid : fresh.Valid)
    (changeValid : ∀ v, v.Valid → (change v).Valid) :
    ∀ v ∈ putItem key identity change fresh items, v.Valid := by
  intro v member
  rcases mem_putItem member with ⟨old, oldMember, rfl | rfl⟩ | rfl
  · exact valid v oldMember
  · exact changeValid old (valid old oldMember)
  · exact freshValid

/-- Looking an identity up after an item was put, if the changed item keeps its own. -/
theorem itemAt?_putItem {items : List Value} (valid : ∀ v ∈ items, v.Valid)
    (identityValid : FoundValid identity) (freshIs : fresh.field? key = identity)
    (changeValid : ∀ v, v.Valid → (change v).Valid)
    (keeps : ∀ old, itemAt? key identity items = some old →
      sameFound ((change old).field? key) identity)
    {j : Option Value} (jValid : FoundValid j) :
    itemAt? key j (putItem key identity change fresh items) =
      if sameFound identity j then some (((itemAt? key identity items).map change).getD fresh)
      else itemAt? key j items := by
  -- an item with the identity that is put has the identity looked up if these two are equal
  have agree : ∀ v : Value, FoundValid (v.field? key) → sameFound (v.field? key) identity →
      sameFound (v.field? key) j = sameFound identity j := by
    intro v vValid here
    rw [Bool.eq_iff_iff]
    constructor
    · intro equal
      exact sameFound_trans identityValid vValid jValid
        (sameFound_symm vValid identityValid here) equal
    · intro equal
      exact sameFound_trans vValid identityValid jValid here equal
  induction items with
  | nil =>
      by_cases equal : sameFound identity j <;> simp [putItem, itemAt?, freshIs, equal]
  | cons head items ih =>
      have headValid := valid head (List.mem_cons_self ..)
      have headIdentity := field?_valid headValid key
      by_cases here : sameFound (head.field? key) identity
      · have changed := agree (change head) (field?_valid (changeValid head headValid) key)
          (keeps head (by simp [itemAt?, here]))
        have unchanged := agree head headIdentity here
        by_cases equal : sameFound identity j <;>
          simp [putItem, itemAt?, here, changed, unchanged, equal]
      · have rest := ih (fun v member => valid v (List.mem_cons_of_mem _ member)) fun old found =>
          keeps old (by simpa [itemAt?, here] using found)
        simp only [itemAt?] at rest
        by_cases equal : sameFound identity j
        · have apart : sameFound (head.field? key) j = false := by
            rw [Bool.eq_false_iff]
            intro same
            exact here (sameFound_trans headIdentity jValid identityValid same
              (sameFound_symm identityValid jValid equal))
          simp [putItem, itemAt?, here, apart, equal, rest]
        · simp [putItem, itemAt?, here, equal, rest, List.find?_cons]

end PutItem

theorem putItem_append {key : String} {identity : Option Value} (change : Value → Value)
    (fresh : Value) {front : List Value} {x : Value} (xs : List Value)
    (apart : ∀ v ∈ front, sameFound (v.field? key) identity = false)
    (here : sameFound (x.field? key) identity) :
    putItem key identity change fresh (front ++ x :: xs) = front ++ change x :: xs := by
  induction front with
  | nil => simp [putItem, here]
  | cons v front ih =>
      have rest := ih fun w member => apart w (List.mem_cons_of_mem _ member)
      simp [putItem, apart v (List.mem_cons_self ..), rest]

/-! ## Merges of valid trees -/

theorem merge_valid (p : Precedence) {v w : Value} (vValid : v.Valid) (wValid : w.Valid) :
    (merge p v w).Valid := by
  revert vValid wValid
  refine merge.induct p
    (fun v w => v.Valid → w.Valid → (merge p v w).Valid)
    (fun key xs ys => (∀ x ∈ xs, x.Valid) → (∀ y ∈ ys, y.Valid) →
      ∀ x ∈ mergeItems p key xs ys, x.Valid)
    (fun es fs => (Value.mapping es).Valid → (∀ f ∈ fs, f.1.Valid ∧ f.2.Valid) →
      (Value.mapping (mergeEntries p es fs)).Valid)
    ?mappings ?keyed ?plain ?conflict ?noItem ?item ?noEntry ?entry v w
  case mappings =>
    intro es fs entries esValid fsValid
    rw [merge]
    exact entries esValid fun f member => ⟨fsValid.key member, fsValid.value member⟩
  case keyed =>
    intro xs ys key shared items xsValid ysValid
    rw [merge, shared]
    exact .sequence (items (fun _ member => xsValid.item member) fun _ member =>
      ysValid.item member)
  case plain =>
    intro xs ys unshared xsValid ysValid
    rw [merge, unshared]
    cases p with
    | overlay => exact ysValid
    | base => exact xsValid
  case conflict =>
    intro v w noMappings noSequences vValid wValid
    rw [merge_eq_choose (fun es fs left right => noMappings es fs left right)
      (fun xs ys left right => noSequences xs ys left right)]
    cases p with
    | overlay => exact wValid
    | base => exact vValid
  case noItem =>
    intro key xs xsValid _
    exact xsValid
  case item =>
    intro key xs y rest change items xsValid valid
    have yValid := valid y (List.mem_cons_self ..)
    rw [mergeItems]
    exact items (putItem_valid xsValid yValid fun x xValid => change x xValid yValid)
      fun z member => valid z (List.mem_cons_of_mem _ member)
  case noEntry =>
    intro es esValid _
    exact esValid
  case entry =>
    intro es k v rest change entries esValid valid
    obtain ⟨kValid, vValid⟩ := valid (k, v) (List.mem_cons_self ..)
    rw [mergeEntries]
    exact entries (putEntry_valid esValid kValid vValid fun old oldValid =>
      change old oldValid vValid) fun f member => valid f (List.mem_cons_of_mem _ member)

theorem merge_sequences (p : Precedence) (xs ys : List Value) :
    ∃ zs, merge p (.sequence xs) (.sequence ys) = .sequence zs := by
  rw [merge]
  split
  · exact ⟨_, rfl⟩
  · cases p <;> exact ⟨_, rfl⟩

/-- Under each key a merge holds the merge of what the two hold there, unless the two are in
conflict. -/
theorem field?_merge (p : Precedence) {v w : Value} (vValid : v.Valid) (wValid : w.Valid)
    (key : String) : (merge p v w).field? key = mergeFound p (v.field? key) (w.field? key) ∨
      (merge p v w).field? key = (p.choose v w).field? key := by
  by_cases mappings : (∃ es, v = .mapping es) ∧ ∃ fs, w = .mapping fs
  · obtain ⟨⟨es, rfl⟩, fs, rfl⟩ := mappings
    left
    rw [merge]
    exact get?_mergeEntries p (fun _ => vValid.key) wValid (.string key)
  by_cases sequences : (∃ xs, v = .sequence xs) ∧ ∃ ys, w = .sequence ys
  · obtain ⟨⟨xs, rfl⟩, ys, rfl⟩ := sequences
    left
    obtain ⟨zs, merged⟩ := merge_sequences p xs ys
    rw [merged]
    rfl
  · right
    rw [merge_eq_choose (fun es fs left right => mappings ⟨⟨es, left⟩, fs, right⟩)
      (fun xs ys left right => sequences ⟨⟨xs, left⟩, ys, right⟩)]

/-! ## All items -/

/-- Items that keep their identities when they are merged, and of which no two that come in share
one, merge as the entries of mappings do. -/
theorem itemAt?_mergeItems (p : Precedence) {key : String} {xs ys : List Value}
    (xsValid : ∀ x ∈ xs, x.Valid) (ysValid : ∀ y ∈ ys, y.Valid)
    (distinct : DifferUnder key ys)
    (keeps : ∀ y ∈ ys, ∀ x, itemAt? key (y.field? key) xs = some x →
      sameFound ((merge p x y).field? key) (y.field? key))
    {j : Option Value} (jValid : FoundValid j) :
    itemAt? key j (mergeItems p key xs ys) =
      mergeFound p (itemAt? key j xs) (itemAt? key j ys) := by
  induction ys generalizing xs with
  | nil =>
      have nothing : itemAt? key j [] = none := rfl
      rw [mergeItems, nothing]
      cases itemAt? key j xs <;> rfl
  | cons y ys ih =>
      obtain ⟨apart, tailDistinct⟩ := List.pairwise_cons.mp distinct
      have yValid := ysValid y (List.mem_cons_self ..)
      have tailValid : ∀ z ∈ ys, z.Valid :=
        fun z member => ysValid z (List.mem_cons_of_mem _ member)
      have yIdentity := field?_valid yValid key
      have changeValid : ∀ x : Value, x.Valid → (merge p x y).Valid :=
        fun x xValid => merge_valid p xValid yValid
      have put : ∀ {i}, FoundValid i → itemAt? key i
            (putItem key (y.field? key) (fun x => merge p x y) y xs) = _ :=
        itemAt?_putItem xsValid yIdentity rfl changeValid (keeps y (List.mem_cons_self ..))
      -- a later item has another identity, so it meets what it met before the put
      have tailKeeps : ∀ z ∈ ys, ∀ x, itemAt? key (z.field? key)
            (putItem key (y.field? key) (fun x => merge p x y) y xs) = some x →
          sameFound ((merge p x z).field? key) (z.field? key) := by
        intro z member x found
        rw [put (field?_valid (tailValid z member) key), apart z member,
          if_neg Bool.false_ne_true] at found
        exact keeps z (List.mem_cons_of_mem _ member) x found
      rw [mergeItems,
        ih (putItem_valid xsValid yValid changeValid) tailValid tailDistinct tailKeeps, put jValid]
      by_cases here : sameFound (y.field? key) j
      · have absent : itemAt? key j ys = none := by
          refine List.find?_eq_none.mpr fun z member same => ?_
          have zIdentity := field?_valid (tailValid z member) key
          have around := sameFound_trans yIdentity jValid zIdentity here
            (sameFound_symm zIdentity jValid same)
          simp [apart z member] at around
        have isHead : itemAt? key j (y :: ys) = some y := by simp [itemAt?, here]
        rw [absent, isHead, if_pos here, itemAt?_congr xsValid yIdentity jValid here]
        cases itemAt? key j xs <;> rfl
      · have inTail : itemAt? key j (y :: ys) = itemAt? key j ys := by simp [itemAt?, here]
        rw [if_neg here, inTail]

/-- Two values merge item by item if they have the same identities in the same order. -/
structure Aligned (p : Precedence) (key : String) (x y : Value) : Prop where
  left : x.Valid
  right : y.Valid
  same : sameFound (x.field? key) (y.field? key)
  merged : sameFound ((merge p x y).field? key) (y.field? key)

/-- The items in front are those that were merged already. -/
theorem mergeItems_append (p : Precedence) {key : String} {xs ys : List Value}
    (aligned : List.Forall₂ (Aligned p key) xs ys)
    (distinct : DifferUnder key ys)
    (front : List Value)
    (apart : ∀ v ∈ front, ∀ y ∈ ys, sameFound (v.field? key) (y.field? key) = false) :
    mergeItems p key (front ++ xs) ys = front ++ List.zipWith (merge p) xs ys := by
  induction aligned generalizing front with
  | nil => simp [mergeItems]
  | @cons x y xs ys head rest ih =>
      obtain ⟨headApart, tailDistinct⟩ := List.pairwise_cons.mp distinct
      have rightValid : ∀ z ∈ ys, z.Valid := by
        intro z member
        obtain ⟨i, bound, rfl⟩ := List.getElem_of_mem member
        obtain ⟨length, pairs⟩ := List.forall₂_iff_get.mp rest
        exact (pairs i (length ▸ bound) bound).right
      have frontApart : ∀ v ∈ front ++ [merge p x y], ∀ z ∈ ys,
          sameFound (v.field? key) (z.field? key) = false := by
        intro v member z zMember
        rcases List.mem_append.mp member with inFront | isHead
        · exact apart v inFront z (List.mem_cons_of_mem _ zMember)
        · rw [List.mem_singleton.mp isHead, Bool.eq_false_iff]
          intro same
          have mergedValid := field?_valid (merge_valid p head.left head.right) key
          have yIdentity := field?_valid head.right key
          have zIdentity := field?_valid (rightValid z zMember) key
          have around := sameFound_trans yIdentity mergedValid zIdentity
            (sameFound_symm mergedValid yIdentity head.merged) same
          simp [headApart z zMember] at around
      have once := putItem_append (fun old => merge p old y) y xs
        (fun v member => apart v member y (List.mem_cons_self ..)) head.same
      have others := ih tailDistinct _ frontApart
      rw [List.append_assoc] at others
      rw [mergeItems, once]
      simpa using others

end Values

end ChartInflation
