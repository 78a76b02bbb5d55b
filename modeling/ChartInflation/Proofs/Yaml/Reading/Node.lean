import ChartInflation.Proofs.Yaml.Reading.Leaf

/-!
# From the tokens of a tree to its node

The grammar makes of the tokens of a tree a node that has the shape of the tree and its tags
(`parses_of_readable`), whatever tokens stand behind them.
-/

set_option autoImplicit false

namespace ChartInflation.Yaml

open Printer (nodeTokens itemTokens entryTokens keyPlace valuePlace isFlat numberText
  styleOf FrontReadable frontReadable_none frontReadable_some)

mutual

def nodeOf (tag? : Option Tag) : Value → Node
  | .null => .scalar (underTags tag?) .plain "null"
  | .bool b => .scalar (underTags tag?) .plain (if b then "true" else "false")
  | .number n => .scalar (underTags tag?) .plain (String.ofList (numberText n))
  | .string s => .scalar (underTags tag?) (styleOf s) s
  | .sequence vs => .sequence (underTags tag?) (itemNodes vs)
  | .mapping es => .mapping (underTags tag?) (entryNodes es)
  | .tagged tag v => nodeOf (some tag) v

def itemNodes : List Value → List Node
  | [] => []
  | v :: vs => nodeOf none v :: itemNodes vs

def entryNodes : List (Value × Value) → List (Node × Node)
  | [] => []
  | (k, v) :: es => (nodeOf none k, nodeOf none v) :: entryNodes es

end

/-- A token that begins a node without an anchor; a dash does so in a `flat` sequence only. -/
def Begins (flat : Bool) : Token → Prop
  | .scalar _ _ | .flowSequenceStart | .flowMappingStart | .blockSequenceStart
  | .blockMappingStart | .tag _ _ => True
  | .blockEntry => flat
  | _ => False

theorem tagTokens_begin (tag? : Option Tag) {t : Token} {flat : Bool} (begins : Begins flat t)
    (ts : List Token) : ∃ u us, tagTokens tag? ++ t :: ts = u :: us ∧ Begins flat u := by
  unfold tagTokens
  cases tag?.bind readTag? with
  | none => exact ⟨t, ts, rfl, begins⟩
  | some tag => exact ⟨_, _, rfl, trivial⟩

theorem nodeTokens_begin (v : Value) (place : Printer.Place) (tag? : Option Tag) :
    ∃ t ts, nodeTokens place tag? v = t :: ts ∧ Begins place.inMapping t := by
  match v with
  | .tagged tag v => exact nodeTokens_begin v place (some tag)
  | .sequence (v :: vs) =>
      rw [nodeTokens]
      split
      · rename_i flat
        have inMapping : place.inMapping := by
          simp only [isFlat, Bool.and_eq_true] at flat
          exact flat.1
        exact tagTokens_begin tag? (t := .blockEntry) inMapping _
      · exact tagTokens_begin tag? (t := .blockSequenceStart) trivial _
  | .mapping (e :: es) => exact tagTokens_begin tag? (t := .blockMappingStart) trivial _
  | .sequence [] => exact tagTokens_begin tag? (t := .flowSequenceStart) trivial _
  | .mapping [] => exact tagTokens_begin tag? (t := .flowMappingStart) trivial _
  | .null | .bool _ | .number _ | .string _ =>
      exact tagTokens_begin tag? (t := .scalar _ _) trivial _

theorem atEndOr_nodeTokens (v : Value) (place : Printer.Place) {stops : List Token}
    (apart : ∀ t ∈ stops, ¬ Begins place.inMapping t) (more : List Token)
    (anchors : List (String × Nat)) :
    Remaining.atEndOr ⟨nodeTokens place none v ++ more, anchors⟩ stops = false := by
  obtain ⟨t, ts, isTokens, begins⟩ := nodeTokens_begin v place none
  have apart : t ∉ stops := fun member => apart t member begins
  rw [isTokens]
  simpa [Remaining.atEndOr, Remaining.at?] using apart

/-- A tree stands in a place of a block, and as a key or value no dash behind it goes on with it. -/
structure Stands (written : Printer.Place) (place : Place) (rest : List Token) : Prop where
  inBlock : place ≠ .flow
  inMapping : written.inMapping → place = .blockMapping
  ends : written.inMapping → rest.head? ≠ some .blockEntry

def Parses (tag? : Option Tag) (v : Value) : Prop :=
  ∀ {written : Printer.Place} {place : Place} {rest : List Token}, Stands written place rest →
  ∀ {fuel : Nat}, 2 * (nodeTokens written tag? v).length ≤ fuel → ∀ anchors,
    parseNode standardHandles place fuel ⟨nodeTokens written tag? v ++ rest, anchors⟩ =
      .ok (nodeOf tag? v, ⟨rest, anchors⟩)

/-! ## Nodes under a tag -/

/-- In front of a node stands nothing, or a tag that has a meaning. -/
theorem exists_front {tag? : Option Tag} (readable : FrontReadable tag?) :
    (tagTokens tag? = [] ∧ underTags tag? = .none) ∨
      ∃ handle suffix octets, tagTokens tag? = [.tag handle suffix] ∧
        underTags tag? = ⟨none, some octets⟩ ∧
        resolveTag standardHandles handle suffix = .ok octets := by
  cases tag? with
  | none => exact .inl ⟨rfl, rfl⟩
  | some tag =>
      obtain ⟨handle, suffix, octets, isRead, resolved, isOctets, -⟩ := (readable tag rfl).exists_token
      exact .inr ⟨handle, suffix, octets, by simp [tagTokens, isRead], by simp [underTags, isOctets],
        resolved⟩

section Front
variable {tag? : Option Tag} (readable : FrontReadable tag?) {place : Place} {fuel : Nat}
variable {ts rest : List Token} {anchors : List (String × Nat)}
include readable

theorem parseNode_scalar (style : Style) (text : String) (place : Place) (fuel : Nat) :
    parseNode standardHandles place (fuel + 1)
      ⟨tagTokens tag? ++ .scalar style text :: rest, anchors⟩ =
        .ok (.scalar (underTags tag?) style text, ⟨rest, anchors⟩) := by
  rcases exists_front readable with ⟨isToken, isUnder⟩ | ⟨_, _, _, isToken, isUnder, resolved⟩
  · simp [isToken, isUnder, parseNode, properties, Properties.none, Remaining.skip]
  · simp [isToken, isUnder, parseNode, properties, resolved, Remaining.skip]

theorem parseNode_brackets (place : Place) (fuel : Nat) :
    parseNode standardHandles place (fuel + 2)
      ⟨tagTokens tag? ++ .flowSequenceStart :: .flowSequenceEnd :: rest, anchors⟩ =
        .ok (.sequence (underTags tag?) [], ⟨rest, anchors⟩) ∧
    parseNode standardHandles place (fuel + 2)
      ⟨tagTokens tag? ++ .flowMappingStart :: .flowMappingEnd :: rest, anchors⟩ =
        .ok (.mapping (underTags tag?) [], ⟨rest, anchors⟩) := by
  rcases exists_front readable with ⟨isToken, isUnder⟩ | ⟨_, _, _, isToken, isUnder, resolved⟩
  · rw [isToken, isUnder]
    exact ⟨rfl, rfl⟩
  · simp [isToken, isUnder, parseNode, properties, resolved, Remaining.skip, parseFlowSequence,
      parseFlowMapping, Remaining.at?]

theorem parseNode_blockSequence (inBlock : place ≠ .flow) {nodes : List Node}
    (parsed : parseBlockSequence standardHandles fuel ⟨ts, anchors⟩ = .ok (nodes, ⟨rest, anchors⟩)) :
    parseNode standardHandles place (fuel + 1)
      ⟨tagTokens tag? ++ .blockSequenceStart :: ts, anchors⟩ =
        .ok (.sequence (underTags tag?) nodes, ⟨rest, anchors⟩) := by
  rcases exists_front readable with ⟨isToken, isUnder⟩ | ⟨_, _, _, isToken, isUnder, resolved⟩
  · cases place with
    | flow => exact absurd rfl inBlock
    | _ => simp [isToken, isUnder, parseNode, properties, Properties.none, Remaining.skip, parsed]
  · cases place with
    | flow => exact absurd rfl inBlock
    | _ => simp [isToken, isUnder, parseNode, properties, resolved, Remaining.skip, parsed]

theorem parseNode_flatSequence {nodes : List Node}
    (parsed : parseFlatSequence standardHandles fuel ⟨.blockEntry :: ts, anchors⟩ =
      .ok (nodes, ⟨rest, anchors⟩)) :
    parseNode standardHandles .blockMapping (fuel + 1)
      ⟨tagTokens tag? ++ .blockEntry :: ts, anchors⟩ =
        .ok (.sequence (underTags tag?) nodes, ⟨rest, anchors⟩) := by
  rcases exists_front readable with ⟨isToken, isUnder⟩ | ⟨_, _, _, isToken, isUnder, resolved⟩
  · simp [isToken, isUnder, parseNode, properties, Properties.none, parsed]
  · simp [isToken, isUnder, parseNode, properties, resolved, parsed]

theorem parseNode_blockMapping (inBlock : place ≠ .flow) {nodes : List (Node × Node)}
    (parsed : parseBlockMapping standardHandles fuel ⟨ts, anchors⟩ = .ok (nodes, ⟨rest, anchors⟩)) :
    parseNode standardHandles place (fuel + 1)
      ⟨tagTokens tag? ++ .blockMappingStart :: ts, anchors⟩ =
        .ok (.mapping (underTags tag?) nodes, ⟨rest, anchors⟩) := by
  rcases exists_front readable with ⟨isToken, isUnder⟩ | ⟨_, _, _, isToken, isUnder, resolved⟩
  · cases place with
    | flow => exact absurd rfl inBlock
    | _ => simp [isToken, isUnder, parseNode, properties, Properties.none, Remaining.skip, parsed]
  · cases place with
    | flow => exact absurd rfl inBlock
    | _ => simp [isToken, isUnder, parseNode, properties, resolved, Remaining.skip, parsed]

end Front

/-! ## Collections -/

section Parse
variable {rest : List Token}

theorem parseBlockSequence_items {vs : List Value} (parses : ∀ v ∈ vs, Parses none v) {fuel : Nat}
    (enough : 2 * (itemTokens vs).length < fuel) (anchors : List (String × Nat)) :
    parseBlockSequence standardHandles fuel ⟨itemTokens vs ++ .blockEnd :: rest, anchors⟩ =
      .ok (itemNodes vs, ⟨rest, anchors⟩) := by
  induction vs generalizing fuel with
  | nil =>
      obtain ⟨fuel, rfl⟩ : ∃ n, fuel = n + 1 := ⟨fuel - 1, by omega⟩
      simp [parseBlockSequence, itemTokens, itemNodes, Remaining.skip]
  | cons v vs ih =>
      rw [List.forall_mem_cons] at parses
      simp only [itemTokens, List.length_cons, List.length_append] at enough
      obtain ⟨fuel, rfl⟩ : ∃ n, fuel = n + 1 := ⟨fuel - 1, by omega⟩
      have item := @parses.1 .item .block (itemTokens vs ++ .blockEnd :: rest)
        ⟨by decide, by decide, by simp [Printer.Place.inMapping]⟩ fuel (by omega) anchors
      have items := @ih parses.2 fuel (by omega)
      have here := @atEndOr_nodeTokens v .item [.blockEntry, .blockEnd]
        (by simp [Begins, Printer.Place.inMapping])
      rw [itemTokens, List.cons_append, List.append_assoc, parseBlockSequence]
      simp [Remaining.skip, here, item, items, itemNodes]

theorem parseFlatSequence_items {vs : List Value} (parses : ∀ v ∈ vs, Parses none v) {fuel : Nat}
    (enough : 2 * (itemTokens vs).length ≤ fuel + 1) (positive : 0 < fuel)
    (ends : rest.head? ≠ some .blockEntry) (anchors : List (String × Nat)) :
    parseFlatSequence standardHandles fuel ⟨itemTokens vs ++ rest, anchors⟩ =
      .ok (itemNodes vs, ⟨rest, anchors⟩) := by
  induction vs generalizing fuel with
  | nil =>
      obtain ⟨fuel, rfl⟩ : ∃ n, fuel = n + 1 := ⟨fuel - 1, by omega⟩
      cases rest with
      | nil => rfl
      | cons t rest => cases t <;> first | rfl | exact absurd rfl ends
  | cons v vs ih =>
      rw [List.forall_mem_cons] at parses
      simp only [itemTokens, List.length_cons, List.length_append] at enough
      obtain ⟨fuel, rfl⟩ : ∃ n, fuel = n + 1 := ⟨fuel - 1, by omega⟩
      obtain ⟨t, ts, isTokens, begins⟩ := nodeTokens_begin v .item none
      have inhabited : 0 < (nodeTokens .item none v).length := by simp [isTokens]
      have item := @parses.1 .item .block (itemTokens vs ++ rest)
        ⟨by decide, by decide, by simp [Printer.Place.inMapping]⟩ fuel (by omega) anchors
      have items := @ih parses.2 fuel (by omega) (by omega)
      have here := @atEndOr_nodeTokens v .item [.blockEntry, .key, .value, .blockEnd]
        (by simp [Begins, Printer.Place.inMapping])
      rw [itemTokens, List.cons_append, List.append_assoc, parseFlatSequence]
      simp [Remaining.skip, here, item, items, itemNodes]

theorem parseBlockMapping_entries {es : List (Value × Value)}
    (parses : ∀ e ∈ es, Parses none e.1 ∧ Parses none e.2) {fuel : Nat}
    (enough : 2 * (entryTokens es).length < fuel) (anchors : List (String × Nat)) :
    parseBlockMapping standardHandles fuel ⟨entryTokens es ++ .blockEnd :: rest, anchors⟩ =
      .ok (entryNodes es, ⟨rest, anchors⟩) := by
  induction es generalizing fuel with
  | nil =>
      obtain ⟨fuel, rfl⟩ : ∃ n, fuel = n + 1 := ⟨fuel - 1, by omega⟩
      simp [parseBlockMapping, entryTokens, entryNodes, Remaining.skip]
  | cons e es ih =>
      obtain ⟨k, v⟩ := e
      rw [List.forall_mem_cons] at parses
      obtain ⟨parsesKey, parsesValue⟩ : Parses none k ∧ Parses none v := parses.1
      simp only [entryTokens, List.length_cons, List.length_append] at enough
      obtain ⟨fuel, rfl⟩ : ∃ n, fuel = n + 1 := ⟨fuel - 1, by omega⟩
      have notDash : (entryTokens es ++ .blockEnd :: rest).head? ≠ some .blockEntry := by
        cases es <;> simp [entryTokens]
      have key := @parsesKey (keyPlace k) .blockMapping (.value ::
        (nodeTokens (valuePlace k) none v ++ (entryTokens es ++ .blockEnd :: rest)))
        ⟨by decide, fun _ => rfl, by simp⟩ fuel (by omega) anchors
      have value := @parsesValue (valuePlace k) .blockMapping (entryTokens es ++ .blockEnd :: rest)
        ⟨by decide, fun _ => rfl, fun _ => notDash⟩ fuel (by omega) anchors
      have entries := @ih parses.2 fuel (by omega)
      have atKey := @atEndOr_nodeTokens k (keyPlace k) [.key, .value, .blockEnd] (by simp [Begins])
      have atValue := @atEndOr_nodeTokens v (valuePlace k) [.key, .value, .blockEnd]
        (by simp [Begins])
      rw [entryTokens, List.cons_append, List.append_assoc, parseBlockMapping]
      simp [Remaining.skip, atKey, key, atValue, value, entries, entryNodes, Remaining.at?]

end Parse

/-! ## Trees -/

section Trees
variable {tag? : Option Tag} (readable : FrontReadable tag?)
include readable

theorem parses_sequence {v : Value} {vs : List Value} (parses : ∀ u ∈ v :: vs, Parses none u) :
    Parses tag? (.sequence (v :: vs)) := by
  intro written place rest stands fuel enough anchors
  rw [nodeTokens] at enough ⊢
  rw [List.length_append] at enough
  by_cases flat : isFlat written tag?
  · rw [if_pos flat] at enough ⊢
    have inMapping : written.inMapping := by
      simp only [isFlat, Bool.and_eq_true] at flat
      exact flat.1
    have inhabited : (itemTokens (v :: vs)).length = (nodeTokens .item none v).length +
        (itemTokens vs).length + 1 := by simp [itemTokens]
    obtain ⟨t, ts, isTokens, -⟩ := nodeTokens_begin v .item none
    have some : 0 < (nodeTokens .item none v).length := by simp [isTokens]
    obtain ⟨fuel, rfl⟩ : ∃ n, fuel = n + 1 := ⟨fuel - 1, by omega⟩
    rw [stands.inMapping inMapping, List.append_assoc]
    exact parseNode_flatSequence readable (parseFlatSequence_items parses (by omega) (by omega)
      (stands.ends inMapping) anchors)
  · rw [if_neg flat] at enough ⊢
    simp only [List.length_cons, List.length_append] at enough
    obtain ⟨fuel, rfl⟩ : ∃ n, fuel = n + 1 := ⟨fuel - 1, by omega⟩
    rw [List.append_assoc, List.cons_append, List.append_assoc]
    exact parseNode_blockSequence readable stands.inBlock
      (parseBlockSequence_items parses (by omega) anchors)

theorem parses_mapping {e : Value × Value} {es : List (Value × Value)}
    (parses : ∀ f ∈ e :: es, Parses none f.1 ∧ Parses none f.2) :
    Parses tag? (.mapping (e :: es)) := by
  intro written place rest stands fuel enough anchors
  simp only [nodeTokens, List.length_cons, List.length_append] at enough
  obtain ⟨fuel, rfl⟩ : ∃ n, fuel = n + 1 := ⟨fuel - 1, by omega⟩
  rw [nodeTokens, List.append_assoc, List.cons_append, List.append_assoc]
  exact parseNode_blockMapping readable stands.inBlock
    (parseBlockMapping_entries parses (by omega) anchors)

theorem parses_scalar {v : Value} {style : Style} {text : String}
    (isTokens : ∀ written, nodeTokens written tag? v = tagTokens tag? ++ [.scalar style text])
    (isNode : nodeOf tag? v = .scalar (underTags tag?) style text) : Parses tag? v := by
  intro written place rest _ fuel enough anchors
  rw [isTokens, List.length_append, List.length_singleton] at enough
  obtain ⟨fuel, rfl⟩ : ∃ n, fuel = n + 1 := ⟨fuel - 1, by omega⟩
  rw [isTokens, isNode, List.append_assoc]
  exact parseNode_scalar readable style text place fuel

end Trees

theorem parses_of_readable {v : Value} (treeReadable : v.Readable) :
    ∀ {tag?}, FrontReadable tag? → Parses tag? v := by
  unfold Value.Readable at treeReadable
  induction treeReadable with
  | @tagged tag v here _ ih =>
      intro tag? _ written place rest stands fuel enough anchors
      exact ih (frontReadable_some (here tag v rfl)) stands enough anchors
  | @sequence vs _ _ parses =>
      intro tag? readable
      cases vs with
      | nil =>
          intro written place rest _ fuel enough anchors
          rw [nodeTokens, List.length_append] at enough
          simp only [List.length_cons] at enough
          obtain ⟨fuel, rfl⟩ : ∃ n, fuel = n + 2 := ⟨fuel - 2, by omega⟩
          rw [nodeTokens, List.append_assoc]
          exact (parseNode_brackets readable place fuel).1
      | cons v vs => exact parses_sequence readable fun u member => parses u member frontReadable_none
  | @mapping es _ _ _ parsesKeys parsesValues =>
      intro tag? readable
      cases es with
      | nil =>
          intro written place rest _ fuel enough anchors
          rw [nodeTokens, List.length_append] at enough
          simp only [List.length_cons] at enough
          obtain ⟨fuel, rfl⟩ : ∃ n, fuel = n + 2 := ⟨fuel - 2, by omega⟩
          rw [nodeTokens, List.append_assoc]
          exact (parseNode_brackets readable place fuel).2
      | cons e es =>
          exact parses_mapping readable fun f member =>
            ⟨parsesKeys f member frontReadable_none, parsesValues f member frontReadable_none⟩
  | _ =>
      intro tag? readable
      exact parses_scalar readable (fun _ => rfl) rfl

theorem ofTokens_nodeTokens {v : Value} (readable : v.Readable) :
    Node.ofTokens standardHandles (nodeTokens .root none v) = .ok (nodeOf none v) := by
  have parsed := @parses_of_readable v readable none frontReadable_none .root .block []
    ⟨by decide, by decide, by decide⟩ (2 * (nodeTokens .root none v).length + 2) (by omega) []
  rw [List.append_nil] at parsed
  simp [Node.ofTokens, parsed]

end ChartInflation.Yaml
