import ChartInflation.Proofs.Values.Entries

/-!
# Merged values at a path

A path is a list of keys.  What a merge holds at a path follows from what the two trees hold there:
the tree that wins conflicts decides wherever it has a leaf or anything else that is no mapping, and
below its mappings the other tree fills what it lacks.
-/

set_option autoImplicit false

namespace ChartInflation

open Yaml (Value Mapping)

namespace Yaml.Value

/-- The value that a list of keys leads to, through mappings without tags. -/
def reach : Value → List Value → Option Value
  | v, [] => some v
  | .mapping entries, key :: rest => (Mapping.get? entries key).bind fun v => v.reach rest
  | _, _ :: _ => none

def isLeaf : Value → Bool
  | .sequence _ | .mapping _ => false
  | _ => true

theorem reach_eq_none {v : Value} (noMapping : ∀ es, v ≠ .mapping es) (key : Value)
    (rest : List Value) : v.reach (key :: rest) = none := by
  cases v with
  | mapping es => exact absurd rfl (noMapping es)
  | _ => rfl

theorem reach_append (v : Value) (front back : List Value) :
    v.reach (front ++ back) = (v.reach front).bind fun w => w.reach back := by
  induction front generalizing v with
  | nil => rfl
  | cons key front ih =>
      cases v with
      | mapping es =>
          cases found : Mapping.get? es key with
          | none => simp [reach, found]
          | some w => simp [reach, found, ih w]
      | _ => rfl

theorem reach_valid {v w : Value} (valid : v.Valid) {path : List Value}
    (found : v.reach path = some w) : w.Valid := by
  induction path generalizing v with
  | nil => exact Option.some.inj found ▸ valid
  | cons key rest ih =>
      cases v with
      | mapping es =>
          obtain ⟨x, atKey, below⟩ := Option.bind_eq_some_iff.mp found
          exact ih (Mapping.get?_valid valid atKey) below
      | _ => simp [reach] at found

theorem reach_cons_eq_some {v w : Value} {key : Value} {rest : List Value}
    (found : v.reach (key :: rest) = some w) :
    ∃ es x, v = .mapping es ∧ Mapping.get? es key = some x ∧ x.reach rest = some w := by
  cases v with
  | mapping es =>
      obtain ⟨x, atKey, below⟩ := Option.bind_eq_some_iff.mp found
      exact ⟨es, x, rfl, atKey, below⟩
  | _ => simp [reach] at found

end Yaml.Value

namespace Values

def winner (p : Precedence) (base overlay : Value) : Value :=
  match p with
  | .overlay => overlay
  | .base => base

def loser (p : Precedence) (base overlay : Value) : Value :=
  match p with
  | .overlay => base
  | .base => overlay

def prevail (p : Precedence) (winner loser : Value) : Value :=
  match p with
  | .overlay => merge .overlay loser winner
  | .base => merge .base winner loser

theorem merged_eq_prevail (p : Precedence) (base overlay : Value) :
    merged base overlay p = prevail p (winner p (rootOf base) (rootOf overlay))
      (loser p (rootOf base) (rootOf overlay)) := by
  cases p <;> rfl

/-! ## One level of a merge, seen from the winner -/

theorem prevail_of_isLeaf {p : Precedence} {v : Value} (leaf : v.isLeaf) (w : Value) :
    prevail p v w = v := by
  cases p with
  | overlay =>
      refine merge_eq_choose ?_ ?_
      · rintro es fs _ rfl
        simp [Value.isLeaf] at leaf
      · rintro xs ys _ rfl
        simp [Value.isLeaf] at leaf
  | base =>
      refine merge_eq_choose ?_ ?_
      · rintro es fs rfl
        simp [Value.isLeaf] at leaf
      · rintro xs ys rfl
        simp [Value.isLeaf] at leaf

theorem prevail_mapping_of_other {p : Precedence} (ws : Mapping) {w : Value}
    (noMapping : ∀ ls, w ≠ .mapping ls) : prevail p (.mapping ws) w = .mapping ws := by
  cases p with
  | overlay => exact merge_eq_choose (fun _ _ isMapping _ => noMapping _ isMapping) (by simp)
  | base => exact merge_eq_choose (fun _ fs _ => noMapping fs) (by simp)

theorem prevail_sequence_ne_mapping {p : Precedence} (xs : List Value) (w : Value) (es : Mapping) :
    prevail p (.sequence xs) w ≠ .mapping es := by
  cases p <;> cases w <;> simp [prevail, merge, Precedence.choose] <;> split <;> simp

theorem prevail_ne_mapping {p : Precedence} {v : Value} (noMapping : ∀ es, v ≠ .mapping es)
    (w : Value) (es : Mapping) : prevail p v w ≠ .mapping es := by
  cases v with
  | mapping es => exact absurd rfl (noMapping es)
  | sequence xs => exact prevail_sequence_ne_mapping xs w es
  | _ => rw [prevail_of_isLeaf rfl w]; exact noMapping es

def prevailFound (p : Precedence) : Option Value → Option Value → Option Value
  | some v, some w => some (prevail p v w)
  | some v, none => some v
  | none, found => found

theorem prevail_mappings {p : Precedence} {ws ls : Mapping} (wsValid : (Value.mapping ws).Valid)
    (lsValid : (Value.mapping ls).Valid) {key : Value} (keyValid : key.Valid)
    (rest : List Value) :
    (prevail p (.mapping ws) (.mapping ls)).reach (key :: rest) =
      (prevailFound p (Mapping.get? ws key) (Mapping.get? ls key)).bind fun v => v.reach rest := by
  have found : ∀ es fs, (Value.mapping es).Valid → (Value.mapping fs).Valid →
      (merge p (.mapping es) (.mapping fs)).reach (key :: rest) =
        (mergeFound p (Mapping.get? es key) (Mapping.get? fs key)).bind fun v => v.reach rest := by
    intro es fs esValid fsValid
    rw [merge, Value.reach, get?_mergeEntries p (fun _ => esValid.key) fsValid keyValid]
  cases p with
  | overlay =>
      rw [prevail, found ls ws lsValid wsValid]
      cases Mapping.get? ls key <;> cases Mapping.get? ws key <;> rfl
  | base =>
      rw [prevail, found ws ls wsValid lsValid]
      cases Mapping.get? ws key <;> cases Mapping.get? ls key <;> rfl

/-! ## Whole paths -/

section Prevail
variable {p : Precedence} {winning losing : Value}

/-- Where the winner has a value the merge has one too: it prevails over the loser's value, or stays
as it is if the loser has none there. -/
theorem reach_prevail (path : List Value) (pathValid : ∀ k ∈ path, k.Valid) :
    ∀ {winning losing : Value}, winning.Valid → losing.Valid → ∀ {v : Value},
      winning.reach path = some v →
      (∃ w, losing.reach path = some w ∧
        (prevail p winning losing).reach path = some (prevail p v w)) ∨
      (losing.reach path = none ∧ (prevail p winning losing).reach path = some v) := by
  induction path with
  | nil =>
      intro winning losing _ _ v found
      have isWinner : winning = v := Option.some.inj found
      subst isWinner
      exact Or.inl ⟨losing, rfl, rfl⟩
  | cons key rest ih =>
      intro winning losing winningValid losingValid v found
      have keyValid := pathValid key (List.mem_cons_self ..)
      obtain ⟨ws, x, rfl, atKey, below⟩ := Value.reach_cons_eq_some found
      by_cases isMapping : ∃ ls, losing = .mapping ls
      · obtain ⟨ls, rfl⟩ := isMapping
        rw [prevail_mappings winningValid losingValid keyValid, Value.reach, atKey]
        cases other : Mapping.get? ls key with
        | none => exact Or.inr ⟨rfl, below⟩
        | some y =>
            exact ih (fun k member => pathValid k (List.mem_cons_of_mem _ member))
              (Mapping.get?_valid winningValid atKey) (Mapping.get?_valid losingValid other) below
      · have noMapping : ∀ ls, losing ≠ .mapping ls := fun ls isIt => isMapping ⟨ls, isIt⟩
        rw [prevail_mapping_of_other ws noMapping]
        exact Or.inr ⟨Value.reach_eq_none noMapping key rest, found⟩

variable (winningValid : winning.Valid) (losingValid : losing.Valid)
include winningValid losingValid

theorem reach_prevail_of_leaf {path : List Value} (pathValid : ∀ k ∈ path, k.Valid) {v : Value}
    (found : winning.reach path = some v) (leaf : v.isLeaf) :
    (prevail p winning losing).reach path = some v := by
  rcases reach_prevail path pathValid winningValid losingValid found with ⟨w, _, here⟩ | ⟨_, here⟩
  · rw [here, prevail_of_isLeaf leaf]
  · exact here

theorem reach_prevail_of_both {path : List Value} (pathValid : ∀ k ∈ path, k.Valid) {v w : Value}
    (found : winning.reach path = some v) (other : losing.reach path = some w) :
    (prevail p winning losing).reach path = some (prevail p v w) := by
  rcases reach_prevail path pathValid winningValid losingValid found with
    ⟨w', other', here⟩ | ⟨other', _⟩
  · rw [other] at other'
    rw [here, Option.some.inj other']
  · simp [other] at other'

theorem reach_prevail_of_gap {front : List Value} (frontValid : ∀ k ∈ front, k.Valid)
    {key : Value} (keyValid : key.Valid) (rest : List Value) {es : Mapping}
    (esValid : (Value.mapping es).Valid) (found : winning.reach front = some (.mapping es))
    (absent : Mapping.get? es key = none) :
    (prevail p winning losing).reach (front ++ key :: rest) =
      losing.reach (front ++ key :: rest) := by
  have nothing : (Value.mapping es).reach (key :: rest) = none := by
    simp [Value.reach, absent]
  rw [Value.reach_append, Value.reach_append]
  rcases reach_prevail front frontValid winningValid losingValid found with
    ⟨w, other, here⟩ | ⟨other, here⟩
  · rw [here, other, Option.bind_some, Option.bind_some]
    by_cases isMapping : ∃ ls, w = .mapping ls
    · obtain ⟨ls, rfl⟩ := isMapping
      rw [prevail_mappings esValid (Value.reach_valid losingValid other) keyValid, absent]
      rfl
    · have noMapping : ∀ ls, w ≠ .mapping ls := fun ls isIt => isMapping ⟨ls, isIt⟩
      rw [prevail_mapping_of_other es noMapping, nothing, Value.reach_eq_none noMapping]
  · rw [here, other, Option.bind_some, nothing]
    rfl

theorem reach_prevail_of_end {front : List Value} (frontValid : ∀ k ∈ front, k.Valid)
    (key : Value) (rest : List Value) {v : Value} (found : winning.reach front = some v)
    (noMapping : ∀ es, v ≠ .mapping es) :
    (prevail p winning losing).reach (front ++ key :: rest) = none := by
  rw [Value.reach_append]
  rcases reach_prevail front frontValid winningValid losingValid found with ⟨w, _, here⟩ | ⟨_, here⟩
  · rw [here, Option.bind_some]
    exact Value.reach_eq_none (prevail_ne_mapping noMapping w) key rest
  · rw [here, Option.bind_some]
    exact Value.reach_eq_none noMapping key rest

end Prevail

/-- The keys of a merged mapping: those that were there, then the new ones that came in. -/
def KeysInOrder (existing incoming result : Mapping) : Prop :=
  result.map Prod.fst = existing.map Prod.fst ++
    (incoming.map Prod.fst).filter fun k => (Mapping.get? existing k).isNone

theorem merge_keysInOrder (p : Precedence) {es fs : Mapping} (esValid : (Value.mapping es).Valid)
    (fsValid : (Value.mapping fs).Valid) :
    ∃ gs, merge p (.mapping es) (.mapping fs) = .mapping gs ∧ KeysInOrder es fs gs :=
  ⟨mergeEntries p es fs, merge.eq_1 p es fs, keys_mergeEntries p (fun _ => esValid.key) fsValid⟩

/-- What a merge holds at every path: the winner's leaf; the loser's value where the winner's
mapping lacks a key; nothing below anything else of the winner.  Keys keep their order. -/
theorem reach_merged (p : Precedence) {base overlay : Value} (baseValid : base.Valid)
    (overlayValid : overlay.Valid) :
    (∀ path v, (∀ k ∈ path, k.Valid) →
      (winner p (rootOf base) (rootOf overlay)).reach path = some v → v.isLeaf →
      (merged base overlay p).reach path = some v) ∧
    (∀ front key rest es, (∀ k ∈ front ++ key :: rest, k.Valid) →
      (winner p (rootOf base) (rootOf overlay)).reach front = some (.mapping es) →
      Mapping.get? es key = none →
      (merged base overlay p).reach (front ++ key :: rest) =
        (loser p (rootOf base) (rootOf overlay)).reach (front ++ key :: rest)) ∧
    (∀ front key rest v, (∀ k ∈ front ++ key :: rest, k.Valid) →
      (winner p (rootOf base) (rootOf overlay)).reach front = some v → (∀ es, v ≠ .mapping es) →
      (merged base overlay p).reach (front ++ key :: rest) = none) ∧
    (∀ path es fs, (∀ k ∈ path, k.Valid) → (rootOf base).reach path = some (.mapping es) →
      (rootOf overlay).reach path = some (.mapping fs) →
      ∃ gs, (merged base overlay p).reach path = some (.mapping gs) ∧ KeysInOrder es fs gs) ∧
    (∀ es fs, (Value.mapping es).Valid → (Value.mapping fs).Valid →
      ∃ gs, merge p (.mapping es) (.mapping fs) = .mapping gs ∧ KeysInOrder es fs gs) := by
  have winnerValid : (winner p (rootOf base) (rootOf overlay)).Valid := by
    cases p
    · exact rootOf_valid overlayValid
    · exact rootOf_valid baseValid
  have loserValid : (loser p (rootOf base) (rootOf overlay)).Valid := by
    cases p
    · exact rootOf_valid baseValid
    · exact rootOf_valid overlayValid
  rw [merged_eq_prevail]
  refine ⟨?_, ?_, ?_, ?_, ?_⟩
  · intro path v pathValid found leaf
    exact reach_prevail_of_leaf winnerValid loserValid pathValid found leaf
  · intro front key rest es pathValid found absent
    exact reach_prevail_of_gap winnerValid loserValid
      (fun k member => pathValid k (List.mem_append_left _ member)) (pathValid key (by simp)) rest
      (Value.reach_valid winnerValid found) found absent
  · intro front key rest v pathValid found noMapping
    exact reach_prevail_of_end winnerValid loserValid
      (fun k member => pathValid k (List.mem_append_left _ member)) key rest found noMapping
  · intro path es fs pathValid left right
    obtain ⟨gs, merged, keys⟩ := merge_keysInOrder p
      (Value.reach_valid (rootOf_valid baseValid) left)
      (Value.reach_valid (rootOf_valid overlayValid) right)
    refine ⟨gs, ?_, keys⟩
    rw [← merged]
    cases p with
    | overlay => exact reach_prevail_of_both winnerValid loserValid pathValid right left
    | base => exact reach_prevail_of_both winnerValid loserValid pathValid left right
  · intro es fs esValid fsValid
    exact merge_keysInOrder p esValid fsValid

def imageValues (fields : List (String × String)) : Value :=
  .mapping [(.string "image", .mapping (fields.map fun f => (.string f.1, .string f.2)))]

/-- An overlay's tag replaces the one of the base, whose policy stays. -/
theorem reach_merged_image :
    (merged (imageValues [("tag", "1.0"), ("policy", "Always")]) (imageValues [("tag", "2.0")])
      .overlay).reach [.string "image", .string "tag"] = some (.string "2.0") ∧
    (merged (imageValues [("tag", "1.0"), ("policy", "Always")]) (imageValues [("tag", "2.0")])
      .overlay).reach ([.string "image"] ++ [.string "policy"]) = some (.string "Always") := by
  have baseValid : (imageValues [("tag", "1.0"), ("policy", "Always")]).Valid := by
    simp [imageValues, Value.same]
  have overlayValid : (imageValues [("tag", "2.0")]).Valid := by
    simp [imageValues]
  obtain ⟨leaf, gap, _⟩ := reach_merged .overlay baseValid overlayValid
  have below := gap [.string "image"] (.string "policy") [] [(.string "tag", .string "2.0")]
    (by simp) rfl rfl
  exact ⟨leaf _ _ (by simp) rfl rfl, below.trans rfl⟩

end Values

end ChartInflation
