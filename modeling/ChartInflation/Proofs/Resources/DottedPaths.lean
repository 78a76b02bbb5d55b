import ChartInflation.Proofs.Outcome
import ChartInflation.Proofs.Text.Pieces
import ChartInflation.Resource

/-!
# Dotted paths in a resource and in its values

The lookup in a resource goes on below a tag, the lookup in values ends there.  `get?_values` says
that this is the only difference: the two agree on a path unless the resource has something there
and a tagged value stands on the way to it.
-/

set_option autoImplicit false

namespace ChartInflation

open Yaml (Mapping Tag Value)

namespace Resource

theorem get?_eq (r : Resource) (path : String) :
    r.get? path = walk r.toValue (piecesOf '.' path) := by
  obtain ⟨first, rest, cut, _⟩ := exists_piecesOf '.' path
  rw [get?, cut]
  rfl

/-- Some of the keys lead to a value with a tag, and there are keys left to look up in it. -/
def MeetsTag (v : Value) (keys : List String) : Prop :=
  ∃ front key back tag u, keys = front ++ key :: back ∧ walk v front = some (.tagged tag u)

theorem not_meetsTag_nil (v : Value) : ¬ MeetsTag v [] := by
  rintro ⟨front, key, back, tag, u, cut, -⟩
  simp at cut

theorem meetsTag_tagged (tag : Tag) (v : Value) (key : String) (rest : List String) :
    MeetsTag (.tagged tag v) (key :: rest) :=
  ⟨[], key, rest, tag, v, rfl, rfl⟩

theorem meetsTag_cons_iff {v : Value} (untagged : ∀ tag u, v ≠ .tagged tag u) (key : String)
    (rest : List String) :
    MeetsTag v (key :: rest) ↔ ∃ w, v.field? key = some w ∧ MeetsTag w rest := by
  constructor
  · rintro ⟨front, last, back, tag, u, cut, leads⟩
    cases front with
    | nil => exact absurd (Option.some.inj leads) (untagged tag u)
    | cons first front =>
        obtain ⟨rfl, restCut⟩ := List.cons.inj cut
        obtain ⟨w, found, leads⟩ := Option.bind_eq_some_iff.mp leads
        exact ⟨w, found, front, last, back, tag, u, restCut, leads⟩
  · rintro ⟨w, found, front, last, back, tag, u, rfl, leads⟩
    exact ⟨key :: front, last, back, tag, u, rfl, Option.bind_eq_some_iff.mpr ⟨w, found, leads⟩⟩

/-- One step of the lookup in values: only a mapping without tags has anything under a key. -/
theorem values_walk_cons (v : Value) (key : String) (rest : List String) (w : Value) :
    Values.walk v (key :: rest) = some w ↔
      (∀ tag u, v ≠ .tagged tag u) ∧ ∃ x, v.field? key = some x ∧ Values.walk x rest = some w := by
  cases v with
  | mapping entries =>
      have atKey : (Value.mapping entries).field? key = Mapping.field? entries key := rfl
      rw [Values.walk, atKey]
      cases found : Mapping.field? entries key with
      | none => simp
      | some x => simp
  | tagged tag u => simp [Values.walk]
  | _ => simp [Values.walk, Value.field?, Value.entries?, Value.untagged]

theorem values_walk_eq_some_iff (v : Value) (keys : List String) (w : Value) :
    Values.walk v keys = some w ↔ walk v keys = some w ∧ ¬ MeetsTag v keys := by
  induction keys generalizing v with
  | nil =>
      have leads : Values.walk v [] = walk v [] := by cases v <;> rfl
      simp [leads, not_meetsTag_nil]
  | cons key rest ih =>
      rw [values_walk_cons, walk, Option.bind_eq_some_iff]
      constructor
      · rintro ⟨untagged, x, found, below⟩
        obtain ⟨leads, meetsNone⟩ := (ih x).mp below
        refine ⟨⟨x, found, leads⟩, fun meets => ?_⟩
        obtain ⟨y, foundHere, meets⟩ := (meetsTag_cons_iff untagged key rest).mp meets
        obtain rfl : x = y := Option.some.inj (found.symm.trans foundHere)
        exact meetsNone meets
      · rintro ⟨⟨x, found, leads⟩, meetsNone⟩
        have untagged : ∀ tag u, v ≠ .tagged tag u := by
          rintro tag u rfl
          exact meetsNone (meetsTag_tagged tag u key rest)
        refine ⟨untagged, x, found, (ih x).mpr ⟨leads, fun meets => meetsNone ?_⟩⟩
        exact (meetsTag_cons_iff untagged key rest).mpr ⟨x, found, meets⟩

/-- The values of a resource have at a path what the resource has there, unless a tagged value
stands on the way: then they have nothing.  So the two lookups agree exactly on the paths with no
tagged value on the way and on those that lead to nothing. -/
theorem get?_values (r : Resource) (path : String) :
    (∀ v, Values.get? r.toValue path = some v ↔
      r.get? path = some v ∧ ¬ MeetsTag r.toValue (piecesOf '.' path)) ∧
    (r.get? path = Values.get? r.toValue path ↔
      (MeetsTag r.toValue (piecesOf '.' path) → r.get? path = none)) := by
  have has : ∀ v, Values.get? r.toValue path = some v ↔
      r.get? path = some v ∧ ¬ MeetsTag r.toValue (piecesOf '.' path) := by
    intro v
    rw [get?_eq]
    exact values_walk_eq_some_iff r.toValue (piecesOf '.' path) v
  refine ⟨has, ?_⟩
  constructor
  · intro agree meets
    refine Option.eq_none_iff_forall_ne_some.mpr fun v found => ?_
    exact ((has v).mp (agree.symm.trans found)).2 meets
  · intro nothingBehind
    refine Option.ext fun v => ?_
    rw [has v]
    refine ⟨fun found => ⟨found, fun meets => ?_⟩, And.left⟩
    rw [nothingBehind meets] at found
    cases found

def taggedData : Bytes := Bytes.ofString "apiVersion: v1\nkind: A\ndata: !t\n  b: c\n"

theorem get?_values_differ : ∃ r, Resources.ofBytes taggedData = .ok [r] ∧
    (r.get? "data.b").bind Value.text? = some "c" ∧ Values.get? r.toValue "data.b" = none := by
  have evaluated : (Resources.ofBytes taggedData).toOption.map (List.map fun r =>
      ((r.get? "data.b").bind Value.text?, (Values.get? r.toValue "data.b").isNone)) =
      some [(some "c", true)] := by decide +kernel
  obtain ⟨rs, isOk, found⟩ := Outcome.exists_ok_of_toOption evaluated
  obtain ⟨r, rfl, atPath⟩ := List.map_eq_singleton_iff.mp found
  obtain ⟨behindTag, nothing⟩ := Prod.mk.inj atPath
  exact ⟨r, isOk, behindTag, Option.isNone_iff_eq_none.mp nothing⟩

end Resource

end ChartInflation
