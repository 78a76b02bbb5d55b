import ChartInflation.Resource
import Mathlib.Data.List.Forall2

/-!
# The resources of a stream

A stream is accepted exactly if each of its documents that holds something is a resource, and then
gives these resources in order (`ofBytes_eq_ok_iff`).  It is refused at the first document that holds
something else, by that document's index among all of them (`ofValuesFrom_eq_error_iff`).
-/

set_option autoImplicit false

namespace ChartInflation

open Yaml (Value)

/-- A value is accepted only as the resource it is, and a resource is accepted whatever it holds. -/
theorem Resource.ofValue_eq_ok_iff (v : Value) (r : Resource) :
    ofValue v = .ok r ↔ v = r.toValue := by
  constructor
  · intro accepted
    cases v with
    | mapping entries =>
        rw [ofValue] at accepted
        split at accepted
        · cases accepted
        · obtain rfl := Except.ok.inj accepted
          rfl
    | null | bool | number | string | sequence | tagged => cases accepted
  · rintro rfl
    have nothingMissing := (missing?_eq_none_iff r.entries).mpr r.complete
    rw [toValue, ofValue]
    split
    next name missing =>
      rw [nothingMissing] at missing
      cases missing
    next => rfl

namespace Resources

/-- The documents that hold something are these resources, one by one. -/
def Are (values : List Value) (rs : Resources) : Prop :=
  List.Forall₂ (fun v r => Resource.ofValue v = .ok r) (values.filter (!·.isNull)) rs

theorem are_iff_eq_map (values : List Value) (rs : Resources) :
    Are values rs ↔ values.filter (!·.isNull) = rs.map Resource.toValue := by
  rw [Are, ← List.forall₂_eq_eq_eq, List.forall₂_map_right_iff]
  simp only [Resource.ofValue_eq_ok_iff]

theorem are_filter_iff (values : List Value) (rs : Resources) :
    Are (values.filter (!·.isNull)) rs ↔ Are values rs := by
  rw [Are, Are, List.filter_filter]
  simp only [Bool.and_self]

theorem ofValuesFrom_cons_eq_ok_iff (index : Nat) {v : Value} (values : List Value) (rs : Resources)
    (holdsSomething : ¬ v.isNull) : ofValuesFrom index (v :: values) = .ok rs ↔
      ∃ r rest, Resource.ofValue v = .ok r ∧ ofValuesFrom (index + 1) values = .ok rest ∧
        rs = r :: rest := by
  rw [ofValuesFrom, if_neg holdsSomething]
  cases Resource.ofValue v with
  | error reason => simp
  | ok r =>
      cases ofValuesFrom (index + 1) values with
      | error e => simp [bind, Except.bind]
      | ok rest => simp [bind, Except.bind, pure, Except.pure, @eq_comm _ rs]

theorem ofValuesFrom_eq_ok_iff (index : Nat) (values : List Value) (rs : Resources) :
    ofValuesFrom index values = .ok rs ↔ Are values rs := by
  induction values generalizing index rs with
  | nil =>
      rw [ofValuesFrom, Are, List.filter_nil, List.forall₂_nil_left_iff, Except.ok.injEq]
      exact eq_comm
  | cons v values ih =>
      by_cases holdsNothing : v.isNull
      · have skipped : (v :: values).filter (!·.isNull) = values.filter (!·.isNull) := by
          simp [holdsNothing]
        rw [ofValuesFrom, if_pos holdsNothing, ih, Are, Are, skipped]
      · have kept : (v :: values).filter (!·.isNull) = v :: values.filter (!·.isNull) := by
          simp [holdsNothing]
        rw [ofValuesFrom_cons_eq_ok_iff index values rs holdsNothing, Are, kept,
          List.forall₂_cons_left_iff]
        simp only [ih, Are]

theorem ofBytes_eq_ok_iff (bytes : Bytes) (rs : Resources) :
    ofBytes bytes = .ok rs ↔ ∃ values, Value.ofStream bytes = .ok values ∧ Are values rs := by
  cases read : Value.ofStream bytes with
  | error fault => simp [ofBytes, read]
  | ok values => simp [ofBytes, read, ofValues, ofValuesFrom_eq_ok_iff]

structure Refuses (front : List Value) (v : Value) (reason : String) : Prop where
  earlier : ∀ u ∈ front, u.isNull ∨ ∃ r, Resource.ofValue u = .ok r
  inhabited : ¬ v.isNull
  refused : Resource.ofValue v = .error reason

theorem Refuses.filter {front : List Value} {v : Value} {reason : String}
    (refuses : Refuses front v reason) : Refuses (front.filter (!·.isNull)) v reason :=
  ⟨fun u member => refuses.earlier u (List.mem_of_mem_filter member), refuses.inhabited,
    refuses.refused⟩

theorem Refuses.cons {front : List Value} {u v : Value} {reason : String}
    (accepted : u.isNull ∨ ∃ r, Resource.ofValue u = .ok r) (refuses : Refuses front v reason) :
    Refuses (u :: front) v reason :=
  ⟨List.forall_mem_cons.mpr ⟨accepted, refuses.earlier⟩, refuses.inhabited, refuses.refused⟩

theorem Refuses.tail {front : List Value} {u v : Value} {reason : String}
    (refuses : Refuses (u :: front) v reason) : Refuses front v reason :=
  ⟨(List.forall_mem_cons.mp refuses.earlier).2, refuses.inhabited, refuses.refused⟩

theorem exists_refused_behind_iff {index : Nat} {u : Value} {values : List Value} {e : InputError}
    (accepted : u.isNull ∨ ∃ r, Resource.ofValue u = .ok r) :
    (∃ front v back reason, u :: values = front ++ v :: back ∧ Refuses front v reason ∧
        e = .notAResource (index + front.length) reason) ↔
      ∃ front v back reason, values = front ++ v :: back ∧ Refuses front v reason ∧
        e = .notAResource (index + 1 + front.length) reason := by
  constructor
  · rintro ⟨front, v, back, reason, isFront, refuses, rfl⟩
    cases front with
    | nil =>
        obtain ⟨rfl, rfl⟩ := List.cons.inj isFront
        rcases accepted with holdsNothing | ⟨r, isResource⟩
        · exact absurd holdsNothing refuses.inhabited
        · rw [refuses.refused] at isResource
          cases isResource
    | cons w front =>
        obtain ⟨rfl, rfl⟩ := List.cons.inj isFront
        refine ⟨front, v, back, reason, rfl, refuses.tail, ?_⟩
        rw [List.length_cons, Nat.add_assoc, Nat.add_comm 1]
  · rintro ⟨front, v, back, reason, rfl, refuses, rfl⟩
    refine ⟨u :: front, v, back, reason, rfl, refuses.cons accepted, ?_⟩
    rw [List.length_cons, Nat.add_assoc, Nat.add_comm 1]

theorem exists_refused_here_iff {index : Nat} {u : Value} {values : List Value} {e : InputError}
    {reason : String} (inhabited : ¬ u.isNull) (refused : Resource.ofValue u = .error reason) :
    (∃ front v back reason, u :: values = front ++ v :: back ∧ Refuses front v reason ∧
        e = .notAResource (index + front.length) reason) ↔ e = .notAResource index reason := by
  constructor
  · rintro ⟨front, v, back, reason', isFront, refuses, rfl⟩
    cases front with
    | nil =>
        obtain ⟨rfl, rfl⟩ := List.cons.inj isFront
        rw [Except.error.inj (refused.symm.trans refuses.refused)]
        rfl
    | cons w front =>
        obtain ⟨rfl, rfl⟩ := List.cons.inj isFront
        rcases refuses.earlier u (List.mem_cons_self ..) with isNull | ⟨r, isResource⟩
        · exact absurd isNull inhabited
        · rw [refused] at isResource
          cases isResource
  · rintro rfl
    exact ⟨[], u, values, reason, rfl, ⟨by simp, inhabited, refused⟩, rfl⟩

theorem ofValuesFrom_eq_error_iff (index : Nat) (values : List Value) (e : InputError) :
    ofValuesFrom index values = .error e ↔ ∃ front v back reason, values = front ++ v :: back ∧
      Refuses front v reason ∧ e = .notAResource (index + front.length) reason := by
  induction values generalizing index with
  | nil => simp [ofValuesFrom]
  | cons u values ih =>
      by_cases holdsNothing : u.isNull
      · rw [ofValuesFrom, if_pos holdsNothing, ih, exists_refused_behind_iff (.inl holdsNothing)]
      · rw [ofValuesFrom, if_neg holdsNothing]
        cases read : Resource.ofValue u with
        | ok r =>
            rw [exists_refused_behind_iff (.inr ⟨r, read⟩), ← ih]
            cases ofValuesFrom (index + 1) values <;> simp [bind, Except.bind, pure, Except.pure]
        | error reason =>
            rw [exists_refused_here_iff holdsNothing read]
            rw [Except.error.injEq]
            exact eq_comm

end Resources

end ChartInflation
