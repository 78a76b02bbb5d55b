import ChartInflation.Proofs.FileSystem.Onward
import Mathlib.Data.List.Induction

/-!
# Making and removing directories

A directory that is made stands where nothing stood, at the end of its path, and removing it leaves
nothing at it and below it.  In between its path leads to it (`Leads`), as long as no link is put in
the way; then what is written below it stays below it (`Leads.write_inside`).
-/

set_option autoImplicit false

namespace ChartInflation.FileSystem

/-! ## Below a location -/

/-- Whether all that stands in a file system stands in a directory. -/
def IsTree (fs : FileSystem) : Prop :=
  ∀ l, l ≠ [] → fs.entry? l ≠ none → fs.isDirectoryAt l.dropLast

theorem isTree_of_entries {fs : FileSystem}
    (inDirectory : ∀ e ∈ fs.entries, fs.isDirectoryAt e.1.dropLast) : fs.IsTree := by
  intro l notRoot stands
  have isKey : (fs.entries.lookup l).isSome := by
    simpa [notRoot, entry?, Option.isSome_iff_ne_none] using stands
  obtain ⟨e, member, same⟩ := List.lookup_isSome_iff.mp isKey
  rw [eq_of_beq same]
  exact inDirectory e member

theorem prefix_dropLast {place l : Location} (below : place <+: l) (other : place ≠ l) :
    place <+: l.dropLast := by
  obtain ⟨rest, rfl⟩ := below
  have remain : rest ≠ [] := by
    rintro rfl
    exact other (List.append_nil place).symm
  rw [List.dropLast_append_of_ne_nil remain]
  exact List.prefix_append place rest.dropLast

theorem IsTree.nothing_below {fs : FileSystem} (tree : fs.IsTree) {place l : Location}
    (nothing : fs.entry? place = none) (below : place <+: l) : fs.entry? l = none := by
  obtain ⟨rest, rfl⟩ := below
  induction rest using List.reverseRecOn with
  | nil => simpa using nothing
  | append_singleton rest name ih =>
      cases stood : fs.entry? (place ++ (rest ++ [name])) with
      | none => rfl
      | some entry =>
          have inDirectory := tree (place ++ (rest ++ [name])) (by simp) (by simp [stood])
          rw [← List.append_assoc, List.dropLast_concat, isDirectoryAt_iff, ih] at inDirectory
          cases inDirectory

theorem lookup_filter (place l : Location) (entries : List (Location × Entry)) :
    (entries.filter fun e => !place.isPrefixOf e.1).lookup l =
      if place <+: l then none else entries.lookup l := by
  induction entries with
  | nil => simp
  | cons e entries ih =>
      obtain ⟨k, entry⟩ := e
      by_cases below : place <+: k
      · rw [List.filter_cons_of_neg (by simp [below]), ih]
        by_cases here : l = k
        · simp [here, below]
        · simp [List.lookup_cons, beq_eq_false_iff_ne.mpr here]
      · have keep : place.isPrefixOf k = false := by
          rw [← Bool.not_eq_true, List.isPrefixOf_iff_prefix]
          exact below
        rw [List.filter_cons_of_pos (by simp [keep]), List.lookup_cons, List.lookup_cons, ih]
        by_cases here : l = k
        · simp [here, below]
        · simp [beq_eq_false_iff_ne.mpr here]

theorem entry?_removeTree (fs : FileSystem) {place : Location} (notRoot : place ≠ [])
    (l : Location) :
    entry? (fs.removeTree place) l = if place <+: l then none else fs.entry? l := by
  by_cases isRoot : l = []
  · subst isRoot
    simp [notRoot, entry?]
  · have inside : l.isEmpty = false := by simp [isRoot]
    unfold entry?
    simp only [inside, Bool.false_eq_true, if_false]
    exact lookup_filter place l fs.entries

/-! ## Making a directory -/

theorem makeDirectory_eq_ok_iff {fs fs' : FileSystem} {here : Location} {path : Path} :
    fs.makeDirectory here path = .ok fs' ↔
      ∃ place, fs.resolve false here path = .ok (.absent place) ∧ fs' = fs.put place .directory := by
  cases resolved : fs.resolve false here path with
  | error e => simp [makeDirectory, resolved, bind, Except.bind]
  | ok r =>
      cases r with
      | found l => simp [makeDirectory, resolved, bind, Except.bind, throw, throwThe,
          MonadExceptOf.throw]
      | absent place => simp [makeDirectory, resolved, bind, Except.bind, pure, Except.pure, eq_comm]

theorem makeDirectory_eq_put {fs fs' : FileSystem} {here : Location} {path : Path}
    (made : fs.makeDirectory here path = .ok fs') :
    ∃ place, fs.Vacant place ∧ fs' = fs.put place .directory ∧
      fs'.resolve false here path = .ok (.found place) := by
  obtain ⟨place, absent, rfl⟩ := makeDirectory_eq_ok_iff.mp made
  have vacant := resolve_absent absent
  refine ⟨place, vacant, rfl, ?_⟩
  rw [resolve_put (Or.inl vacant) (by simp) false here path absent]
  simp [Resolved.filledAt]

theorem makeDirectory_error_congr {fs fs' : FileSystem} {here : Location} {path : Path}
    {e : FileError} (same : fs'.resolve false here path = fs.resolve false here path)
    (failed : fs.makeDirectory here path = .error e) : fs'.makeDirectory here path = .error e := by
  unfold makeDirectory at failed ⊢
  rw [same]
  cases resolved : fs.resolve false here path with
  | error e' => simpa [resolved, bind, Except.bind] using failed
  | ok r =>
      cases r with
      | found l => simpa [resolved, bind, Except.bind] using failed
      | absent l => simp [resolved, bind, Except.bind, pure, Except.pure] at failed

theorem walk_ne_exists (fs : FileSystem) (followLast : Bool) (here : Location)
    (names : List String) : fs.walk followLast here names ≠ .failed .exists := by
  fun_induction FileSystem.walk fs followLast here names with
  | case3 here rest _ ih => exact ih
  | case4 here rest _ _ ih => exact ih
  | case10 here name rest _ _ _ _ next entry _ stood ih => exact ih
  | _ => simp

theorem follow_ne_exists (fs : FileSystem) (followLast : Bool) (links : Nat) (here : Location)
    (names : List String) : fs.follow followLast links here names ≠ .error .exists := by
  fun_induction FileSystem.follow fs followLast links here names with
  | case2 links here names e walked =>
      rintro same
      obtain rfl := Except.error.inj same
      exact walk_ne_exists fs followLast here names walked
  | case5 here names directory target rest walked links inhabited path ih => exact ih
  | _ => simp

theorem found_of_exists {fs : FileSystem} {here : Location} {path : Path}
    (tried : fs.makeDirectory here path = .error .exists) :
    ∃ l, fs.resolve false here path = .ok (.found l) := by
  cases resolved : fs.resolve false here path with
  | ok r =>
      cases r with
      | found l => exact ⟨l, rfl⟩
      | absent l =>
          simp [makeDirectory, resolved, bind, Except.bind, pure, Except.pure] at tried
  | error e =>
      obtain rfl : e = .exists := by
        simpa [makeDirectory, resolved, bind, Except.bind] using tried
      rw [resolve] at resolved
      split at resolved
      · simp at resolved
      split at resolved
      · simp at resolved
      split at resolved
      · simp at resolved
      exact absurd resolved (follow_ne_exists fs false 40 _ _)

/-! ## A path that leads to a place -/

/-- A path leads to a place: to what stands there, with no link at it or at the names on a way
below it, or to where nothing stands. -/
inductive Leads (here : Location) (d : Path) (place : Location) (way : List String)
    (fs : FileSystem) : Prop where
  | stands (found : fs.resolve false here d = .ok (.found place))
      (noLink : ∀ p, p <+: way → ∀ target, fs.entry? (place ++ p) ≠ some (.link target))
  | vacant (absent : fs.resolve false here d = .ok (.absent place))
      (nothing : ∀ l, place <+: l → fs.entry? l = none)

section Leads
variable {fs fs' : FileSystem} {here : Location} {d : Path} {place : Location} {way : List String}

theorem leads_of_makeDirectory (tree : fs.IsTree) (way : List String)
    (made : fs.makeDirectory here d = .ok fs') :
    ∃ place, fs.Vacant place ∧ fs' = fs.put place .directory ∧
      fs'.resolve false here d = .ok (.found place) ∧ Leads here d place way fs' := by
  obtain ⟨place, vacant, isPut, found⟩ := makeDirectory_eq_put made
  refine ⟨place, vacant, isPut, found, .stands found fun p _ target => ?_⟩
  rw [isPut, entry?_put fs vacant.notRoot]
  by_cases atPlace : place ++ p = place
  · simp [atPlace]
  · rw [if_neg atPlace, tree.nothing_below vacant.nothing ⟨p, rfl⟩]
    simp

theorem Leads.write (leads : Leads here d place way fs) {base : Location} {path : Path}
    {content : Bytes} (written : fs.write base path content = .ok fs') :
    Leads here d place way fs' := by
  obtain ⟨r, executable, resolved, takes, rfl, _⟩ := write_eq_put written
  have entries := entry?_put fs takes.notRoot (.file content executable)
  cases leads with
  | stands found noLink =>
      refine .stands (resolve_put takes (by simp) false here d found) fun p before target => ?_
      rw [entries]
      split
      · simp
      · exact noLink p before target
  | vacant absent nothing =>
      have again : (fs.put r.location (.file content executable)).resolve false here d =
          .ok (Resolved.filledAt r.location (.absent place)) :=
        resolve_put takes (by simp) false here d absent
      by_cases isPlace : place = r.location
      · refine .stands (by simpa [Resolved.filledAt, isPlace] using again) fun p _ target => ?_
        rw [entries]
        split
        · simp
        · simp [nothing (place ++ p) ⟨p, rfl⟩]
      · refine .vacant (by simpa [Resolved.filledAt, isPlace] using again) fun l below => ?_
        -- below the place there is no directory to put a file in
        have other : l ≠ r.location := by
          rintro rfl
          rcases takes with vacant' | ⟨_, _, isFile⟩
          · have above := vacant'.inDirectory
            rw [isDirectoryAt_iff, nothing _ (prefix_dropLast below isPlace)] at above
            cases above
          · rw [nothing r.location below] at isFile
            cases isFile
        rw [entries, if_neg other]
        exact nothing l below

/-- What is written below the path is written below the place. -/
theorem Leads.write_inside {q : Path} {content : Bytes} (leads : Leads here d place q.inner fs)
    (ends : d.EndsInName) (continues : q.Continues) (below : q.StaysBelow)
    (written : fs.write here (d.join q) content = .ok fs') :
    ∃ executable, fs' = fs.put (place ++ q.inner) (.file content executable) := by
  obtain ⟨r, executable, resolved, _, isPut, _⟩ := write_eq_put written
  obtain ⟨l, left, leadsTo, followed⟩ := resolve_join ends continues resolved
  have noUp := ((Path.staysBelow_iff q).mp below).2
  rcases resolve_last fs here d with same | ⟨l', target, atLink, isLink⟩
  · cases leads with
    | stands found noLink =>
        rw [same, leadsTo] at found
        obtain rfl : l = place := by simpa using found
        rw [follow_inside noUp noLink followed] at isPut
        exact ⟨executable, isPut⟩
    | vacant absent nothing =>
        rw [same, leadsTo] at absent
        simp at absent
  · cases leads with
    | stands found noLink =>
        rw [atLink] at found
        obtain rfl : l' = place := by simpa using found
        exact absurd isLink (by simpa using noLink [] List.nil_prefix target)
    | vacant absent nothing =>
        rw [atLink] at absent
        simp at absent

end Leads

end ChartInflation.FileSystem
