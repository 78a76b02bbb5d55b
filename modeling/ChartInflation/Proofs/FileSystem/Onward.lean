import ChartInflation.Proofs.FileSystem.Writing
import ChartInflation.Proofs.Path

/-!
# Resolving onward

A path behind another one is resolved from where the first one leads (`resolve_join`).  From there,
if it does not go up and meets no link, it leads below that place, to what its names say
(`follow_inside`).
-/

set_option autoImplicit false

namespace ChartInflation.FileSystem

/-! ## Further steps -/

def Walk.onward (fs : FileSystem) (rest : List String) : Walk → Walk
  | .arrived (.found l) => fs.walk true l rest
  | .arrived (.absent _) => .failed .notFound
  | .failed e => .failed e
  | .atLink directory target more => .atLink directory target (more ++ rest)

section Onward
variable {fs : FileSystem} {rest : List String} (remain : rest ≠ [])
include remain

theorem walk_append (here : Location) (names : List String) :
    fs.walk true here (names ++ rest) = (fs.walk true here names).onward fs rest := by
  induction names generalizing here with
  | nil => rfl
  | cons name names ih =>
      rw [List.cons_append]
      rcases walk_cases fs here name with ⟨_, _, stays⟩ | ⟨_, _, goesUp⟩ | ⟨e, fails⟩ | enters
      · rw [stays, stays, ih]
      · rw [goesUp, goesUp, ih]
      · rw [fails, fails]
        rfl
      · rcases fs.entry?_cases (here ++ [name]) with
          stood | ⟨target, stood⟩ | ⟨entry, stood, noLink⟩
        · rw [walk_of_nothing enters stood, walk_of_nothing enters stood]
          cases names <;> simp [Walk.onward, remain]
        · rw [walk_of_link enters stood, walk_of_link enters stood]
          simp [Walk.onward]
        · rw [walk_of_entry enters stood noLink, walk_of_entry enters stood noLink, ih]

theorem follow_append {links : Nat} {here : Location} {names : List String} {r : Resolved}
    (followed : fs.follow true links here (names ++ rest) = .ok r) :
    ∃ l left, fs.follow true links here names = .ok (.found l) ∧
      fs.follow true left l rest = .ok r := by
  fun_induction FileSystem.follow fs true links here names with
  | case1 links here names r' walked =>
      rw [follow, walk_append remain, walked] at followed
      cases r' with
      | absent l => simp [Walk.onward] at followed
      | found l =>
          refine ⟨l, links, rfl, ?_⟩
          rw [follow]
          exact followed
  | case2 links here names e walked =>
      rw [follow, walk_append remain, walked] at followed
      simp [Walk.onward] at followed
  | case3 here names directory target more walked =>
      rw [follow, walk_append remain, walked] at followed
      simp [Walk.onward] at followed
  | case4 here names directory target more walked links empty =>
      rw [follow, walk_append remain, walked] at followed
      simp [Walk.onward, empty] at followed
  | case5 here names directory target more walked links inhabited path ih =>
      rw [follow, walk_append remain, walked] at followed
      -- the steps of the link's target come in front of those that remain on either side
      simp only [Walk.onward, if_neg inhabited, ← List.append_assoc] at followed
      exact ih followed

end Onward

/-! ## The last link -/

theorem walk_last (fs : FileSystem) (here : Location) (names : List String) :
    fs.walk false here names = fs.walk true here names ∨
      ∃ l target, fs.walk false here names = .arrived (.found l) ∧
        fs.entry? l = some (.link target) := by
  induction names generalizing here with
  | nil => exact Or.inl rfl
  | cons name names ih =>
      rcases walk_cases fs here name with ⟨_, _, stays⟩ | ⟨_, _, goesUp⟩ | ⟨e, fails⟩ | enters
      · simpa only [stays] using ih here
      · simpa only [goesUp] using ih here.dropLast
      · exact Or.inl (by rw [fails, fails])
      · rcases fs.entry?_cases (here ++ [name]) with
          stood | ⟨target, stood⟩ | ⟨entry, stood, noLink⟩
        · exact Or.inl (by rw [walk_of_nothing enters stood, walk_of_nothing enters stood])
        · rw [walk_of_link enters stood, walk_of_link enters stood]
          -- behind a link that is not the last name nothing differs
          by_cases last : names.isEmpty
          · exact Or.inr ⟨here ++ [name], target, by simp [last], stood⟩
          · exact Or.inl (by simp [last])
        · simpa only [walk_of_entry enters stood noLink] using ih (here ++ [name])

theorem follow_last (fs : FileSystem) (links : Nat) (here : Location) (names : List String) :
    fs.follow false links here names = fs.follow true links here names ∨
      ∃ l target, fs.follow false links here names = .ok (.found l) ∧
        fs.entry? l = some (.link target) := by
  induction links generalizing here names with
  | zero =>
      rcases walk_last fs here names with same | ⟨l, target, ends, isLink⟩
      · exact Or.inl (by rw [follow, follow, same])
      · exact Or.inr ⟨l, target, by rw [follow, ends], isLink⟩
  | succ links ih =>
      rcases walk_last fs here names with same | ⟨l, target, ends, isLink⟩
      · cases walked : fs.walk true here names with
        | atLink directory target rest =>
            by_cases empty : target.isEmpty
            · exact Or.inl (by simp [follow, same, walked, empty])
            · unfold follow
              simp only [same, walked, if_neg empty]
              exact ih _ _
        | _ => exact Or.inl (by rw [follow, follow, same, walked])
      · exact Or.inr ⟨l, target, by rw [follow, ends], isLink⟩

theorem resolve_last (fs : FileSystem) (here : Location) (path : Path) :
    fs.resolve false here path = fs.resolve true here path ∨
      ∃ l target, fs.resolve false here path = .ok (.found l) ∧
        fs.entry? l = some (.link target) := by
  unfold resolve
  split
  · exact Or.inl rfl
  split
  · exact Or.inl rfl
  split
  · exact Or.inl rfl
  exact follow_last fs 40 _ (steps path)

/-! ## Below a place -/

section Inside
variable {fs : FileSystem} {place : Location} {names : List String}

/-- Steps that do not go up and meet no link lead to what their names say, if anywhere. -/
theorem walk_inside (noUp : ".." ∉ names)
    (noLink : ∀ p, p <+: names.filter (· != ".") → ∀ target,
      fs.entry? (place ++ p) ≠ some (.link target)) :
    (∃ e, fs.walk true place names = .failed e) ∨
      ∃ r, fs.walk true place names = .arrived r ∧
        r.location = place ++ names.filter (· != ".") := by
  induction names generalizing place with
  | nil => exact Or.inr ⟨.found place, rfl, by simp [Resolved.location]⟩
  | cons name names ih =>
      rw [List.mem_cons, not_or] at noUp
      rcases walk_cases fs place name with ⟨_, rfl, stays⟩ | ⟨_, up, _⟩ | ⟨e, fails⟩ | enters
      · rw [stays]
        exact ih noUp.2 noLink
      · exact absurd up.symm noUp.1
      · exact Or.inl ⟨e, fails true names⟩
      · have enter : (name :: names).filter (· != ".") = name :: names.filter (· != ".") := by
          simp [enters.notHere]
        rw [enter] at noLink ⊢
        cases stood : fs.entry? (place ++ [name]) with
        | none =>
            rw [walk_of_nothing enters stood]
            cases names with
            | nil => exact Or.inr ⟨.absent (place ++ [name]), rfl, rfl⟩
            | cons next names => exact Or.inl ⟨.notFound, rfl⟩
        | some entry =>
            -- the names that are left are those below the place that is entered
            have isNoLink : ∀ target, entry ≠ .link target := fun target same =>
              noLink [name] ⟨_, rfl⟩ target (same ▸ stood)
            rw [walk_of_entry enters stood isNoLink]
            have onward := @ih (place ++ [name]) noUp.2 fun p before target => by
              simpa using noLink (name :: p) (List.cons_prefix_cons.mpr ⟨rfl, before⟩) target
            simpa using onward

theorem follow_inside {links : Nat} {r : Resolved} (noUp : ".." ∉ names)
    (noLink : ∀ p, p <+: names.filter (· != ".") → ∀ target,
      fs.entry? (place ++ p) ≠ some (.link target))
    (followed : fs.follow true links place names = .ok r) :
    r.location = place ++ names.filter (· != ".") := by
  rcases walk_inside noUp noLink with ⟨e, walked⟩ | ⟨r', walked, isInside⟩
  · rw [follow, walked] at followed
    simp at followed
  · rw [follow, walked] at followed
    exact Except.ok.inj followed ▸ isInside

end Inside

/-! ## Joined paths -/

/-- A path behind another one is resolved from where that one leads. -/
theorem resolve_join {fs : FileSystem} {here : Location} {d q : Path} {r : Resolved}
    (ends : d.EndsInName) (continues : q.Continues)
    (resolved : fs.resolve true here (d.join q) = .ok r) :
    ∃ l left, fs.resolve true here d = .ok (.found l) ∧
      fs.follow true left l q.names = .ok r := by
  obtain ⟨slash, text, _⟩ := Path.text_join (d := d) continues.relative
  have inhabited : ¬ d.isEmpty := by
    simpa [Path.isEmpty, String.isEmpty_iff, ← String.toList_eq_nil_iff] using ends.inhabited
  rw [resolve, Path.steps_join continues, Path.isAbsolute_join continues.relative] at resolved
  split at resolved
  · simp at resolved
  next noNul =>
    split at resolved
    · simp at resolved
    split at resolved
    · simp at resolved
    next short =>
      obtain ⟨l, left, leads, rest⟩ := follow_append (Path.names_ne_nil continues) resolved
      refine ⟨l, left, ?_, rest⟩
      rw [text] at noNul short
      have noNulLeft : ¬ d.text.toList.contains '\x00' := by
        simp only [List.contains_append, Bool.or_eq_true, not_or] at noNul
        exact noNul.1.1
      have shortLeft : ¬ (Utf8.encode d.text.toList).length ≥ 4096 := by
        simp only [Utf8.encode, List.flatMap_append, List.length_append] at short ⊢
        omega
      rw [resolve, if_neg noNulLeft, if_neg inhabited, if_neg shortLeft,
        Path.steps_of_endsInName ends]
      exact leads

end ChartInflation.FileSystem
