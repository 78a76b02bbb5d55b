import ChartInflation.Proofs.FileSystem.Directories

/-!
# File systems with more in them

What stands in a part of a file system stands in the whole (`IsPart`).  A resolution that leaves the
last link alone takes the same steps in both, unless it fails in the part; only a name that is
missing at its end may be there in the whole (`resolve_of_isPart`).  So a path that ends in a name
leads nowhere once what it led to was removed (`removeTree_not_found`).
-/

set_option autoImplicit false

namespace ChartInflation.FileSystem

/-- Whether all that stands in a file system stands in another one as well. -/
def IsPart (fs whole : FileSystem) : Prop :=
  ∀ l entry, fs.entry? l = some entry → whole.entry? l = some entry

section Part
variable {fs whole larger : FileSystem}

theorem IsPart.trans (first : fs.IsPart whole) (second : whole.IsPart larger) :
    fs.IsPart larger :=
  fun l entry stands => second l entry (first l entry stands)

theorem isPart_put {place : Location} (vacant : fs.Vacant place) (entry : Entry) :
    fs.IsPart (fs.put place entry) := by
  intro l other stands
  rw [entry?_put fs vacant.notRoot]
  have elsewhere : l ≠ place := by
    rintro rfl
    simp [vacant.nothing] at stands
  rw [if_neg elsewhere, stands]

theorem isPart_removeTree {place : Location} (part : fs.IsPart whole) (notRoot : place ≠ [])
    (nothing : ∀ l, place <+: l → fs.entry? l = none) : fs.IsPart (whole.removeTree place) := by
  intro l entry stands
  have outside : ¬ place <+: l := fun below => by simp [nothing l below] at stands
  rw [entry?_removeTree whole notRoot, if_neg outside]
  exact part l entry stands

theorem removeTree_isPart {place : Location} (notRoot : place ≠ []) :
    (fs.removeTree place).IsPart fs := by
  intro l entry stands
  rw [entry?_removeTree fs notRoot] at stands
  split at stands
  · cases stands
  · exact stands

theorem IsPart.isDirectoryAt (part : fs.IsPart whole) {l : Location}
    (isDirectory : fs.isDirectoryAt l) : whole.isDirectoryAt l := by
  rw [isDirectoryAt_iff] at isDirectory ⊢
  exact part l .directory isDirectory

/-! ## The same resolution -/

def Resolved.seenIn (whole : FileSystem) : Resolved → Resolved
  | .found l => .found l
  | .absent l => if (whole.entry? l).isSome then .found l else .absent l

theorem Resolved.location_seenIn (whole : FileSystem) (r : Resolved) :
    (r.seenIn whole).location = r.location := by
  cases r with
  | found l => rfl
  | absent l =>
      rw [Resolved.seenIn]
      split <;> rfl

def Walk.seenIn (whole : FileSystem) : Walk → Walk
  | .arrived r => .arrived (r.seenIn whole)
  | w => w

theorem walk_of_isPart (part : fs.IsPart whole) (here : Location) (names : List String) {w : Walk}
    (walked : fs.walk false here names = w) (going : ∀ e, w ≠ .failed e) :
    whole.walk false here names = w.seenIn whole := by
  induction names generalizing here with
  | nil =>
      rw [walk] at walked
      subst walked
      rfl
  | cons name rest ih =>
      rcases walk_cases fs here name with ⟨inDirectory, rfl, stays⟩ | ⟨inDirectory, rfl, goesUp⟩ |
        ⟨e, fails⟩ | enters
      · rw [stays] at walked
        simpa [walk, part.isDirectoryAt inDirectory] using ih here walked
      · rw [goesUp] at walked
        simpa [walk, part.isDirectoryAt inDirectory] using ih here.dropLast walked
      · rw [fails] at walked
        exact absurd walked.symm (going e)
      · have enters' : whole.Enters here name :=
          ⟨part.isDirectoryAt enters.inDirectory, enters.notHere, enters.notUp, enters.short⟩
        rcases fs.entry?_cases (here ++ [name]) with
          stood | ⟨target, stood⟩ | ⟨entry, stood, noLink⟩
        · rw [walk_of_nothing enters stood] at walked
          cases rest with
          | cons next rest => exact absurd walked.symm (going .notFound)
          | nil =>
              -- in the whole the name may be that of anything
              subst walked
              rcases whole.entry?_cases (here ++ [name]) with
                stands | ⟨target, stands⟩ | ⟨entry, stands, noLink⟩
              · rw [walk_of_nothing enters' stands]
                simp [Walk.seenIn, Resolved.seenIn, stands]
              · rw [walk_of_link enters' stands]
                simp [Walk.seenIn, Resolved.seenIn, stands]
              · rw [walk_of_entry enters' stands noLink]
                simp [walk, Walk.seenIn, Resolved.seenIn, stands]
        · rw [walk_of_link enters stood] at walked
          rw [walk_of_link enters' (part _ _ stood), walked]
          subst walked
          split <;> rfl
        · rw [walk_of_entry enters stood noLink] at walked
          rw [walk_of_entry enters' (part _ entry stood) noLink]
          exact ih (here ++ [name]) walked

theorem follow_of_isPart (part : fs.IsPart whole) {links : Nat} {here : Location}
    {names : List String} {r : Resolved} (followed : fs.follow false links here names = .ok r) :
    whole.follow false links here names = .ok (r.seenIn whole) := by
  fun_induction FileSystem.follow fs false links here names with
  | case1 links here names r' walked =>
      rw [follow, walk_of_isPart part here names walked (by simp), ← Except.ok.inj followed]
      rfl
  | case2 | case3 | case4 => simp at followed
  | case5 here names directory target rest walked links inhabited path ih =>
      rw [follow, walk_of_isPart part here names walked (by simp)]
      simp only [Walk.seenIn, if_neg inhabited]
      exact ih followed

theorem resolve_of_isPart (part : fs.IsPart whole) {here : Location} {path : Path} {r : Resolved}
    (resolved : fs.resolve false here path = .ok r) :
    whole.resolve false here path = .ok (r.seenIn whole) := by
  rw [resolve] at resolved ⊢
  split at resolved
  · simp at resolved
  rw [if_neg ‹_›]
  split at resolved
  · simp at resolved
  rw [if_neg ‹_›]
  split at resolved
  · simp at resolved
  rw [if_neg ‹_›]
  exact follow_of_isPart part resolved

end Part

/-! ## Paths that end in a name -/

def IsLink (fs : FileSystem) (here : Location) (path : Path) : Prop :=
  ∃ l target, fs.resolve false here path = .ok (.found l) ∧ fs.entry? l = some (.link target)

section Named
variable {fs : FileSystem} {here : Location} {name : String} (notHere : name ≠ ".")
  (notUp : name ≠ "..")
include notHere notUp

/-- Steps up to a name end at an entry of that name, where it is missing, or at a link before. -/
theorem walk_name (names : List String) {w : Walk}
    (walked : fs.walk false here (names ++ [name]) = w) (going : ∀ e, w ≠ .failed e) :
    (∃ d, w = .arrived (.found (d ++ [name])) ∧ fs.entry? (d ++ [name]) ≠ none) ∨
      (∃ l, w = .arrived (.absent l)) ∨
      ∃ d target rest, w = .atLink d target (rest ++ [name]) := by
  induction names generalizing here with
  | nil =>
      rcases walk_cases fs here name with ⟨_, dot, _⟩ | ⟨_, dots, _⟩ | ⟨e, fails⟩ | enters
      · exact absurd dot notHere
      · exact absurd dots notUp
      · exact absurd (walked.symm.trans (fails false [])) (going e)
      · rw [List.nil_append] at walked
        rcases fs.entry?_cases (here ++ [name]) with
          stands | ⟨target, stands⟩ | ⟨entry, stands, noLink⟩
        · rw [walk_of_nothing enters stands] at walked
          exact Or.inr (Or.inl ⟨here ++ [name], by simpa using walked.symm⟩)
        · rw [walk_of_link enters stands] at walked
          exact Or.inl ⟨here, by simpa using walked.symm, by simp [stands]⟩
        · rw [walk_of_entry enters stands noLink] at walked
          exact Or.inl ⟨here, by simpa [walk] using walked.symm, by simp [stands]⟩
  | cons first names ih =>
      rw [List.cons_append] at walked
      rcases walk_cases fs here first with ⟨_, _, stays⟩ | ⟨_, _, goesUp⟩ | ⟨e, fails⟩ | enters
      · exact ih ((stays false _).symm.trans walked)
      · exact ih ((goesUp false _).symm.trans walked)
      · exact absurd (walked.symm.trans (fails false _)) (going e)
      · rcases fs.entry?_cases (here ++ [first]) with
          stands | ⟨target, stands⟩ | ⟨entry, stands, noLink⟩
        · rw [walk_of_nothing enters stands, if_neg (by simp)] at walked
          exact absurd walked.symm (going .notFound)
        · rw [walk_of_link enters stands, if_neg (by simp)] at walked
          exact Or.inr (Or.inr ⟨here, target, names, walked.symm⟩)
        · rw [walk_of_entry enters stands noLink] at walked
          exact ih walked

theorem follow_name {links : Nat} {names : List String} {l : Location}
    (ends : ∃ front, names = front ++ [name])
    (followed : fs.follow false links here names = .ok (.found l)) :
    ∃ d, l = d ++ [name] ∧ fs.entry? l ≠ none := by
  fun_induction FileSystem.follow fs false links here names with
  | case1 links here names r walked =>
      obtain ⟨front, rfl⟩ := ends
      rw [Except.ok.inj followed] at walked
      rcases walk_name notHere notUp front walked (by simp) with
        ⟨d, atName, stands⟩ | ⟨_, missing⟩ | ⟨_, _, _, onTheWay⟩
      · obtain rfl : l = d ++ [name] := by simpa using atName
        exact ⟨d, rfl, stands⟩
      · simp at missing
      · simp at onTheWay
  | case2 | case3 | case4 => simp at followed
  | case5 here names directory target rest walked links inhabited path ih =>
      obtain ⟨front, rfl⟩ := ends
      rcases walk_name notHere notUp front walked (by simp) with
        ⟨_, atName, _⟩ | ⟨_, missing⟩ | ⟨_, _, rest, onTheWay⟩
      · simp at atName
      · simp at missing
      · obtain ⟨_, _, rfl⟩ := Walk.atLink.inj onTheWay
        exact ih ⟨steps path ++ rest, by simp⟩ followed

theorem resolve_name {path : Path} {l : Location} (ends : ∃ front, steps path = front ++ [name])
    (found : fs.resolve false here path = .ok (.found l)) :
    ∃ d, l = d ++ [name] ∧ fs.entry? l ≠ none := by
  rw [resolve] at found
  split at found
  · cases found
  split at found
  · cases found
  split at found
  · cases found
  exact follow_name notHere notUp ends found

/-- Unless a link stands at its end, a path that ends in a name leads to an entry of that name. -/
theorem locate_name {path : Path} {l : Location} (ends : ∃ front, steps path = front ++ [name])
    (noLink : ¬ fs.IsLink here path) (located : fs.locate here path = .ok l) :
    ∃ d, l = d ++ [name] := by
  rcases resolve_last fs here path with same | isLink
  · rw [locate_eq_ok_iff, ← same] at located
    obtain ⟨d, isNamed, _⟩ := resolve_name notHere notUp ends located
    exact ⟨d, isNamed⟩
  · exact absurd isLink noLink

/-- Where a path that ends in a name leads is not the root, and once it is removed the path leads
nowhere. -/
theorem removeTree_not_found {path : Path} {l : Location}
    (ends : ∃ front, steps path = front ++ [name])
    (found : fs.resolve false here path = .ok (.found l)) :
    l ≠ [] ∧ ∀ l', (fs.removeTree l).resolve false here path ≠ .ok (.found l') := by
  obtain ⟨d, isNamed, _⟩ := resolve_name notHere notUp ends found
  have notRoot : l ≠ [] := by simp [isNamed]
  refine ⟨notRoot, fun l' still => ?_⟩
  obtain ⟨_, _, stands⟩ := resolve_name notHere notUp ends still
  -- the same place would have been found before, and nothing stands there now
  have before := resolve_of_isPart (removeTree_isPart notRoot) still
  obtain rfl : l = l' := by simpa [found, Resolved.seenIn] using before
  rw [entry?_removeTree fs notRoot, if_pos List.prefix_rfl] at stands
  exact stands rfl

end Named

end ChartInflation.FileSystem
