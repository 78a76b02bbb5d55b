import ChartInflation.Proofs.FileSystem.Extending

/-!
# Going on from a directory

A path that leads to a directory leads there in every file system with more in it, and whatever is
written behind it is resolved from there (`Opens.onward`).  So one name behind it is resolved by
what stands under that name and by nothing else (`Opens.resolve_name`).
-/

set_option autoImplicit false

namespace ChartInflation.FileSystem

variable {fs whole : FileSystem} {here : Location}

/-! ## The same entries -/

theorem walk_congr (same : ∀ l, whole.entry? l = fs.entry? l) (followLast : Bool) (here : Location)
    (names : List String) : whole.walk followLast here names = fs.walk followLast here names := by
  induction names generalizing here with
  | nil => rfl
  | cons name names ih => simp only [walk, isDirectoryAt, same, ih]

theorem follow_congr (same : ∀ l, whole.entry? l = fs.entry? l) (followLast : Bool) (links : Nat)
    (here : Location) (names : List String) :
    whole.follow followLast links here names = fs.follow followLast links here names := by
  induction links generalizing here names with
  | zero => rw [follow, follow, walk_congr same]
  | succ links ih =>
      rw [follow, follow, walk_congr same]
      simp only [ih]

/-- Where a path leads depends on what stands where, and not on how that is recorded. -/
theorem resolve_congr (same : ∀ l, whole.entry? l = fs.entry? l) (followLast : Bool)
    (here : Location) (path : Path) :
    whole.resolve followLast here path = fs.resolve followLast here path := by
  simp only [resolve, follow_congr same]

/-! ## Steps that were taken in a part -/

def Walk.further (whole : FileSystem) (followLast : Bool) (rest : List String) : Walk → Walk
  | .arrived r => whole.walk followLast r.location rest
  | .failed e => .failed e
  | .atLink directory target more => .atLink directory target (more ++ rest)

/-- Steps that arrive at something, or at a link, go as far in the whole, and from there on with
those that remain. -/
theorem walk_front (part : fs.IsPart whole) {followLast : Bool} {rest : List String}
    (remain : followLast ∨ rest ≠ []) (here : Location) (names : List String) {w : Walk}
    (walked : fs.walk true here names = w) (going : ∀ e, w ≠ .failed e)
    (arrives : ∀ l, w ≠ .arrived (.absent l)) :
    whole.walk followLast here (names ++ rest) = w.further whole followLast rest := by
  induction names generalizing here with
  | nil =>
      rw [walk] at walked
      subst walked
      rfl
  | cons name names ih =>
      rw [List.cons_append]
      rcases walk_cases fs here name with ⟨inDirectory, rfl, stays⟩ | ⟨inDirectory, rfl, goesUp⟩ |
        ⟨e, fails⟩ | enters
      · rw [stays] at walked
        simpa [walk, part.isDirectoryAt inDirectory] using ih here walked
      · rw [goesUp] at walked
        simpa [walk, part.isDirectoryAt inDirectory] using ih here.dropLast walked
      · rw [fails] at walked
        exact absurd walked.symm (going e)
      · have enters' : whole.Enters here name :=
          ⟨part.isDirectoryAt enters.inDirectory, enters.notHere, enters.notUp, enters.short⟩
        rcases fs.entry?_cases (here ++ [name]) with
          stood | ⟨target, stood⟩ | ⟨entry, stood, noLink⟩
        · rw [walk_of_nothing enters stood] at walked
          split at walked
          · exact absurd walked.symm (arrives _)
          · exact absurd walked.symm (going _)
        · rw [walk_of_link enters stood] at walked
          have isFollowed : ¬ ((names ++ rest).isEmpty && !followLast) := by
            rcases remain with rfl | remain <;> simp_all
          rw [walk_of_link enters' (part _ _ stood), if_neg isFollowed, ← walked]
          simp [Walk.further]
        · rw [walk_of_entry enters stood noLink] at walked
          rw [walk_of_entry enters' (part _ entry stood) noLink]
          exact ih (here ++ [name]) walked

theorem follow_front {links : Nat} {names : List String} {l : Location}
    (followed : fs.follow true links here names = .ok (.found l)) :
    ∃ left, ∀ whole, fs.IsPart whole → ∀ (followLast : Bool) rest, followLast ∨ rest ≠ [] →
      whole.follow followLast links here (names ++ rest) =
        whole.follow followLast left l rest := by
  fun_induction FileSystem.follow fs true links here names with
  | case1 links here names r walked =>
      obtain rfl := Except.ok.inj followed
      refine ⟨links, fun whole part followLast rest remain => ?_⟩
      rw [follow, walk_front part remain here names walked (by simp) (by simp), Walk.further,
        Resolved.location, follow]
  | case2 | case3 | case4 => simp at followed
  | case5 here names directory target more walked links inhabited path ih =>
      obtain ⟨left, onward⟩ := ih followed
      refine ⟨left, fun whole part followLast rest remain => ?_⟩
      rw [follow, walk_front part remain here names walked (by simp) (by simp)]
      simp only [Walk.further, if_neg inhabited]
      rw [← onward whole part followLast rest remain, List.append_assoc]

theorem locate_of_isPart (part : fs.IsPart whole) {path : Path} {l : Location}
    (located : fs.locate here path = .ok l) : whole.locate here path = .ok l := by
  rw [locate_eq_ok_iff] at located ⊢
  rw [resolve] at located ⊢
  split at located
  · cases located
  rw [if_neg ‹_›]
  split at located
  · cases located
  rw [if_neg ‹_›]
  split at located
  · cases located
  rw [if_neg ‹_›]
  obtain ⟨left, onward⟩ := follow_front located
  have arrives := onward whole part true [] (.inl rfl)
  rw [List.append_nil] at arrives
  rw [arrives, follow, walk]

theorem isDirectory_of_isPart (part : fs.IsPart whole) {path : Path}
    (isDirectory : fs.isDirectory here path) : whole.isDirectory here path := by
  unfold FileSystem.isDirectory at isDirectory ⊢
  cases located : fs.locate here path with
  | error e => simp [located] at isDirectory
  | ok l =>
      rw [located] at isDirectory
      rw [locate_of_isPart part located]
      exact part.isDirectoryAt isDirectory

/-! ## Behind a directory -/

def origin (here : Location) (path : Path) : Location :=
  if path.isAbsolute then [] else here

/-- A path whose steps, of which there may be none, lead to a directory. -/
structure Opens (fs : FileSystem) (here : Location) (d : Path) (place : Location) : Prop where
  leads : fs.follow true 40 (origin here d) d.names = .ok (.found place)
  isDirectory : fs.isDirectoryAt place

section Opens
variable {d : Path} {place : Location} {name : String}

theorem Opens.unique (opens : fs.Opens here d place) {place' : Location}
    (other : fs.Opens here d place') : place = place' := by
  simpa [opens.leads] using other.leads

theorem Opens.onward (opens : fs.Opens here d place) :
    ∃ left, ∀ whole, fs.IsPart whole → ∀ (followLast : Bool) rest, followLast ∨ rest ≠ [] →
      whole.follow followLast 40 (origin here d) (d.names ++ rest) =
        whole.follow followLast left place rest :=
  follow_front opens.leads

theorem opens_of_found (ends : d.EndsInName)
    (resolved : fs.resolve false here d = .ok (.found place))
    (isDirectory : fs.isDirectoryAt place) : fs.Opens here d place := by
  refine ⟨?_, isDirectory⟩
  rcases resolve_last fs here d with same | ⟨l, target, atLink, isLink⟩
  · rw [resolved] at same
    have leads := same.symm
    rw [resolve, Path.steps_of_endsInName ends] at leads
    split at leads
    · cases leads
    split at leads
    · cases leads
    split at leads
    · cases leads
    exact leads
  · obtain rfl : place = l := by simpa [resolved] using atLink
    rw [isDirectoryAt_iff, isLink] at isDirectory
    cases isDirectory

structure IsEntryName (name : String) : Prop where
  inhabited : name.toList ≠ []
  noSlash : '/' ∉ name.toList
  notHere : name ≠ "."
  notUp : name ≠ ".."

variable (isName : IsEntryName name)
include isName

theorem IsEntryName.continues : Path.Continues ⟨name⟩ :=
  Path.continues_of_not_mem isName.inhabited isName.noSlash

theorem resolve_joinName (here : Location) (d : Path) :
    (∃ e, ∀ (fs : FileSystem) followLast,
      fs.resolve followLast here (d.joinName name) = .error e) ∨
    ∀ (fs : FileSystem) followLast, fs.resolve followLast here (d.joinName name) =
      fs.follow followLast 40 (origin here d) (d.names ++ [name]) := by
  unfold resolve
  by_cases nul : (d.joinName name).text.toList.contains '\x00'
  · exact .inl ⟨.nulInPath, fun _ _ => if_pos nul⟩
  by_cases empty : (d.joinName name).isEmpty
  · exact .inl ⟨.notFound, fun _ _ => by rw [if_neg nul, if_pos empty]⟩
  by_cases long : (Utf8.encode (d.joinName name).text.toList).length ≥ 4096
  · exact .inl ⟨.nameTooLong, fun _ _ => by rw [if_neg nul, if_neg empty, if_pos long]⟩
  · refine .inr fun fs followLast => ?_
    rw [if_neg nul, if_neg empty, if_neg long, Path.joinName, Path.steps_join isName.continues,
      Path.isAbsolute_join isName.continues.relative,
      Path.names_of_not_mem isName.inhabited isName.noSlash, origin]

/-- A step to a name from a directory ends at what stands there, unless it is a link to follow. -/
theorem walk_entryName (isDirectory : whole.isDirectoryAt place)
    (short : ¬ (Utf8.encode name.toList).length > 255) {followLast : Bool}
    (noLink : followLast → ∀ target, whole.entry? (place ++ [name]) ≠ some (.link target)) :
    whole.walk followLast place [name] =
      .arrived (Resolved.seenIn whole (.absent (place ++ [name]))) := by
  have enters : whole.Enters place name := ⟨isDirectory, isName.notHere, isName.notUp, short⟩
  rcases whole.entry?_cases (place ++ [name]) with
    stands | ⟨target, stands⟩ | ⟨entry, stands, other⟩
  · rw [walk_of_nothing enters stands]
    simp [Resolved.seenIn, stands]
  · have left : followLast = false := by
      rw [← Bool.not_eq_true]
      exact fun isFollowed => noLink isFollowed target stands
    rw [walk_of_link enters stands]
    simp [left, Resolved.seenIn, stands]
  · rw [walk_of_entry enters stands other]
    simp [walk, Resolved.seenIn, stands]

/-- In all file systems in which a path leads to a directory, a name behind it is refused for what
it is, or leads to what stands there. -/
theorem Opens.resolve_name (opens : fs.Opens here d place) :
    (∃ e, ∀ whole, fs.IsPart whole → ∀ followLast,
      whole.resolve followLast here (d.joinName name) = .error e) ∨
    ∀ whole, fs.IsPart whole → ∀ followLast : Bool,
      (followLast → ∀ target, whole.entry? (place ++ [name]) ≠ some (.link target)) →
      whole.resolve followLast here (d.joinName name) =
        .ok (Resolved.seenIn whole (.absent (place ++ [name]))) := by
  rcases resolve_joinName isName here d with ⟨e, refused⟩ | taken
  · exact .inl ⟨e, fun whole _ followLast => refused whole followLast⟩
  obtain ⟨left, onward⟩ := opens.onward
  have steps : ∀ whole, fs.IsPart whole → ∀ followLast,
      whole.resolve followLast here (d.joinName name) = whole.follow followLast left place [name] :=
    fun whole part followLast =>
      (taken whole followLast).trans (onward whole part followLast [name] (.inr (by simp)))
  by_cases long : (Utf8.encode name.toList).length > 255
  · refine .inl ⟨.nameTooLong, fun whole part followLast => ?_⟩
    rw [steps whole part, follow]
    simp [walk, part.isDirectoryAt opens.isDirectory, isName.notHere, isName.notUp, long]
  · refine .inr fun whole part followLast noLink => ?_
    rw [steps whole part, follow,
      walk_entryName isName (part.isDirectoryAt opens.isDirectory) long noLink]

theorem opens_of_absent {l : Location}
    (resolved : fs.resolve false here (d.joinName name) = .ok (.absent l)) :
    ∃ place, fs.Opens here d place ∧ l = place ++ [name] := by
  rcases resolve_joinName isName here d with ⟨e, refused⟩ | taken
  · cases (refused fs false).symm.trans resolved
  rw [taken] at resolved
  have followed : fs.follow true 40 (origin here d) (d.names ++ [name]) = .ok (.absent l) := by
    rcases follow_last fs 40 (origin here d) (d.names ++ [name]) with same | ⟨_, _, ends, _⟩
    · rwa [← same]
    · cases resolved.symm.trans ends
  obtain ⟨place, _, leads, _⟩ := follow_append (by simp) followed
  obtain ⟨left, onward⟩ := follow_front leads
  rw [onward fs (fun _ _ stands => stands) false [name] (.inr (by simp)), follow] at resolved
  rcases walk_cases fs place name with ⟨_, rfl, _⟩ | ⟨_, rfl, _⟩ | ⟨e, fails⟩ | enters
  · exact absurd rfl isName.notHere
  · exact absurd rfl isName.notUp
  · simp [fails] at resolved
  · refine ⟨place, ⟨leads, enters.inDirectory⟩, ?_⟩
    rw [walk_entryName isName enters.inDirectory enters.short (by simp)] at resolved
    simp only [Resolved.seenIn, Except.ok.injEq] at resolved
    split at resolved
    · cases resolved
    · exact (Resolved.absent.inj resolved).symm

end Opens

end ChartInflation.FileSystem
