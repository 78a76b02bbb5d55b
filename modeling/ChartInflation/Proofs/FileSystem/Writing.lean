import ChartInflation.FileSystem

/-!
# Writing files

A file that was written is read back through the same path, whatever links lie on the way, and
nothing else has changed (`write_spec`).  Writing puts a file where none or another file stood.
With anything there but a link, a resolution takes the same steps before and after; only where it
ended in front of the missing name it now ends at it (`follow_put`).
-/

set_option autoImplicit false

namespace ChartInflation.FileSystem

/-! ## Putting an entry -/

theorem lookup_replace (location l : Location) (entry : Entry) (entries : List (Location × Entry)) :
    (put.replace location entry entries).lookup l =
      if l = location then some entry else entries.lookup l := by
  induction entries with
  | nil =>
      by_cases here : l = location
      · simp [put.replace, here]
      · simp [put.replace, List.lookup_cons, here, beq_eq_false_iff_ne.mpr here]
  | cons e entries ih =>
      obtain ⟨k, old⟩ := e
      by_cases isIt : k = location
      · subst isIt
        by_cases here : l = k
        · simp [put.replace, here]
        · simp [put.replace, List.lookup_cons, here, beq_eq_false_iff_ne.mpr here]
      · rw [put.replace, if_neg isIt, List.lookup_cons, List.lookup_cons, ih]
        by_cases here : l = location
        · have apart : l ≠ k := fun equal => isIt (equal.symm.trans here)
          simp [here, beq_eq_false_iff_ne.mpr (here ▸ apart)]
        · simp [here]

theorem put_put (fs : FileSystem) (location : Location) (entry : Entry) :
    (fs.put location entry).put location entry = fs.put location entry := by
  have again : ∀ entries : List (Location × Entry),
      put.replace location entry (put.replace location entry entries) =
        put.replace location entry entries := by
    intro entries
    induction entries with
    | nil => simp [put.replace]
    | cons e entries ih =>
        by_cases here : e.1 = location
        · simp [put.replace, here]
        · simp [put.replace, here, ih]
  exact congrArg FileSystem.mk (again fs.entries)

theorem entry?_put (fs : FileSystem) {location : Location} (notRoot : location ≠ []) (entry : Entry)
    (l : Location) :
    entry? (fs.put location entry) l = if l = location then some entry else fs.entry? l := by
  by_cases isRoot : l = []
  · subst isRoot
    rw [if_neg (Ne.symm notRoot)]
    rfl
  · have inside : l.isEmpty = false := by simp [isRoot]
    unfold entry?
    simp only [inside, if_false, Bool.false_eq_true]
    exact lookup_replace location l entry fs.entries

theorem isDirectoryAt_iff (fs : FileSystem) (l : Location) :
    fs.isDirectoryAt l ↔ fs.entry? l = some .directory := by
  rw [isDirectoryAt, beq_iff_eq]

/-! ## One step -/

structure Enters (fs : FileSystem) (here : Location) (name : String) : Prop where
  inDirectory : fs.isDirectoryAt here
  notHere : name ≠ "."
  notUp : name ≠ ".."
  short : ¬ (Utf8.encode name.toList).length > 255

section Step
variable {fs : FileSystem} {followLast : Bool} {here : Location} {name : String}
  {rest : List String}

theorem walk_cases (fs : FileSystem) (here : Location) (name : String) :
    (fs.isDirectoryAt here ∧ name = "." ∧ ∀ followLast rest,
      fs.walk followLast here (name :: rest) = fs.walk followLast here rest) ∨
    (fs.isDirectoryAt here ∧ name = ".." ∧ ∀ followLast rest,
      fs.walk followLast here (name :: rest) = fs.walk followLast here.dropLast rest) ∨
    (∃ e, ∀ followLast rest, fs.walk followLast here (name :: rest) = .failed e) ∨
    fs.Enters here name := by
  by_cases inDirectory : fs.isDirectoryAt here
  case neg => exact Or.inr (Or.inr (Or.inl ⟨.notADirectory, by simp [walk, inDirectory]⟩))
  by_cases stay : name = "."
  · exact Or.inl ⟨inDirectory, stay, by simp [walk, inDirectory, stay]⟩
  by_cases up : name = ".."
  · exact Or.inr (Or.inl ⟨inDirectory, up, by simp [walk, inDirectory, up]⟩)
  by_cases long : (Utf8.encode name.toList).length > 255
  · exact Or.inr (Or.inr (Or.inl ⟨.nameTooLong, by simp [walk, inDirectory, stay, up, long]⟩))
  · exact Or.inr (Or.inr (Or.inr ⟨inDirectory, stay, up, long⟩))

theorem entry?_cases (fs : FileSystem) (l : Location) :
    fs.entry? l = none ∨ (∃ target, fs.entry? l = some (.link target)) ∨
      ∃ entry, fs.entry? l = some entry ∧ ∀ target, entry ≠ .link target := by
  cases fs.entry? l with
  | none => exact Or.inl rfl
  | some entry =>
      cases entry with
      | link target => exact Or.inr (Or.inl ⟨target, rfl⟩)
      | _ => exact Or.inr (Or.inr ⟨_, rfl, by simp⟩)

variable (enters : fs.Enters here name)
include enters

theorem walk_of_nothing (nothing : fs.entry? (here ++ [name]) = none) :
    fs.walk followLast here (name :: rest) =
      if rest.isEmpty then .arrived (.absent (here ++ [name])) else .failed .notFound := by
  obtain ⟨inDirectory, notHere, notUp, short⟩ := enters
  simp [walk, inDirectory, notHere, notUp, short, nothing]

theorem walk_of_link {target : String}
    (isLink : fs.entry? (here ++ [name]) = some (.link target)) :
    fs.walk followLast here (name :: rest) =
      if rest.isEmpty && !followLast then .arrived (.found (here ++ [name]))
      else .atLink here target rest := by
  obtain ⟨inDirectory, notHere, notUp, short⟩ := enters
  simp [walk, inDirectory, notHere, notUp, short, isLink]

theorem walk_of_entry {entry : Entry} (stands : fs.entry? (here ++ [name]) = some entry)
    (noLink : ∀ target, entry ≠ .link target) :
    fs.walk followLast here (name :: rest) = fs.walk followLast (here ++ [name]) rest := by
  obtain ⟨inDirectory, notHere, notUp, short⟩ := enters
  cases entry with
  | link target => exact absurd rfl (noLink target)
  | _ => simp [walk, inDirectory, notHere, notUp, short, stands]

end Step

/-! ## Something new at a location -/

/-- Where something may be put: nothing stands there, and a directory above. -/
structure Vacant (fs : FileSystem) (l : Location) : Prop where
  notRoot : l ≠ []
  nothing : fs.entry? l = none
  inDirectory : fs.isDirectoryAt l.dropLast

def TakesFile (fs : FileSystem) (location : Location) : Prop :=
  fs.Vacant location ∨ ∃ content executable, fs.entry? location = some (.file content executable)

theorem TakesFile.notRoot {fs : FileSystem} {location : Location} (takes : fs.TakesFile location) :
    location ≠ [] := by
  rcases takes with vacant | ⟨_, _, isFile⟩
  · exact vacant.notRoot
  · rintro rfl
    have isRoot : fs.entry? [] = some .directory := rfl
    simp [isRoot] at isFile

def Resolved.filledAt (location : Location) : Resolved → Resolved
  | .found l => .found l
  | .absent l => if l = location then .found l else .absent l

def Walk.filledAt (location : Location) : Walk → Walk
  | .arrived r => .arrived (r.filledAt location)
  | w => w

section Put
variable {fs : FileSystem} {location : Location} (takes : fs.TakesFile location) {entry : Entry}
include takes

theorem isDirectoryAt_put {l : Location} (isDirectory : fs.isDirectoryAt l) :
    (fs.put location entry).isDirectoryAt l := by
  rw [isDirectoryAt_iff] at isDirectory ⊢
  rw [entry?_put fs takes.notRoot]
  by_cases here : l = location
  · subst here
    rcases takes with vacant | ⟨old, executable, isFile⟩
    · simp [vacant.nothing] at isDirectory
    · simp [isFile] at isDirectory
  · rw [if_neg here]
    exact isDirectory

theorem enters_put {here : Location} {name : String} (enters : fs.Enters here name) :
    (fs.put location entry).Enters here name :=
  ⟨isDirectoryAt_put takes enters.inDirectory, enters.notHere, enters.notUp, enters.short⟩

section Enter
variable {followLast : Bool} {here : Location} {name : String} {rest : List String} {w : Walk}
  (enters : fs.Enters here name) (walked : fs.walk followLast here (name :: rest) = w)
  (going : ∀ e, w ≠ .failed e)
  (onward : fs.walk followLast (here ++ [name]) rest = w →
    (fs.put location entry).walk followLast (here ++ [name]) rest = w.filledAt location)
include enters walked going onward

theorem walk_put_into (noLink : ∀ target, entry ≠ .link target) (isIt : here ++ [name] = location) :
    (fs.put location entry).walk followLast here (name :: rest) = w.filledAt location := by
  have stands := entry?_put fs takes.notRoot entry (here ++ [name])
  rw [if_pos isIt] at stands
  rw [walk_of_entry (enters_put takes enters) stands noLink]
  rcases takes with vacant | ⟨old, executable, isFile⟩
  · -- the steps ended here: they fail if any remain
    rw [walk_of_nothing enters (isIt ▸ vacant.nothing)] at walked
    cases rest with
    | nil =>
        subst walked
        simp [walk, Walk.filledAt, Resolved.filledAt, isIt]
    | cons next rest => exact absurd walked.symm (going _)
  · rw [walk_of_entry enters (isIt ▸ isFile) (by simp)] at walked
    exact onward walked

theorem walk_put_past (isOther : here ++ [name] ≠ location) :
    (fs.put location entry).walk followLast here (name :: rest) = w.filledAt location := by
  have enters' : (fs.put location entry).Enters here name := enters_put takes enters
  have stands := entry?_put fs takes.notRoot entry (here ++ [name])
  rw [if_neg isOther] at stands
  rcases fs.entry?_cases (here ++ [name]) with stood | ⟨target, stood⟩ | ⟨old, stood, other⟩
  · rw [walk_of_nothing enters stood] at walked
    rw [walk_of_nothing enters' (stands.trans stood)]
    cases rest with
    | nil =>
        subst walked
        simp [Walk.filledAt, Resolved.filledAt, isOther]
    | cons next rest => exact absurd walked.symm (going _)
  · rw [walk_of_link enters stood] at walked
    rw [walk_of_link enters' (stands.trans stood), walked]
    subst walked
    split <;> rfl
  · rw [walk_of_entry enters stood other] at walked
    rw [walk_of_entry enters' (stands.trans stood) other]
    exact onward walked

end Enter

variable (noLink : ∀ target, entry ≠ .link target)
include noLink

/-- Unless they fail, the steps go as far as before. -/
theorem walk_put (followLast : Bool) (here : Location) (names : List String) {w : Walk}
    (walked : fs.walk followLast here names = w) (going : ∀ e, w ≠ .failed e) :
    (fs.put location entry).walk followLast here names = w.filledAt location := by
  induction names generalizing here with
  | nil =>
      rw [walk] at walked
      subst walked
      rfl
  | cons name rest ih =>
      rcases walk_cases fs here name with ⟨inDirectory, rfl, stays⟩ | ⟨inDirectory, rfl, goesUp⟩ |
        ⟨e, fails⟩ | enters
      · have still : (fs.put location entry).isDirectoryAt here := isDirectoryAt_put takes inDirectory
        rw [stays] at walked
        simpa [walk, still] using ih here walked
      · have still : (fs.put location entry).isDirectoryAt here := isDirectoryAt_put takes inDirectory
        rw [goesUp] at walked
        simpa [walk, still] using ih here.dropLast walked
      · rw [fails] at walked
        exact absurd walked.symm (going e)
      · by_cases isIt : here ++ [name] = location
        · exact walk_put_into takes enters walked going (ih (here ++ [name])) noLink isIt
        · exact walk_put_past takes enters walked going (ih (here ++ [name])) isIt

theorem follow_put (followLast : Bool) (links : Nat) (here : Location) (names : List String)
    {r : Resolved} (followed : fs.follow followLast links here names = .ok r) :
    (fs.put location entry).follow followLast links here names = .ok (r.filledAt location) := by
  fun_induction FileSystem.follow fs followLast links here names with
  | case1 links here names r' walked =>
      rw [follow, walk_put takes noLink followLast here names walked (by simp)]
      rw [← Except.ok.inj followed]
      rfl
  | case2 links here names e walked => simp at followed
  | case3 here names directory target rest walked => simp at followed
  | case4 here names directory target rest walked links empty => simp at followed
  | case5 here names directory target rest walked links inhabited path ih =>
      rw [follow, walk_put takes noLink followLast here names walked (by simp)]
      simp only [Walk.filledAt, if_neg inhabited]
      exact ih followed

theorem resolve_put (followLast : Bool) (here : Location) (path : Path) {r : Resolved}
    (resolved : fs.resolve followLast here path = .ok r) :
    (fs.put location entry).resolve followLast here path = .ok (r.filledAt location) := by
  rw [resolve] at resolved ⊢
  split at resolved
  · simp at resolved
  · rw [if_neg ‹_›]
    split at resolved
    · simp at resolved
    · rw [if_neg ‹_›]
      split at resolved
      · simp at resolved
      · rw [if_neg ‹_›]
        exact follow_put takes noLink followLast 40 _ (steps path) resolved

end Put

/-! ## Where nothing stands -/

theorem walk_absent {fs : FileSystem} {followLast : Bool} {here : Location} {names : List String}
    {l : Location} (walked : fs.walk followLast here names = .arrived (.absent l)) :
    fs.Vacant l := by
  fun_induction FileSystem.walk fs followLast here names with
  | case3 here rest _ ih => exact ih walked
  | case4 here rest _ _ ih => exact ih walked
  | case6 here name rest inDirectory _ _ _ next nothing last =>
      have isNext : next = l := by simpa using walked
      rw [← isNext]
      exact ⟨by simp [next], nothing, by simpa [next] using inDirectory⟩
  | case10 here name rest _ _ _ _ next entry _ stood ih => exact ih walked
  | _ => simp at walked

theorem follow_absent {fs : FileSystem} {followLast : Bool} {links : Nat} {here : Location}
    {names : List String} {l : Location}
    (followed : fs.follow followLast links here names = .ok (.absent l)) : fs.Vacant l := by
  fun_induction FileSystem.follow fs followLast links here names with
  | case1 links here names r walked =>
      rw [Except.ok.inj followed] at walked
      exact walk_absent walked
  | case2 links here names e walked => simp at followed
  | case3 here names directory target rest walked => simp at followed
  | case4 here names directory target rest walked links empty => simp at followed
  | case5 here names directory target rest walked links inhabited path ih => exact ih followed

theorem resolve_absent {fs : FileSystem} {followLast : Bool} {here : Location} {path : Path}
    {l : Location} (resolved : fs.resolve followLast here path = .ok (.absent l)) :
    fs.Vacant l := by
  rw [resolve] at resolved
  split at resolved
  · simp at resolved
  split at resolved
  · simp at resolved
  split at resolved
  · simp at resolved
  exact follow_absent resolved

/-! ## Writing -/

def Resolved.location : Resolved → Location
  | .found l => l
  | .absent l => l

theorem write_eq_put {fs fs' : FileSystem} {here : Location} {path : Path} {content : Bytes}
    (written : fs.write here path content = .ok fs') :
    ∃ r executable, fs.resolve true here path = .ok r ∧ fs.TakesFile r.location ∧
      fs' = fs.put r.location (.file content executable) ∧
      fs'.resolve true here path = .ok (.found r.location) := by
  cases resolved : fs.resolve true here path with
  | error e => simp [write, resolved, bind, Except.bind] at written
  | ok r =>
      have put : ∃ executable, fs.TakesFile r.location ∧
          fs' = fs.put r.location (.file content executable) := by
        cases r with
        | absent location =>
            have isPut : fs.put location (.file content false) = fs' := by
              simpa [write, resolved, bind, Except.bind, pure, Except.pure] using written
            exact ⟨false, Or.inl (resolve_absent resolved), isPut.symm⟩
        | found location =>
            cases stood : fs.entry? location with
            | none => simp [write, resolved, stood, bind, Except.bind, throw, throwThe,
                MonadExceptOf.throw] at written
            | some entry =>
                cases entry with
                | file old executable =>
                    have isPut : fs.put location (.file content executable) = fs' := by
                      simpa [write, resolved, stood, bind, Except.bind, pure, Except.pure]
                        using written
                    exact ⟨executable, Or.inr ⟨old, executable, stood⟩, isPut.symm⟩
                | _ => simp [write, resolved, stood, bind, Except.bind, throw, throwThe,
                    MonadExceptOf.throw] at written
      obtain ⟨executable, takes, isPut⟩ := put
      have again : (fs.put r.location (.file content executable)).resolve true here path =
          .ok (r.filledAt r.location) :=
        resolve_put takes (by simp) true here path resolved
      refine ⟨r, executable, rfl, takes, isPut, ?_⟩
      rw [isPut, again]
      cases r with
      | found location => rfl
      | absent location => simp [Resolved.filledAt, Resolved.location]

theorem write_of_error {fs : FileSystem} {here : Location} {path : Path} {content : Bytes}
    {e : FileError}
    (refused : fs.resolve true here path = .error e) : fs.write here path content = .error e := by
  simp [FileSystem.write, refused, bind, Except.bind]

theorem write_of_absent {fs : FileSystem} {here l : Location} {path : Path} {content : Bytes}
    (absent : fs.resolve true here path = .ok (.absent l)) :
    fs.write here path content = .ok (fs.put l (.file content false)) := by
  simp [FileSystem.write, absent, bind, Except.bind, pure, Except.pure]

theorem locate_eq_ok_iff {fs : FileSystem} {here : Location} {path : Path} {l : Location} :
    fs.locate here path = .ok l ↔ fs.resolve true here path = .ok (.found l) := by
  cases resolved : fs.resolve true here path with
  | error e => simp [locate, resolved, bind, Except.bind]
  | ok r => cases r <;> simp [locate, resolved, bind, Except.bind, pure, Except.pure, throw,
      throwThe, MonadExceptOf.throw]

theorem read_of_locate {fs : FileSystem} {here : Location} {path : Path} {l : Location}
    (located : fs.locate here path = .ok l) : fs.read here path = fs.readAt l := by
  rw [read, located]
  rfl

theorem readAt_congr {fs fs' : FileSystem} {l : Location} (same : fs'.entry? l = fs.entry? l) :
    fs'.readAt l = fs.readAt l := by
  rw [readAt, readAt, same]

/-- A write lets all paths lead where they led. -/
theorem locate_write {fs fs' : FileSystem} {here base : Location} {path other : Path}
    {content : Bytes} {l : Location} (written : fs.write base other content = .ok fs')
    (located : fs.locate here path = .ok l) : fs'.locate here path = .ok l := by
  obtain ⟨r, executable, _, takes, rfl, _⟩ := write_eq_put written
  rw [locate_eq_ok_iff] at located ⊢
  exact resolve_put takes (by simp) true here path located

theorem write_twice {fs fs' : FileSystem} {here : Location} {path : Path} {content : Bytes}
    (written : fs.write here path content = .ok fs') : fs'.write here path content = .ok fs' := by
  obtain ⟨r, executable, _, takes, rfl, resolved⟩ := write_eq_put written
  have stands := entry?_put fs takes.notRoot (.file content executable) r.location
  rw [if_pos rfl] at stands
  simp [write, resolved, stands, put_put, bind, Except.bind, pure, Except.pure]

/-- What was written is read through the same path, and all else stands as before. -/
theorem write_spec {fs fs' : FileSystem} {here : Location} {path : Path} {content : Bytes}
    (written : fs.write here path content = .ok fs') :
    fs'.read here path = .ok content ∧
      ∃ location, fs'.locate here path = .ok location ∧
        ∀ l, l ≠ location → fs'.entry? l = fs.entry? l := by
  obtain ⟨r, executable, _, takes, rfl, resolved⟩ := write_eq_put written
  have located : (fs.put r.location (.file content executable)).locate here path =
      .ok r.location := by
    simp [locate, resolved, bind, Except.bind, pure, Except.pure]
  have stands := entry?_put fs takes.notRoot (.file content executable)
  refine ⟨?_, r.location, located, fun l other => ?_⟩
  · have atLocation := stands r.location
    rw [if_pos rfl] at atLocation
    simp [read, located, readAt, atLocation, bind, Except.bind]
  · rw [stands l, if_neg other]

end ChartInflation.FileSystem
