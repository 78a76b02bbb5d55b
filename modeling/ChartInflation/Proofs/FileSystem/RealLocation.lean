import ChartInflation.Proofs.FileSystem.Writing
import ChartInflation.Proofs.Path

/-!
# Real locations

Where a path really leads is told here by rules, one for each kind of step, and without a bound on
links or lengths (`LeadsTo`).  The rules leave no choice (`LeadsTo.unique`), and whatever the
resolution of paths finds is what they say (`leadsTo_of_locate`).  A location that is reached lies
in directories all the way down, so its own path leads back to it and whatever stands behind that
path is seen from it (`leadsTo_own_iff`).
-/

set_option autoImplicit false

namespace ChartInflation.FileSystem

/-- Where steps from a location really lead.  Two dots go to the directory above the one that was
reached, whatever links led there, and a link stands for the steps of its target. -/
inductive LeadsTo (fs : FileSystem) : Location → List String → Location → Prop where
  | here (l : Location) : LeadsTo fs l [] l
  | stay {l m : Location} {name : String} {names : List String} (inDirectory : fs.isDirectoryAt l)
      (dot : name = ".") (rest : LeadsTo fs l names m) : LeadsTo fs l (name :: names) m
  | up {l m : Location} {name : String} {names : List String} (inDirectory : fs.isDirectoryAt l)
      (dots : name = "..") (rest : LeadsTo fs l.dropLast names m) : LeadsTo fs l (name :: names) m
  | enter {l m : Location} {name : String} {names : List String} {entry : Entry}
      (inDirectory : fs.isDirectoryAt l) (notHere : name ≠ ".") (notUp : name ≠ "..")
      (stands : fs.entry? (l ++ [name]) = some entry) (noLink : ∀ target, entry ≠ .link target)
      (rest : LeadsTo fs (l ++ [name]) names m) : LeadsTo fs l (name :: names) m
  | link {l m : Location} {name target : String} {names : List String}
      (inDirectory : fs.isDirectoryAt l) (notHere : name ≠ ".") (notUp : name ≠ "..")
      (isLink : fs.entry? (l ++ [name]) = some (.link target)) (inhabited : target ≠ "")
      (rest : LeadsTo fs (if Path.isAbsolute ⟨target⟩ then [] else l) (steps ⟨target⟩ ++ names) m) :
      LeadsTo fs l (name :: names) m

def RealLocation (fs : FileSystem) (here : Location) (path : Path) (l : Location) : Prop :=
  fs.LeadsTo (if path.isAbsolute then [] else here) (steps path) l

section LeadsTo
variable {fs : FileSystem} {l m : Location} {names : List String}

theorem LeadsTo.unique (first : fs.LeadsTo l names m) {m' : Location}
    (second : fs.LeadsTo l names m') : m = m' := by
  induction first with
  | here l =>
      cases second
      rfl
  | stay inDirectory dot rest ih =>
      cases second with
      | stay _ _ rest' => exact ih rest'
      | up _ dots => exact absurd (dot.symm.trans dots) (by decide)
      | enter _ notHere => exact absurd dot notHere
      | link _ notHere => exact absurd dot notHere
  | up inDirectory dots rest ih =>
      cases second with
      | stay _ dot => exact absurd (dot.symm.trans dots) (by decide)
      | up _ _ rest' => exact ih rest'
      | enter _ _ notUp => exact absurd dots notUp
      | link _ _ notUp => exact absurd dots notUp
  | enter inDirectory notHere notUp stands noLink rest ih =>
      cases second with
      | stay _ dot => exact absurd dot notHere
      | up _ dots => exact absurd dots notUp
      | enter _ _ _ _ _ rest' => exact ih rest'
      | link _ _ _ isLink => exact absurd (Option.some.inj (stands.symm.trans isLink)) (noLink _)
  | link inDirectory notHere notUp isLink inhabited rest ih =>
      cases second with
      | stay _ dot => exact absurd dot notHere
      | up _ dots => exact absurd dots notUp
      | enter _ _ _ stands noLink =>
          exact absurd (Option.some.inj (stands.symm.trans isLink)) (noLink _)
      | link _ _ _ isLink' _ rest' =>
          cases Option.some.inj (isLink.symm.trans isLink')
          exact ih rest'

/-! ## What the resolution finds -/

theorem leadsTo_of_walk (here : Location) (names : List String) :
    (∀ l, fs.walk true here names = .arrived (.found l) → fs.LeadsTo here names l) ∧
      ∀ directory target rest, fs.walk true here names = .atLink directory target rest →
        target ≠ "" → ∀ l,
          fs.LeadsTo (if Path.isAbsolute ⟨target⟩ then [] else directory)
            (steps ⟨target⟩ ++ rest) l →
          fs.LeadsTo here names l := by
  induction names generalizing here with
  | nil =>
      refine ⟨fun l walked => ?_, fun directory target rest walked => by simp [walk] at walked⟩
      simp only [walk, Walk.arrived.injEq, Resolved.found.injEq] at walked
      exact walked ▸ .here here
  | cons name names ih =>
      rcases walk_cases fs here name with ⟨inDirectory, rfl, stays⟩ | ⟨inDirectory, rfl, goesUp⟩ |
        ⟨e, fails⟩ | enters
      · rw [stays]
        exact ⟨fun l walked => .stay inDirectory rfl ((ih here).1 l walked),
          fun d t rest walked inhabited l leads =>
            .stay inDirectory rfl ((ih here).2 d t rest walked inhabited l leads)⟩
      · rw [goesUp]
        exact ⟨fun l walked => .up inDirectory rfl ((ih _).1 l walked),
          fun d t rest walked inhabited l leads =>
            .up inDirectory rfl ((ih _).2 d t rest walked inhabited l leads)⟩
      · rw [fails]
        exact ⟨fun _ walked => (by simp at walked), fun _ _ _ walked => (by simp at walked)⟩
      · have inDirectory := enters.inDirectory
        rcases fs.entry?_cases (here ++ [name]) with
          stood | ⟨target, stood⟩ | ⟨entry, stood, noLink⟩
        · rw [walk_of_nothing enters stood]
          split
          · exact ⟨fun _ walked => (by simp at walked), fun _ _ _ walked => (by simp at walked)⟩
          · exact ⟨fun _ walked => (by simp at walked), fun _ _ _ walked => (by simp at walked)⟩
        · rw [walk_of_link enters stood, Bool.not_true, Bool.and_false, if_neg Bool.false_ne_true]
          refine ⟨fun _ walked => (by simp at walked), fun d t rest walked inhabited l leads => ?_⟩
          simp only [Walk.atLink.injEq] at walked
          obtain ⟨rfl, rfl, rfl⟩ := walked
          exact .link inDirectory enters.notHere enters.notUp stood inhabited leads
        · rw [walk_of_entry enters stood noLink]
          exact ⟨fun l walked => .enter inDirectory enters.notHere enters.notUp stood noLink
              ((ih _).1 l walked),
            fun d t rest walked inhabited l leads => .enter inDirectory enters.notHere
              enters.notUp stood noLink ((ih _).2 d t rest walked inhabited l leads)⟩

theorem leadsTo_of_follow {links : Nat} {here : Location}
    (followed : fs.follow true links here names = .ok (.found l)) : fs.LeadsTo here names l := by
  fun_induction FileSystem.follow fs true links here names with
  | case1 links here names r walked =>
      rw [Except.ok.inj followed] at walked
      exact (leadsTo_of_walk here names).1 l walked
  | case2 | case3 | case4 => simp at followed
  | case5 here names directory target rest walked links inhabited path ih =>
      refine (leadsTo_of_walk here names).2 directory target rest walked ?_ l (ih followed)
      rintro rfl
      exact inhabited rfl

theorem leadsTo_of_locate {here : Location} {path : Path} (located : fs.locate here path = .ok l) :
    fs.RealLocation here path l := by
  have resolved : fs.resolve true here path = .ok (.found l) := by
    cases resolved : fs.resolve true here path with
    | error e => simp [locate, resolved, bind, Except.bind] at located
    | ok r =>
        cases r with
        | absent => simp [locate, resolved, bind, Except.bind, throw, throwThe,
            MonadExceptOf.throw] at located
        | found l' =>
            have same : l' = l := by
              simpa [locate, resolved, bind, Except.bind, pure, Except.pure] using located
            rw [same]
  rw [resolve] at resolved
  split at resolved
  · cases resolved
  split at resolved
  · cases resolved
  split at resolved
  · cases resolved
  exact leadsTo_of_follow resolved

/-! ## Directories all the way down -/

structure IsName (name : String) : Prop where
  inhabited : name ≠ ""
  noSlash : '/' ∉ name.toList
  notHere : name ≠ "."
  notUp : name ≠ ".."

/-- A location of names in directories all the way down from the root. -/
structure IsReal (fs : FileSystem) (l : Location) : Prop where
  names : ∀ name ∈ l, IsName name
  above : ∀ p, p <+: l → p ≠ l → fs.isDirectoryAt p

theorem isReal_root (fs : FileSystem) : fs.IsReal [] :=
  ⟨by simp, fun p before other => absurd (List.prefix_nil.mp before) other⟩

theorem IsReal.dropLast (real : fs.IsReal l) : fs.IsReal l.dropLast := by
  refine ⟨fun name member => real.names name (List.dropLast_subset l member),
    fun p before other => ?_⟩
  refine real.above p (before.trans (List.dropLast_prefix l)) ?_
  rintro rfl
  have short := before.length_le
  cases p with
  | nil => exact other rfl
  | cons name rest =>
      simp only [List.length_dropLast, List.length_cons] at short
      omega

theorem IsReal.enter (real : fs.IsReal l) (inDirectory : fs.isDirectoryAt l) {name : String}
    (isName : IsName name) : fs.IsReal (l ++ [name]) := by
  constructor
  · intro n member
    rcases List.mem_append.mp member with inside | last
    · exact real.names n inside
    · exact List.mem_singleton.mp last ▸ isName
  · intro p before other
    rcases List.prefix_concat_iff.mp before with same | before
    · exact absurd same other
    · by_cases same : p = l
      · exact same ▸ inDirectory
      · exact real.above p before same

theorem isName_of_steps {path : Path} {name : String} (member : name ∈ steps path)
    (notHere : name ≠ ".") (notUp : name ≠ "..") : IsName name := by
  have inNames : name ∈ path.names := by
    rcases List.mem_append.mp member with inside | dot
    · exact inside
    · split at dot
      · exact absurd (List.mem_singleton.mp dot) notHere
      · cases dot
  obtain ⟨isPiece, inhabited⟩ := List.mem_filter.mp inNames
  exact ⟨by simpa using inhabited, piecesOf_noSeparator isPiece, notHere, notUp⟩

theorem LeadsTo.isReal (leads : fs.LeadsTo l names m) (real : fs.IsReal l)
    (areNames : ∀ name ∈ names, name ≠ "." → name ≠ ".." → IsName name) : fs.IsReal m := by
  induction leads with
  | here => exact real
  | stay inDirectory dot rest ih =>
      exact ih real fun n later => areNames n (List.mem_cons_of_mem _ later)
  | up inDirectory dots rest ih =>
      exact ih real.dropLast fun n later => areNames n (List.mem_cons_of_mem _ later)
  | enter inDirectory notHere notUp stands noLink rest ih =>
      have isName := areNames _ (List.mem_cons_self ..) notHere notUp
      exact ih (real.enter inDirectory isName) fun n later =>
        areNames n (List.mem_cons_of_mem _ later)
  | link inDirectory notHere notUp isLink inhabited rest ih =>
      refine ih ?_ fun n member => ?_
      · split
        · exact isReal_root fs
        · exact real
      · rcases List.mem_append.mp member with ofTarget | later
        · exact isName_of_steps ofTarget
        · exact areNames n (List.mem_cons_of_mem _ later)

theorem RealLocation.isReal {here : Location} {path : Path} (leads : fs.RealLocation here path l)
    (real : fs.IsReal here) : fs.IsReal l := by
  refine LeadsTo.isReal leads ?_ fun _ => isName_of_steps
  split
  · exact isReal_root fs
  · exact real

/-! ## The path of a real location -/

theorem isAbsolute_path (l : Location) : l.path.isAbsolute := by
  simp [Path.isAbsolute, Location.path]

theorem names_path (areNames : ∀ name ∈ l, IsName name) : l.path.names = l := by
  have text : l.path.text.toList = [] ++ '/' :: ['/'].intercalate (l.map String.toList) := by
    simp [Location.path, toList_joined]
  have cut : pieces '/' (['/'].intercalate (l.map String.toList)) =
      if l = [] then [[]] else l.map String.toList := by
    cases l with
    | nil => rfl
    | cons name rest =>
        rw [if_neg (List.cons_ne_nil name rest)]
        refine pieces_intercalate fun text member => ?_
        obtain ⟨n, inside, rfl⟩ := List.mem_map.mp (List.map_cons .. ▸ member)
        exact (areNames n inside).noSlash
  have kept : l.filter (· != "") = l :=
    List.filter_eq_self.mpr fun name member => by simpa using (areNames name member).inhabited
  rw [Path.names, piecesOf, text, pieces_append, cut]
  split
  next empty => simp [empty, pieces]
  next => simp [pieces, Function.comp_def, kept]

theorem text_join_path (areNames : ∀ name ∈ l, IsName name) {q : Path}
    (relative : q.isAbsolute = false) : ∃ front : Path, front.names = l ∧
      (l.path.join q).text.toList = front.text.toList ++ '/' :: q.text.toList := by
  have inhabited : l.path.isEmpty = false := by simp [Path.isEmpty, Location.path]
  by_cases closed : Path.endsInSlash l.path.text.toList
  · obtain ⟨text, isText⟩ := List.getLast?_eq_some_iff.mp (beq_iff_eq.mp closed)
    have front : l.path.names = Path.names ⟨String.ofList text⟩ ++ Path.names ⟨""⟩ :=
      Path.names_of_text (by simpa using isText)
    have nothing : Path.names ⟨""⟩ = [] := rfl
    rw [names_path areNames, nothing, List.append_nil] at front
    refine ⟨⟨String.ofList text⟩, front.symm, ?_⟩
    rw [Path.join, relative, inhabited, closed]
    simp [isText]
  · refine ⟨l.path, names_path areNames, ?_⟩
    simp [Path.join, relative, inhabited, closed]

/-- The path of a real location with another one behind it takes the steps of both; a dot stands for
the other one where nothing is written. -/
theorem steps_join_path (areNames : ∀ name ∈ l, IsName name) {q : Path}
    (relative : q.isAbsolute = false) :
    steps (l.path.join q) = l ++ (if q.text = "" then ["."] else steps q) := by
  obtain ⟨front, isFront, text⟩ := text_join_path areNames relative
  rw [steps, Path.names_of_text text, isFront, List.append_assoc, text]
  by_cases empty : q.text = ""
  · simp [empty, Path.names, piecesOf, pieces, Path.endsInSlash]
  · have some : q.text.toList ≠ [] := by simpa using empty
    have last : Path.endsInSlash (front.text.toList ++ '/' :: q.text.toList) =
        Path.endsInSlash q.text.toList := by
      rw [Path.endsInSlash, Path.endsInSlash, ← List.singleton_append, ← List.append_assoc,
        List.getLast?_append, List.getLast?_eq_some_getLast some, Option.some_or]
    rw [if_neg empty, steps, last]

/-- A real directory's own path leads to it, and on from there. -/
theorem leadsTo_own_iff (real : fs.IsReal l) (isDirectory : fs.isDirectoryAt l) :
    fs.LeadsTo [] (l ++ names) m ↔ fs.LeadsTo l names m := by
  have step : ∀ p rest, p ++ rest = l →
      (fs.LeadsTo p (rest ++ names) m ↔ fs.LeadsTo l names m) := by
    intro p rest whole
    induction rest generalizing p with
    | nil =>
        rw [List.append_nil] at whole
        rw [whole, List.nil_append]
    | cons name rest ih =>
        have isName := real.names name (by simp [← whole])
        have inDirectory : ∀ p', p' <+: l → fs.isDirectoryAt p' := fun p' before => by
          by_cases same : p' = l
          · exact same ▸ isDirectory
          · exact real.above p' before same
        have isNext : p ++ [name] <+: l := ⟨rest, by simpa using whole⟩
        have stands := (isDirectoryAt_iff fs _).mp (inDirectory _ isNext)
        rw [← ih (p ++ [name]) (by simpa using whole), List.cons_append]
        constructor
        · intro leads
          cases leads with
          | stay _ dot => exact absurd dot isName.notHere
          | up _ dots => exact absurd dots isName.notUp
          | enter _ _ _ _ _ onward => exact onward
          | link _ _ _ isLink => simp [stands] at isLink
        · intro onward
          exact .enter (inDirectory p ⟨name :: rest, whole⟩) isName.notHere isName.notUp stands
            (by simp) onward
  exact step [] l rfl

end LeadsTo

end ChartInflation.FileSystem
