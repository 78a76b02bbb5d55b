import ChartInflation.Proofs.FileSystem.Opening
import ChartInflation.Proofs.Inflation.ScratchNames

/-!
# The places of scratch directories

Where scratch directories may be made is fixed by what stands at the start: all of them in one
directory, under names of their own (`MayStand.opens`, `MayStand.sameName`).  As long as file
systems differ in such places only, a name under which none of the directories stands is free in each
of them or in none (`resolve_free`), and asking for a directory fails in all of them alike
(`create_alike`).
-/

set_option autoImplicit false

namespace ChartInflation

/-! ## Paths that lead to the same -/

namespace FileSystem

/-- A path leads to the same in two file systems: to one place, at and below which all is equal. -/
structure Alike (followLast : Bool) (here : Location) (path : Path) (fs fs' : FileSystem) :
    Prop where
  leads : fs'.resolve followLast here path = fs.resolve followLast here path
  stands : ∀ r, fs.resolve followLast here path = .ok r → ∀ l, r.location <+: l →
    fs'.entry? l = fs.entry? l

section Alike
variable {followLast : Bool} {here : Location} {path : Path} {fs fs' fs'' : FileSystem}

theorem Alike.symm (alike : Alike followLast here path fs fs') :
    Alike followLast here path fs' fs :=
  ⟨alike.leads.symm, fun r resolved l below =>
    (alike.stands r (alike.leads.symm.trans resolved) l below).symm⟩

theorem Alike.trans (first : Alike followLast here path fs fs')
    (second : Alike followLast here path fs' fs'') : Alike followLast here path fs fs'' :=
  ⟨second.leads.trans first.leads, fun r resolved l below =>
    (second.stands r (first.leads.trans resolved) l below).trans (first.stands r resolved l below)⟩

theorem Alike.locate (alike : Alike true here path fs fs') :
    fs'.locate here path = fs.locate here path := by
  rw [FileSystem.locate, FileSystem.locate, alike.leads]

theorem Alike.read (alike : Alike true here path fs fs') :
    fs'.read here path = fs.read here path := by
  cases located : fs.locate here path with
  | error e =>
      rw [FileSystem.read, FileSystem.read, alike.locate, located]
      rfl
  | ok l =>
      rw [read_of_locate located, read_of_locate (alike.locate.trans located)]
      exact readAt_congr (alike.stands _ (locate_eq_ok_iff.mp located) l List.prefix_rfl)

end Alike

end FileSystem

namespace Scratch

open FileSystem (Alike)

variable {m : Machine} {fs fs' : FileSystem} {n n' : Nat} {place place' l : Location}

/-! ## Where scratch directories may be made -/

def MayStand (m : Machine) (fs : FileSystem) (n : Nat) (place : Location) : Prop :=
  fs.resolve false m.directory (pathOf m n) = .ok (.absent place)

/-- Whether two file systems differ in scratch directories only that may be made in the first. -/
def SameOutside (m : Machine) (fs fs' : FileSystem) : Prop :=
  ∀ l, fs'.entry? l ≠ fs.entry? l → ∃ n place, MayStand m fs n place ∧ place <+: l

/-- Whether a path leads to the same whatever comes to stand in scratch directories. -/
def Steady (m : Machine) (fs : FileSystem) (path : Path) : Prop :=
  ∀ fs', SameOutside m fs fs' → Alike true m.directory path fs fs'

theorem isEntryName_nameOf (n : Nat) : FileSystem.IsEntryName (nameOf n) :=
  ⟨(nameOf_continues n).inhabited, nameOf_noSlash n, nameOf_ne_of_short n (by decide),
    nameOf_ne_of_short n (by decide)⟩

theorem MayStand.vacant (may : MayStand m fs n place) : fs.Vacant place :=
  FileSystem.resolve_absent may

theorem MayStand.nothing (may : MayStand m fs n place) (tree : fs.IsTree) (below : place <+: l) :
    fs.entry? l = none :=
  tree.nothing_below may.vacant.nothing below

theorem MayStand.opens (may : MayStand m fs n place) :
    ∃ home, fs.Opens m.directory m.scratchHome home ∧ place = home ++ [nameOf n] :=
  FileSystem.opens_of_absent (isEntryName_nameOf n) may

theorem MayStand.unique (may : MayStand m fs n place) (other : MayStand m fs n place') :
    place = place' :=
  FileSystem.Resolved.absent.inj (Except.ok.inj (may.symm.trans other))

/-- Places that have anything in common have their name in common. -/
theorem MayStand.sameName (may : MayStand m fs n place) (other : MayStand m fs n' place')
    (below : place <+: l) (below' : place' <+: l) : nameOf n = nameOf n' := by
  obtain ⟨home, opens, rfl⟩ := may.opens
  obtain ⟨home', opens', rfl⟩ := other.opens
  obtain rfl := opens.unique opens'
  obtain ⟨rest, rfl⟩ := below
  obtain ⟨rest', same⟩ := below'
  rw [List.append_assoc, List.append_assoc] at same
  exact (List.cons.inj (List.append_cancel_left same)).1.symm

theorem SameOutside.isPart (same : SameOutside m fs fs') (tree : fs.IsTree) : fs.IsPart fs' := by
  intro l entry stands
  by_contra differs
  rw [← stands] at differs
  obtain ⟨n, place, may, below⟩ := same l differs
  rw [may.nothing tree below] at stands
  cases stands

theorem resolve_free (tree : fs.IsTree) (same : SameOutside m fs fs')
    (free : ∀ place, MayStand m fs n place → fs'.entry? place = none) :
    fs'.resolve false m.directory (pathOf m n) = fs.resolve false m.directory (pathOf m n) := by
  have part := same.isPart tree
  cases resolved : fs.resolve false m.directory (pathOf m n) with
  | ok r =>
      rw [FileSystem.resolve_of_isPart part resolved]
      cases r with
      | found l => rfl
      | absent l => simp [FileSystem.Resolved.seenIn, free l resolved]
  | error e =>
      by_cases any : ∃ n' place', MayStand m fs n' place'
      · -- the directory in which the others stand is there, so the name itself is refused
        obtain ⟨n', place', may⟩ := any
        obtain ⟨home, opens, _⟩ := may.opens
        rcases opens.resolve_name (isEntryName_nameOf n) with ⟨e', refused⟩ | leads
        · exact (refused fs' part false).trans
            ((refused fs (fun _ _ stands => stands) false).symm.trans resolved)
        · have ends := leads fs (fun _ _ stands => stands) false (by simp)
          cases resolved.symm.trans ends
      · have entries : ∀ l, fs'.entry? l = fs.entry? l := by
          intro l
          by_contra differs
          obtain ⟨n', place', may, _⟩ := same l differs
          exact any ⟨n', place', may⟩
        rw [FileSystem.resolve_congr entries, resolved]

/-- A path leads to the same as long as it leads to what is apart from all scratch directories. -/
theorem steady_of_located (tree : fs.IsTree) {path : Path}
    (located : fs.locate m.directory path = .ok l)
    (apart : ∀ n place, MayStand m fs n place → ¬ place <+: l ∧ ¬ l <+: place) :
    Steady m fs path := by
  intro fs' same
  have located' := FileSystem.locate_of_isPart (same.isPart tree) located
  rw [FileSystem.locate_eq_ok_iff] at located located'
  refine ⟨located'.trans located.symm, fun r resolved l' below => ?_⟩
  obtain rfl := Except.ok.inj (located.symm.trans resolved)
  by_contra differs
  obtain ⟨n, place, may, below'⟩ := same l' differs
  rcases List.prefix_or_prefix_of_prefix below' below with within | around
  · exact (apart n place may).1 within
  · exact (apart n place may).2 around

/-! ## Drawing names -/

section Create
-- what the names and the file system are must not be computed
attribute [local irreducible] FileSystem.makeDirectory nameOf Path.joinName

variable {w w' v : World} {e : FileError} {result : Except FileError Path}

theorem drawn_of_create {count : Nat} (some : count ≠ 0) (made : create m count w = (result, w')) :
    w.drawn < w'.drawn := by
  obtain ⟨count, rfl⟩ := Nat.exists_eq_succ_of_ne_zero some
  rw [create_succ] at made
  split at made
  next files tried =>
      obtain ⟨_, rfl⟩ := Prod.mk.inj made
      exact Nat.lt_succ_self _
  next tried => exact (create_cases count made).2.1
  next e _ tried =>
      obtain ⟨_, rfl⟩ := Prod.mk.inj made
      exact Nat.lt_succ_self _

theorem drawn_le_of_create {count : Nat} (made : create m count w = (result, w')) :
    w'.drawn ≤ w.drawn + count := by
  induction count generalizing w with
  | zero =>
      rw [create_zero] at made
      rw [← (Prod.mk.inj made).2]
      exact Nat.le_refl _
  | succ count ih =>
      rw [create_succ] at made
      split at made
      next files tried =>
          obtain ⟨_, rfl⟩ := Prod.mk.inj made
          exact Nat.add_le_add_left (Nat.succ_le_succ (Nat.zero_le count)) w.drawn
      next tried =>
          have rest := ih made
          rw [Nat.add_assoc, Nat.add_comm 1 count] at rest
          exact rest
      next e _ tried =>
          obtain ⟨_, rfl⟩ := Prod.mk.inj made
          exact Nat.add_le_add_left (Nat.succ_le_succ (Nat.zero_le count)) w.drawn

theorem create_alike {count : Nat} (drawn : v.drawn = w.drawn)
    (same : ∀ n, w.drawn ≤ n → n < w'.drawn →
      v.files.resolve false m.directory (pathOf m n) =
        w.files.resolve false m.directory (pathOf m n))
    (failed : create m count w = (.error e, w')) : ∃ v', create m count v = (.error e, v') := by
  induction count generalizing w v with
  | zero =>
      rw [create_zero] at failed
      exact ⟨v, by rw [create_zero, (Prod.mk.inj failed).1]⟩
  | succ count ih =>
      have later := drawn_of_create (Nat.succ_ne_zero count) failed
      have first := same w.drawn (Nat.le_refl _) later
      rw [create_succ] at failed ⊢
      rw [drawn]
      split at failed
      next => cases (Prod.mk.inj failed).1
      next tried =>
          rw [FileSystem.makeDirectory_error_congr first tried]
          refine ih ?_ (fun n notBefore inside => ?_) failed
          · rfl
          · exact same n (Nat.le_of_succ_le notBefore) inside
      next e' other tried =>
          obtain ⟨isIt, _⟩ := Prod.mk.inj failed
          rw [FileSystem.makeDirectory_error_congr first tried, Except.error.inj isIt]
          cases e with
          | «exists» => exact absurd (Except.error.inj isIt) other
          | _ => exact ⟨_, rfl⟩

end Create

end Scratch

end ChartInflation
