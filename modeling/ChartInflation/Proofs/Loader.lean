import ChartInflation.Loader
import ChartInflation.Proofs.FileSystem.RealLocation

/-!
# Loading below a root

A loader that is restricted to its root loads what an unrestricted one loads, as long as the real
location lies in or below the root, name by name; it refuses all the rest (`load_below_root`).
-/

set_option autoImplicit false

namespace ChartInflation.Loader

variable {fs : FileSystem} {here top l : Location} {root path : Path}

/-- What the resolution finds behind the path of a real directory is the real location as seen from
there. -/
theorem realLocation_of_locate (real : fs.IsReal top) (isDirectory : fs.isDirectoryAt top)
    (located : fs.locate [] (top.path.join path) = .ok l) : fs.RealLocation top path l := by
  have leads := FileSystem.leadsTo_of_locate located
  by_cases absolute : path.isAbsolute
  · have isIt : top.path.join path = path := by rw [Path.join, if_pos absolute]
    rw [isIt] at leads
    simpa [FileSystem.RealLocation, absolute] using leads
  · rw [Bool.not_eq_true] at absolute
    rw [FileSystem.RealLocation, ite_self, FileSystem.steps_join_path real.names absolute,
      FileSystem.leadsTo_own_iff real isDirectory] at leads
    rw [FileSystem.RealLocation, absolute, if_neg Bool.false_ne_true]
    by_cases empty : path.text = ""
    · rw [if_pos empty] at leads
      have nothing : FileSystem.steps path = [] := by
        simp [FileSystem.steps, Path.names, piecesOf, pieces, Path.endsInSlash, empty]
      have stays := FileSystem.LeadsTo.stay isDirectory rfl (.here top)
      rw [nothing, leads.unique stays]
      exact .here top
    · rwa [if_neg empty] at leads

theorem isDirectory_iff {fs : FileSystem} {here : Location} {path : Path} :
    fs.isDirectory here path ↔ ∃ l, fs.locate here path = .ok l ∧ fs.isDirectoryAt l := by
  cases located : fs.locate here path <;> simp [FileSystem.isDirectory, located]

def ofTop (top : Location) (restriction : LoadRestriction) : Loader :=
  ⟨top.path, fun fs path => do
    let found ← permitted restriction top fs path
    (fs.readAt found).mapError .file⟩

theorem ofDirectory_eq_ok {restriction : LoadRestriction} (isDirectory : fs.isDirectory here root)
    (located : fs.locate here root = .ok top) :
    ofDirectory fs here root restriction = .ok (ofTop top restriction) := by
  simp [ofDirectory, isDirectory, located, ofTop]

/-! ## The two restrictions -/

theorem load_of_error {restriction : LoadRestriction} {e : FileError}
    (missing : fs.locate [] (top.path.join path) = .error e) :
    (ofTop top restriction).load fs path = .error (.inaccessible path "file not found") := by
  simp [ofTop, permitted, missing, bind, Except.bind]

theorem load_unrestricted (located : fs.locate [] (top.path.join path) = .ok l) :
    (ofTop top .unrestricted).load fs path = (fs.readAt l).mapError .file := by
  simp [ofTop, permitted, located, bind, Except.bind]

theorem load_inside (located : fs.locate [] (top.path.join path) = .ok l) (inside : top <+: l) :
    (ofTop top .rootOnly).load fs path = (fs.readAt l).mapError .file := by
  have isPrefix := List.isPrefixOf_iff_prefix.mpr inside
  simp [ofTop, permitted, located, isPrefix, bind, Except.bind]

theorem load_outside (located : fs.locate [] (top.path.join path) = .ok l)
    (outside : ¬ top <+: l) :
    (ofTop top .rootOnly).load fs path = .error (.outsideRoot l.path top.path) := by
  have noPrefix := Bool.eq_false_iff.mpr (mt List.isPrefixOf_iff_prefix.mp outside)
  simp [ofTop, permitted, located, noPrefix, bind, Except.bind]

/-- A restricted loader gives what an unrestricted one gives where the path's real location is the
real root or lies below it, and refuses every other path.  The directory that paths are seen from is
one that its own path leads to. -/
theorem load_below_root (path : Path) (working : fs.locate [] here.path = .ok here)
    (isDirectory : fs.isDirectory here root) :
    ∃ top restricted free, fs.RealLocation here root top ∧
      ofDirectory fs here root .rootOnly = .ok restricted ∧ restricted.root = top.path ∧
      ofDirectory fs here root .unrestricted = .ok free ∧ free.root = top.path ∧
      (∀ bytes, free.load fs path = .ok bytes → ∃ l, fs.RealLocation top path l) ∧
      (∀ bytes, restricted.load fs path = .ok bytes →
        free.load fs path = .ok bytes ∧ ∃ l, fs.RealLocation top path l ∧ top <+: l) ∧
      ∀ l, fs.RealLocation top path l →
        (top <+: l → restricted.load fs path = free.load fs path) ∧
        (¬ top <+: l → (∀ bytes, restricted.load fs path ≠ .ok bytes) ∧
          ∀ bytes, free.load fs path = .ok bytes →
            restricted.load fs path = .error (.outsideRoot l.path top.path)) := by
  obtain ⟨top, located, atTop⟩ := isDirectory_iff.mp isDirectory
  have hereReal : fs.IsReal here :=
    (FileSystem.leadsTo_of_locate working).isReal (FileSystem.isReal_root fs)
  have isRoot := FileSystem.leadsTo_of_locate located
  have real := isRoot.isReal hereReal
  refine ⟨top, ofTop top .rootOnly, ofTop top .unrestricted, isRoot,
    ofDirectory_eq_ok isDirectory located, rfl, ofDirectory_eq_ok isDirectory located, rfl, ?_⟩
  cases found : fs.locate [] (top.path.join path) with
  | error e =>
      simp [load_of_error found]
  | ok l =>
      have leads := realLocation_of_locate real atTop found
      refine ⟨fun _ _ => ⟨l, leads⟩, fun bytes loaded => ?_, fun l' leads' => ?_⟩
      · by_cases inside : top <+: l
        · rw [load_inside found inside] at loaded
          exact ⟨(load_unrestricted found).trans loaded, l, leads, inside⟩
        · rw [load_outside found inside] at loaded
          cases loaded
      · rw [← leads.unique leads']
        refine ⟨fun inside => ?_, fun outside => ⟨fun bytes loaded => ?_, fun _ _ => ?_⟩⟩
        · rw [load_inside found inside, load_unrestricted found]
        · rw [load_outside found outside] at loaded
          cases loaded
        · exact load_outside found outside

def linked : FileSystem :=
  ⟨[(["work"], .directory), (["work", "out"], .link "../work-x"),
    (["work-x"], .directory), (["work-x", "secret.yaml"], .file (Bytes.ofString "b: 2\n") false)]⟩

theorem load_below_root_linked :
    linked.locate [] (Location.path []) = .ok [] ∧ linked.isDirectory [] ⟨"/work"⟩ ∧
    ∃ restricted free, ofDirectory linked [] ⟨"/work"⟩ .rootOnly = .ok restricted ∧
      ofDirectory linked [] ⟨"/work"⟩ .unrestricted = .ok free ∧
      free.load linked ⟨"out/secret.yaml"⟩ = .ok (Bytes.ofString "b: 2\n") ∧
      restricted.load linked ⟨"out/secret.yaml"⟩ =
        .error (.outsideRoot (Location.path ["work-x", "secret.yaml"])
          (Location.path ["work"])) := by
  have working : linked.locate [] (Location.path []) = .ok [] := rfl
  have isDirectory : linked.isDirectory [] ⟨"/work"⟩ := by decide +kernel
  have atWork : linked.RealLocation [] ⟨"/work"⟩ ["work"] := FileSystem.leadsTo_of_locate rfl
  have real : linked.IsReal ["work"] := atWork.isReal (FileSystem.isReal_root linked)
  have leaves : linked.RealLocation ["work"] ⟨"out/secret.yaml"⟩ ["work-x", "secret.yaml"] :=
    realLocation_of_locate real (by decide) rfl
  obtain ⟨top, restricted, free, isTop, made, _, madeFree, _, _, _, loads⟩ :=
    load_below_root ⟨"out/secret.yaml"⟩ working isDirectory
  obtain rfl := isTop.unique atWork
  have loaded : free.load linked ⟨"out/secret.yaml"⟩ = .ok (Bytes.ofString "b: 2\n") := by
    cases Except.ok.inj ((ofDirectory_eq_ok isDirectory rfl).symm.trans madeFree)
    rfl
  exact ⟨working, isDirectory, restricted, free, made, madeFree, loaded,
    ((loads _ leaves).2 (by decide)).2 _ loaded⟩

/-- A link may leave the root as long as the path comes back. -/
example : (ofTop ["work"] .rootOnly).load
    (linked.put ["work", "values.yaml"] (.file (Bytes.ofString "a: 1\n") false))
    ⟨"out/../work/values.yaml"⟩ = .ok (Bytes.ofString "a: 1\n") := rfl

end ChartInflation.Loader
