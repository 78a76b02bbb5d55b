import ChartInflation.Proofs.Inflation.ScratchPlaces

/-!
# One scratch directory in two file systems

An inflation among others is compared with the same one alone: what stands in its scratch directory
is the same for both (`Twin`).  A call of the renderer does the same for both and keeps it so
(`run_alike`), as does writing a file into the directory (`Twin.write`).  Of the renderer it takes
that a call depends on the files that it names and on its home, and writes nowhere but in its home.
-/

set_option autoImplicit false

namespace ChartInflation

open FileSystem (Alike IsEntryName Resolved)
open Scratch (pathOf MayStand SameOutside Steady)
open ValuesSource (target)

/-! ## What is relied on -/

def Call.home? (c : Call) : Option Path :=
  c.environment.lookup "HELM_CONFIG_HOME"

/-- Calls depend on the files that they name and on what is in their homes, and they write in their
homes only. -/
structure Machine.KeepsToItself (m : Machine) (named : Call → List Path) : Prop where
  writes : ∀ calls call fs l, FileSystem.entry? (m.tool calls call fs).2 l ≠ fs.entry? l →
    ∃ home r, call.home? = some home ∧ fs.resolve false m.directory home = .ok r ∧ r.location <+: l
  reads : ∀ calls calls' call fs fs',
    (∀ home, call.home? = some home → Alike false m.directory home fs fs') →
    (∀ path ∈ named call, Alike true m.directory path fs fs') →
    (m.tool calls' call fs').1 = (m.tool calls call fs).1 ∧
      ∀ home r, call.home? = some home → fs.resolve false m.directory home = .ok r →
        ∀ l, r.location <+: l →
          FileSystem.entry? (m.tool calls' call fs').2 l =
            FileSystem.entry? (m.tool calls call fs).2 l

namespace Inflation

section Place
variable {m : Machine} {start alone shared alone' shared' : FileSystem} {n : Nat}
  {place : Location} {name : String}

/-! ## Two file systems with one scratch directory -/

/-- A scratch directory stands at its place, and all that is in it is the same in two file systems.
Around it, the first is as it was at the start. -/
structure Twin (m : Machine) (start : FileSystem) (n : Nat) (place : Location)
    (alone shared : FileSystem) : Prop where
  may : MayStand m start n place
  stands : alone.isDirectoryAt place
  around : ∀ l, ¬ place <+: l → alone.entry? l = start.entry? l
  own : ∀ l, place <+: l → shared.entry? l = alone.entry? l

theorem twin_of_put (tree : start.IsTree) (may : MayStand m start n place)
    (nothing : ∀ l, place <+: l → shared.entry? l = none) :
    Twin m start n place (start.put place .directory) (shared.put place .directory) := by
  have notRoot := may.vacant.notRoot
  have entries := FileSystem.entry?_put start notRoot .directory
  have entries' := FileSystem.entry?_put shared notRoot .directory
  refine ⟨may, ?_, fun l outside => ?_, fun l below => ?_⟩
  · rw [FileSystem.isDirectoryAt_iff, entries, if_pos rfl]
  · rw [entries, if_neg]
    rintro rfl
    exact outside List.prefix_rfl
  · rw [entries, entries', nothing l below, may.nothing tree below]

theorem Twin.sameOutside (twin : Twin m start n place alone shared) :
    SameOutside m start alone := by
  intro l differs
  refine ⟨n, place, twin.may, ?_⟩
  by_contra outside
  exact differs (twin.around l outside)

theorem Twin.isDirectory (twin : Twin m start n place alone shared) :
    shared.isDirectoryAt place := by
  have stands := (FileSystem.isDirectoryAt_iff alone place).mp twin.stands
  rw [FileSystem.isDirectoryAt_iff, twin.own place List.prefix_rfl, stands]

/-- A change below a name in the directory, the same in both. -/
theorem Twin.change (twin : Twin m start n place alone shared) (name : String)
    (elsewhere : ∀ l, ¬ place ++ [name] <+: l → alone'.entry? l = alone.entry? l)
    (elsewhere' : ∀ l, ¬ place ++ [name] <+: l → shared'.entry? l = shared.entry? l)
    (same : ∀ l, place ++ [name] <+: l → shared'.entry? l = alone'.entry? l) :
    Twin m start n place alone' shared' := by
  refine ⟨twin.may, ?_, fun l outside => ?_, fun l below => ?_⟩
  · have notItself : ¬ place ++ [name] <+: place := by
      intro below
      have longer := below.length_le
      rw [List.length_append, List.length_singleton] at longer
      omega
    rw [FileSystem.isDirectoryAt_iff, elsewhere place notItself]
    exact (FileSystem.isDirectoryAt_iff alone place).mp twin.stands
  · have outside' : ¬ place ++ [name] <+: l := fun below =>
      outside ((List.prefix_append place [name]).trans below)
    rw [elsewhere l outside', twin.around l outside]
  · by_cases inside : place ++ [name] <+: l
    · exact same l inside
    · rw [elsewhere l inside, elsewhere' l inside, twin.own l below]

theorem Twin.steady (twin : Twin m start n place alone shared)
    (outside : SameOutside m start shared) {path : Path} (steady : Steady m start path) :
    Alike true m.directory path alone shared :=
  (steady alone twin.sameOutside).symm.trans (steady shared outside)

section Paths
variable (tree : start.IsTree) (outside : SameOutside m start shared)
include tree outside

theorem Twin.found (twin : Twin m start n place alone shared) :
    alone.resolve false m.directory (pathOf m n) = .ok (.found place) ∧
      shared.resolve false m.directory (pathOf m n) = .ok (.found place) := by
  have stands := (FileSystem.isDirectoryAt_iff _ _).mp twin.stands
  have stands' := (FileSystem.isDirectoryAt_iff _ _).mp twin.isDirectory
  constructor
  · rw [FileSystem.resolve_of_isPart (twin.sameOutside.isPart tree) twin.may]
    simp [Resolved.seenIn, stands]
  · rw [FileSystem.resolve_of_isPart (outside.isPart tree) twin.may]
    simp [Resolved.seenIn, stands']

/-- A name in the directory is refused in both for what it is, or leads in both to what stands
there. -/
theorem Twin.resolve_name (twin : Twin m start n place alone shared) (isName : IsEntryName name) :
    (∃ e, ∀ followLast,
      alone.resolve followLast m.directory ((pathOf m n).joinName name) = .error e ∧
      shared.resolve followLast m.directory ((pathOf m n).joinName name) = .error e) ∨
    ∀ followLast : Bool,
      (followLast → ∀ target, alone.entry? (place ++ [name]) ≠ some (.link target)) →
      alone.resolve followLast m.directory ((pathOf m n).joinName name) =
        .ok (Resolved.seenIn alone (.absent (place ++ [name]))) ∧
      shared.resolve followLast m.directory ((pathOf m n).joinName name) =
        .ok (Resolved.seenIn alone (.absent (place ++ [name]))) := by
  -- the directory was made at the start, and both have more in them since
  have vacant := twin.may.vacant
  have found : (start.put place .directory).resolve false m.directory (pathOf m n) =
      .ok (.found place) := by
    rw [FileSystem.resolve_put (.inl vacant) (by simp) false m.directory (pathOf m n) twin.may]
    simp [Resolved.filledAt]
  have isDirectory : (start.put place .directory).isDirectoryAt place := by
    rw [FileSystem.isDirectoryAt_iff, FileSystem.entry?_put start vacant.notRoot, if_pos rfl]
  have part : ∀ {whole : FileSystem}, start.IsPart whole → whole.isDirectoryAt place →
      (start.put place .directory).IsPart whole := by
    intro whole part isDirectory l entry stands
    rw [FileSystem.entry?_put start vacant.notRoot] at stands
    split at stands
    next here =>
      rw [here, ← stands]
      exact (FileSystem.isDirectoryAt_iff _ _).mp isDirectory
    next => exact part l entry stands
  have partAlone := part (twin.sameOutside.isPart tree) twin.stands
  have partShared := part (outside.isPart tree) twin.isDirectory
  have same := twin.own (place ++ [name]) (List.prefix_append _ _)
  have opens := FileSystem.opens_of_found (Scratch.pathOf_endsInName m n) found isDirectory
  rcases opens.resolve_name isName with ⟨e, refused⟩ | leads
  · exact .inl ⟨e, fun followLast =>
      ⟨refused alone partAlone followLast, refused shared partShared followLast⟩⟩
  · refine .inr fun followLast noLink => ⟨leads alone partAlone followLast noLink, ?_⟩
    rw [leads shared partShared followLast (by rwa [same])]
    simp only [Resolved.seenIn, same]

theorem Twin.alike (twin : Twin m start n place alone shared) (isName : IsEntryName name)
    {followLast : Bool}
    (noLink : followLast → ∀ target, alone.entry? (place ++ [name]) ≠ some (.link target)) :
    Alike followLast m.directory ((pathOf m n).joinName name) alone shared := by
  rcases twin.resolve_name tree outside isName with ⟨e, refused⟩ | leads
  · obtain ⟨left, right⟩ := refused followLast
    refine ⟨right.trans left.symm, fun r resolved => ?_⟩
    cases left.symm.trans resolved
  · obtain ⟨left, right⟩ := leads followLast noLink
    refine ⟨right.trans left.symm, fun r resolved l below => twin.own l ?_⟩
    obtain rfl := Except.ok.inj (left.symm.trans resolved)
    rw [FileSystem.Resolved.location_seenIn] at below
    exact (List.prefix_append place [name]).trans below

theorem Twin.located (twin : Twin m start n place alone shared) (isName : IsEntryName name)
    {r : Resolved}
    (resolved : alone.resolve false m.directory ((pathOf m n).joinName name) = .ok r) :
    r.location = place ++ [name] := by
  rcases twin.resolve_name tree outside isName with ⟨e, refused⟩ | leads
  · cases (refused false).1.symm.trans resolved
  · obtain rfl := Except.ok.inj ((leads false (by simp)).1.symm.trans resolved)
    exact FileSystem.Resolved.location_seenIn alone (.absent (place ++ [name]))

end Paths
end Place

/-! ## Calls -/

section Calls
variable {m : Machine} {named : Call → List Path} {start : FileSystem} {n : Nat} {place : Location}

theorem isEntryName_helm : IsEntryName "helm" := by
  constructor <;> decide

theorem tool_elsewhere (keeps : m.KeepsToItself named) {calls : List Call} {call : Call}
    {fs : FileSystem} {home : Path} (isHome : call.home? = some home) {l : Location}
    (outside : ∀ r, fs.resolve false m.directory home = .ok r → ¬ r.location <+: l) :
    FileSystem.entry? (m.tool calls call fs).2 l = fs.entry? l := by
  by_contra differs
  obtain ⟨home', r, isHome', resolved, below⟩ := keeps.writes calls call fs l differs
  obtain rfl := Option.some.inj (isHome.symm.trans isHome')
  exact outside r resolved below

/-- A call from the scratch directory yields the same alone and among others. -/
theorem run_alike (keeps : m.KeepsToItself named) (tree : start.IsTree) {r : Renderer}
    {arguments : List String} {result : Except InflationError Printed} {w a a' : World}
    (outside : SameOutside m start w.files) (twin : Twin m start n place a.files w.files)
    (atHome : r.home = (pathOf m n).joinName "helm")
    (asks : ∀ path ∈ named (r.call arguments), Alike true m.directory path a.files w.files)
    (run : r.run m arguments a = (result, a')) :
    ∃ w', r.run m arguments w = (result, w') ∧ w'.drawn = w.drawn ∧
      Twin m start n place a'.files w'.files ∧
      (∀ l, ¬ place ++ ["helm"] <+: l → a'.files.entry? l = a.files.entry? l) ∧
      ∀ l, ¬ place ++ ["helm"] <+: l → w'.files.entry? l = w.files.entry? l := by
  unfold Renderer.run at run ⊢
  by_cases nul : Renderer.holdsNul (r.call arguments)
  · simp only [nul, if_true, Prod.mk.injEq] at run ⊢
    obtain ⟨rfl, rfl⟩ := run
    exact ⟨w, ⟨rfl, rfl⟩, rfl, twin, fun _ _ => rfl, fun _ _ => rfl⟩
  · have isHome : (r.call arguments).home? = some ((pathOf m n).joinName "helm") :=
      congrArg some atHome
    have alike : Alike false m.directory ((pathOf m n).joinName "helm") a.files w.files :=
      twin.alike tree outside isEntryName_helm (by simp)
    obtain ⟨outcome, within⟩ := keeps.reads a.calls w.calls (r.call arguments) a.files w.files
      (fun home isHome' => Option.some.inj (isHome.symm.trans isHome') ▸ alike) asks
    simp only [nul, Bool.false_eq_true, if_false, Machine.perform, Prod.mk.injEq] at run ⊢
    obtain ⟨rfl, rfl⟩ := run
    have located : ∀ r, a.files.resolve false m.directory ((pathOf m n).joinName "helm") = .ok r →
        r.location = place ++ ["helm"] := fun r => twin.located tree outside isEntryName_helm
    have aloneElsewhere : ∀ l, ¬ place ++ ["helm"] <+: l →
        FileSystem.entry? (m.tool a.calls (r.call arguments) a.files).2 l = a.files.entry? l :=
      fun l outside => tool_elsewhere keeps isHome fun r resolved below =>
        outside (located r resolved ▸ below)
    have sharedElsewhere : ∀ l, ¬ place ++ ["helm"] <+: l →
        FileSystem.entry? (m.tool w.calls (r.call arguments) w.files).2 l = w.files.entry? l :=
      fun l outside => tool_elsewhere keeps isHome fun r resolved below =>
        outside (located r (alike.leads.symm.trans resolved) ▸ below)
    refine ⟨_, ⟨by rw [outcome], rfl⟩, rfl, ?_, aloneElsewhere, sharedElsewhere⟩
    refine twin.change "helm" aloneElsewhere sharedElsewhere fun l below => ?_
    cases resolved : a.files.resolve false m.directory ((pathOf m n).joinName "helm") with
    | ok r => exact within _ r isHome resolved l (located r resolved ▸ below)
    | error e =>
        -- a home that leads nowhere takes nothing up
        have nowhere := alike.leads.trans resolved
        have kept : FileSystem.entry? (m.tool a.calls (r.call arguments) a.files).2 l =
            a.files.entry? l :=
          tool_elsewhere keeps isHome (by simp [resolved])
        have kept' : FileSystem.entry? (m.tool w.calls (r.call arguments) w.files).2 l =
            w.files.entry? l :=
          tool_elsewhere keeps isHome (by simp [nowhere])
        rw [kept, kept']
        exact twin.own l ((List.prefix_append place ["helm"]).trans below)

end Calls

/-! ## Values -/

section Values
variable {m : Machine} {start alone shared : FileSystem} {n : Nat} {place : Location}
  {loader : Loader} {name : String} {content : Bytes}

/-- A file that is not there yet is written in both file systems, or in none. -/
theorem Twin.write (tree : start.IsTree) (outside : SameOutside m start shared)
    (twin : Twin m start n place alone shared) (isName : IsEntryName name)
    (nothing : alone.entry? (place ++ [name]) = none) (content : Bytes) :
    (∃ e, alone.write m.directory ((pathOf m n).joinName name) content = .error e ∧
      shared.write m.directory ((pathOf m n).joinName name) content = .error e) ∨
    ∃ alone' shared', alone.write m.directory ((pathOf m n).joinName name) content = .ok alone' ∧
      shared.write m.directory ((pathOf m n).joinName name) content = .ok shared' ∧
      Twin m start n place alone' shared' ∧
      (∀ target, alone'.entry? (place ++ [name]) ≠ some (.link target)) ∧
      ∀ l, ¬ place <+: l → shared'.entry? l = shared.entry? l := by
  rcases twin.resolve_name tree outside isName with ⟨e, refused⟩ | leads
  · obtain ⟨left, right⟩ := refused true
    exact .inl ⟨e, FileSystem.write_of_error left, FileSystem.write_of_error right⟩
  · obtain ⟨left, right⟩ := leads true (by simp [nothing])
    have isAbsent : Resolved.seenIn alone (.absent (place ++ [name])) =
        .absent (place ++ [name]) := by
      simp [Resolved.seenIn, nothing]
    rw [isAbsent] at left right
    have notRoot : place ++ [name] ≠ [] := by simp
    have entries := FileSystem.entry?_put alone notRoot (.file content false)
    have entries' := FileSystem.entry?_put shared notRoot (.file content false)
    have other : ∀ l, ¬ place ++ [name] <+: l → l ≠ place ++ [name] := by
      rintro l outside rfl
      exact outside List.prefix_rfl
    refine .inr ⟨_, _, FileSystem.write_of_absent left, FileSystem.write_of_absent right, ?_,
      fun target => ?_, fun l outside => ?_⟩
    · refine twin.change name (fun l outside => ?_) (fun l outside => ?_) fun l below => ?_
      · rw [entries, if_neg (other l outside)]
      · rw [entries', if_neg (other l outside)]
      · rw [entries, entries', twin.own l ((List.prefix_append place [name]).trans below)]
    · simp [entries]
    · rw [entries', if_neg]
      rintro rfl
      exact outside (List.prefix_append place [name])

end Values

end Inflation

end ChartInflation
