import ChartInflation.Proofs.Inflation.OwnPlace
import ChartInflation.Proofs.Inflation.ScratchLife
import ChartInflation.Proofs.Outcome

/-!
# Inflations that take turns

Any number of inflations do their steps in one world, in any order (`Together.after`).  If their
names for scratch directories differ, each of them comes through every phase, and to its end, just as
it does alone with the same scratch directory (`as_alone`).  What carries this is that a step of one
changes nothing but its own scratch directory, and that the scratch directories are apart (`Joint`).
-/

set_option autoImplicit false

namespace ChartInflation

open Function (update)
open Scratch (pathOf nameOf MayStand SameOutside Fresh)

def Inflation.alone (m : Machine) (loader : Loader) (i : Inflation) (w : World)
    (number count : Nat) : Inflation × World :=
  Inflation.steps m loader count (i.goTo .start) { w with drawn := number }

structure Together (ι : Type) where
  inflation : ι → Inflation
  world : World

namespace Together

open Inflation

variable {ι : Type}

def start (is : ι → Inflation) (w : World) : Together ι :=
  ⟨fun k => (is k).goTo .start, w⟩

variable [DecidableEq ι]

def turn (m : Machine) (loader : Loader) (now : Together ι) (k : ι) : Together ι :=
  let (i, w) := (now.inflation k).step m loader now.world
  ⟨update now.inflation k i, w⟩

def after (m : Machine) (loader : Loader) (now : Together ι) (schedule : List ι) : Together ι :=
  schedule.foldl (turn m loader) now

/-! ## Each at its own place -/

section Joint
variable {m : Machine} {loader : Loader} {named : Call → List Path} {is : ι → Inflation}
  {w w' : World} {schedule : List ι} {number number' : ι → Nat} {now : Together ι} {j k : ι}

/-- Whoever has begun is where it comes to alone, with a scratch directory of its own or without
one; and in nothing but those directories the files differ from what they were. -/
structure Joint (m : Machine) (loader : Loader) (is : ι → Inflation) (w : World)
    (schedule : List ι) (number : ι → Nat) (now : Together ι) : Prop where
  waiting : ∀ k, k ∉ schedule → now.inflation k = (is k).goTo .start
  same : ∀ k ∈ schedule,
    now.inflation k = (alone m loader (is k) w (number k) (schedule.count k)).1
  lane : ∀ k ∈ schedule,
    (∃ place, Occupies m loader (is k) w.files (number k) place (now.inflation k)
      (alone m loader (is k) w (number k) (schedule.count k)).2.files now.world.files) ∨
    Retired (now.inflation k)
  within : ∀ l, now.world.files.entry? l ≠ w.files.entry? l → ∃ k ∈ schedule, ∃ place,
    (now.inflation k).scratch.directory = some (pathOf m (number k)) ∧
      MayStand m w.files (number k) place ∧ place <+: l
  begun : w.drawn ≤ now.world.drawn
  drawn : ∀ k ∈ schedule, w.drawn ≤ number k ∧ number k < now.world.drawn
  apart : ∀ j ∈ schedule, ∀ k ∈ schedule, j ≠ k → number j ≠ number k

theorem joint_start (m : Machine) (loader : Loader) (is : ι → Inflation) (w : World)
    (number : ι → Nat) : Joint m loader is w [] number (start is w) := by
  constructor <;> simp [start]

theorem Joint.sameOutside (joint : Joint m loader is w schedule number now) :
    SameOutside m w.files now.world.files := by
  intro l differs
  obtain ⟨k, _, place, _, may, below⟩ := joint.within l differs
  exact ⟨number k, place, may, below⟩

theorem count_other (schedule : List ι) (other : j ≠ k) :
    (schedule ++ [k]).count j = schedule.count j := by
  rw [List.count_append, List.count_singleton, if_neg (by simpa using other.symm), Nat.add_zero]

theorem turn_of_moves {next : Inflation}
    (moves : Moves m loader (now.inflation k) now.world next w') :
    now.turn m loader k = ⟨update now.inflation k next, w'⟩ := by
  rw [turn, step_of_moves moves]

omit [DecidableEq ι] in
theorem drawn_of_turn {next : Inflation}
    (moves : Moves m loader (now.inflation k) now.world next w') : now.world.drawn ≤ w'.drawn :=
  (Scratch.turn_of_moves moves).event.drawn

/-- One of them has done a step that leads it where it comes to alone, under its number, which none
of the others has. -/
structure Turned (m : Machine) (loader : Loader) (is : ι → Inflation) (w : World)
    (schedule : List ι) (number number' : ι → Nat) (k : ι) (now now' : Together ι) : Prop where
  others : ∀ j, j ≠ k → now'.inflation j = now.inflation j
  agrees : ∀ j ∈ schedule, number' j = number j
  same : now'.inflation k = (alone m loader (is k) w (number' k) ((schedule ++ [k]).count k)).1
  moved : Moved m loader (is k) w.files (number' k) (now.inflation k) (now'.inflation k)
    (alone m loader (is k) w (number' k) ((schedule ++ [k]).count k)).2.files
    now.world.files now'.world.files
  later : now.world.drawn ≤ now'.world.drawn
  drawn : w.drawn ≤ number' k ∧ number' k < now'.world.drawn
  apart : ∀ j ∈ schedule, j ≠ k → number' j ≠ number' k

theorem turned_of_moves {next : Inflation} {a' : World}
    (moves : Moves m loader (now.inflation k) now.world next w')
    (agrees : ∀ j ∈ schedule, number' j = number j)
    (does : alone m loader (is k) w (number' k) ((schedule ++ [k]).count k) = (next, a'))
    (moved : Moved m loader (is k) w.files (number' k) (now.inflation k) next a'.files
      now.world.files w'.files)
    (drawn : w.drawn ≤ number' k ∧ number' k < w'.drawn)
    (apart : ∀ j ∈ schedule, j ≠ k → number' j ≠ number' k) :
    Turned m loader is w schedule number number' k now (now.turn m loader k) := by
  have itself : update now.inflation k next k = next := Function.update_self k next now.inflation
  rw [turn_of_moves moves]
  refine ⟨fun j other => Function.update_of_ne other next now.inflation, agrees, ?_, ?_,
    drawn_of_turn moves, drawn, apart⟩
  · rw [does]
    exact itself
  · simp only [does, itself]
    exact moved

section Turned
variable {now' : Together ι}

omit [DecidableEq ι] in
theorem mem_of_turned (member : j ∈ schedule ++ [k]) (other : j ≠ k) : j ∈ schedule := by
  simpa [other] using member

theorem Turned.drawn_all (turned : Turned m loader is w schedule number number' k now now')
    (joint : Joint m loader is w schedule number now) (member : j ∈ schedule ++ [k]) :
    w.drawn ≤ number' j ∧ number' j < now'.world.drawn := by
  by_cases isIt : j = k
  · exact isIt ▸ turned.drawn
  · have old := mem_of_turned member isIt
    have isDrawn := joint.drawn j old
    have later := turned.later
    rw [turned.agrees j old]
    omega

theorem Turned.apart_all (turned : Turned m loader is w schedule number number' k now now')
    (joint : Joint m loader is w schedule number now) {i : ι} (memberI : i ∈ schedule ++ [k])
    (memberJ : j ∈ schedule ++ [k]) (other : i ≠ j) : number' i ≠ number' j := by
  by_cases isI : i = k
  · subst isI
    exact (turned.apart j (mem_of_turned memberJ other.symm) other.symm).symm
  · have oldI := mem_of_turned memberI isI
    by_cases isJ : j = k
    · subst isJ
      exact turned.apart i oldI isI
    · have oldJ := mem_of_turned memberJ isJ
      rw [turned.agrees i oldI, turned.agrees j oldJ]
      exact joint.apart i oldI j oldJ other

/-- What stands at the place of another one is still the same. -/
theorem Turned.at_other (turned : Turned m loader is w schedule number number' k now now')
    (joint : Joint m loader is w schedule number now) (fresh : Fresh w.drawn now'.world.drawn)
    (member : j ∈ schedule) (other : j ≠ k) {place l : Location}
    (may : MayStand m w.files (number' j) place) (below : place <+: l) :
    now'.world.files.entry? l = now.world.files.entry? l := by
  cases turned.moved with
  | «at» place' may' elsewhere _ =>
      refine elsewhere l fun below' => ?_
      exact fresh.ne (turned.apart j member other)
        (turned.drawn_all joint (List.mem_append_left _ member)) turned.drawn
        (may.sameName may' below below')
  | nowhere _ _ same => rw [same]

theorem Turned.lane (turned : Turned m loader is w schedule number number' k now now')
    (joint : Joint m loader is w schedule number now) (fresh : Fresh w.drawn now'.world.drawn)
    (member : j ∈ schedule ++ [k]) :
    (∃ place, Occupies m loader (is j) w.files (number' j) place (now'.inflation j)
      (alone m loader (is j) w (number' j) ((schedule ++ [k]).count j)).2.files
      now'.world.files) ∨ Retired (now'.inflation j) := by
  by_cases isIt : j = k
  · subst isIt
    cases turned.moved with
    | «at» place _ _ goes => exact goes.imp (fun occupies => ⟨place, occupies⟩) And.left
    | nowhere _ retired _ => exact .inr retired
  · have old := mem_of_turned member isIt
    rw [turned.others j isIt, count_other schedule isIt]
    refine (joint.lane j old).imp_left ?_
    rw [← turned.agrees j old]
    rintro ⟨place, ⟨may, stands, around, own⟩, owned, knows⟩
    refine ⟨place, ⟨may, stands, around, fun l below => ?_⟩, owned, knows⟩
    exact (turned.at_other joint fresh old isIt may below).trans (own l below)

theorem Turned.within_other (turned : Turned m loader is w schedule number number' k now now')
    {l : Location} (belongs : ∃ j ∈ schedule, j ≠ k ∧ ∃ place,
      (now.inflation j).scratch.directory = some (pathOf m (number j)) ∧
        MayStand m w.files (number j) place ∧ place <+: l) :
    ∃ j ∈ schedule ++ [k], ∃ place,
      (now'.inflation j).scratch.directory = some (pathOf m (number' j)) ∧
        MayStand m w.files (number' j) place ∧ place <+: l := by
  obtain ⟨j, member, other, place, owned, may, below⟩ := belongs
  rw [← turned.agrees j member] at owned may
  exact ⟨j, List.mem_append_left _ member, place, by rw [turned.others j other, owned], may, below⟩

theorem Turned.within (turned : Turned m loader is w schedule number number' k now now')
    (tree : w.files.IsTree) (joint : Joint m loader is w schedule number now) {l : Location}
    (differs : now'.world.files.entry? l ≠ w.files.entry? l) :
    ∃ j ∈ schedule ++ [k], ∃ place,
      (now'.inflation j).scratch.directory = some (pathOf m (number' j)) ∧
        MayStand m w.files (number' j) place ∧ place <+: l := by
  cases turned.moved with
  | «at» place may elsewhere goes =>
      by_cases below : place <+: l
      · rcases goes with occupies | ⟨_, nothing⟩
        · exact ⟨k, by simp, place, occupies.owned, may, below⟩
        · exact absurd ((nothing l below).trans (may.nothing tree below).symm) differs
      · rw [elsewhere l below] at differs
        obtain ⟨j, member, place', owned, may', below'⟩ := joint.within l differs
        refine turned.within_other ⟨j, member, ?_, place', owned, may', below'⟩
        rintro rfl
        rw [← turned.agrees j member] at may'
        exact below (may.unique may' ▸ below')
  | nowhere unowned _ same =>
      rw [same] at differs
      obtain ⟨j, member, place, owned, may, below⟩ := joint.within l differs
      refine turned.within_other ⟨j, member, ?_, place, owned, may, below⟩
      rintro rfl
      cases unowned.symm.trans owned

/-- What one of them does at its place does not touch the others. -/
theorem Joint.next (joint : Joint m loader is w schedule number now) (tree : w.files.IsTree)
    (turned : Turned m loader is w schedule number number' k now now')
    (fresh : Fresh w.drawn now'.world.drawn) :
    Joint m loader is w (schedule ++ [k]) number' now' where
  waiting j notYet := by
    rw [List.mem_append, not_or, List.mem_singleton] at notYet
    rw [turned.others j notYet.2]
    exact joint.waiting j notYet.1
  same j member := by
    by_cases isIt : j = k
    · exact isIt ▸ turned.same
    · have old := mem_of_turned member isIt
      rw [turned.others j isIt, count_other schedule isIt, turned.agrees j old]
      exact joint.same j old
  lane _ member := turned.lane joint fresh member
  within _ differs := turned.within tree joint differs
  begun := Nat.le_trans joint.begun turned.later
  drawn _ member := turned.drawn_all joint member
  apart _ memberI _ memberJ other := turned.apart_all joint memberI memberJ other

end Turned

/-- The numbers of those that have not begun do not matter. -/
theorem Joint.renumber (joint : Joint m loader is w schedule number now)
    (agrees : ∀ j ∈ schedule, number' j = number j) :
    Joint m loader is w schedule number' now where
  waiting := joint.waiting
  same k member := by
    rw [agrees k member]
    exact joint.same k member
  lane k member := by
    rw [agrees k member]
    exact joint.lane k member
  within l differs := by
    obtain ⟨k, member, place, owned, may, below⟩ := joint.within l differs
    rw [← agrees k member] at owned may
    exact ⟨k, member, place, owned, may, below⟩
  begun := joint.begun
  drawn k member := by
    rw [agrees k member]
    exact joint.drawn k member
  apart j memberJ k memberK other := by
    rw [agrees j memberJ, agrees k memberK]
    exact joint.apart j memberJ k memberK other

theorem Joint.goOn (keeps : m.KeepsToItself named) (tree : w.files.IsTree)
    (independent : Independent m loader w.files named (is k))
    (joint : Joint m loader is w schedule number now) (member : k ∈ schedule)
    (fresh : Fresh w.drawn (now.turn m loader k).world.drawn) :
    Joint m loader is w (schedule ++ [k]) number (now.turn m loader k) := by
  rcases stepped : (now.inflation k).step m loader
    (alone m loader (is k) w (number k) (schedule.count k)).2 with ⟨next, a'⟩
  have moves := step_moves stepped
  have does : alone m loader (is k) w (number k) ((schedule ++ [k]).count k) = (next, a') := by
    rw [List.count_append, List.count_singleton_self, alone, steps_succ_last, ← alone,
      ← joint.same k member, stepped]
  obtain ⟨w', moves', drawn, moved⟩ : ∃ w', Moves m loader (now.inflation k) now.world next w' ∧
      w'.drawn = now.world.drawn ∧ Moved m loader (is k) w.files (number k) (now.inflation k) next
        a'.files now.world.files w'.files := by
    rcases joint.lane k member with ⟨place, occupies⟩ | retired
    · obtain ⟨w', moves', drawn, elsewhere, goes⟩ :=
        step_alike keeps tree independent joint.sameOutside occupies moves
      exact ⟨w', moves', drawn, .at place occupies.twin.may elsewhere goes⟩
    · obtain ⟨retired', unchanged⟩ := moves_of_retired retired moves
      exact ⟨now.world, unchanged now.world, rfl,
        .nowhere (congrArg Scratch.directory retired.unowned) retired' rfl⟩
  have isDrawn := joint.drawn k member
  rw [← drawn] at isDrawn
  exact joint.next tree (turned_of_moves moves' (fun _ _ => rfl) does moved isDrawn
    fun j old => joint.apart j old k member) fresh

theorem Joint.begin (tree : w.files.IsTree)
    (independent : Independent m loader w.files named (is k))
    (joint : Joint m loader is w schedule number now) (notYet : k ∉ schedule)
    (fresh : Fresh w.drawn (now.turn m loader k).world.drawn) :
    ∃ n, Joint m loader is w (schedule ++ [k]) (update number k n) (now.turn m loader k) := by
  have waiting := joint.waiting k notYet
  rcases stepped : (now.inflation k).step m loader now.world with ⟨next, w'⟩
  have moves := step_moves stepped
  have begun := joint.begun
  have turnedWorld : (now.turn m loader k).world = w' := by rw [turn_of_moves moves]
  -- the names that are drawn are none of those under which a directory stands
  have free : ∀ n place, now.world.drawn ≤ n → n < w'.drawn → MayStand m w.files n place →
      ∀ l, place <+: l → now.world.files.entry? l = none := by
    intro n place notBefore inside may l below
    by_contra stands
    rw [← may.nothing tree below] at stands
    obtain ⟨j, member, place', _, may', below'⟩ := joint.within l stands
    have isDrawn := joint.drawn j member
    have earlier : number j < w'.drawn := by omega
    rw [turnedWorld] at fresh
    exact fresh.ne (by omega) ⟨isDrawn.1, earlier⟩ ⟨by omega, inside⟩
      (may'.sameName may below' below)
  obtain ⟨n, a', notBefore, inside, moves', moved⟩ :=
    begin_alike tree joint.sameOutside free independent (waiting ▸ moves)
  have agrees : ∀ j ∈ schedule, update number k n j = number j := by
    intro j member
    refine Function.update_of_ne ?_ _ _
    rintro rfl
    exact notYet member
  have isFirst : (schedule ++ [k]).count k = 0 + 1 := by
    rw [List.count_append, List.count_singleton_self, List.count_eq_zero_of_not_mem notYet]
  have does : alone m loader (is k) w (update number k n k) ((schedule ++ [k]).count k) =
      (next, a') := by
    rw [isFirst, Function.update_self, alone, steps_succ_last, steps, step_of_moves moves']
  refine ⟨n, joint.next tree (turned_of_moves moves agrees does ?_ ?_ ?_) fresh⟩
  · rw [Function.update_self, waiting]
    exact moved
  · rw [Function.update_self]
    exact ⟨Nat.le_trans begun notBefore, inside⟩
  · intro j member other
    have isDrawn := joint.drawn j member
    rw [agrees j member, Function.update_self]
    omega

theorem after_append_singleton (m : Machine) (loader : Loader) (now : Together ι)
    (schedule : List ι) (k : ι) :
    now.after m loader (schedule ++ [k]) = (now.after m loader schedule).turn m loader k := by
  rw [after, List.foldl_append]
  rfl

/-- With numbers that are fixed for the whole schedule, all goes as it does alone at every moment. -/
theorem joint_after (keeps : m.KeepsToItself named) (tree : w.files.IsTree)
    (independent : ∀ k, Independent m loader w.files named (is k))
    (fresh : Fresh w.drawn ((start is w).after m loader schedule).world.drawn) :
    ∃ number, ∀ before, before <+: schedule →
      Joint m loader is w before number ((start is w).after m loader before) := by
  induction schedule using List.reverseRecOn with
  | nil =>
      refine ⟨fun _ => 0, fun before isPrefix => ?_⟩
      obtain rfl := List.prefix_nil.mp isPrefix
      exact joint_start m loader is w _
  | append_singleton schedule k ih =>
      rw [after_append_singleton] at fresh
      obtain ⟨number, joint⟩ := ih (fresh.upTo (drawn_of_turn (step_moves rfl)))
      have last := joint schedule List.prefix_rfl
      obtain ⟨number', agrees, next⟩ : ∃ number', (∀ j ∈ schedule, number' j = number j) ∧
          Joint m loader is w (schedule ++ [k]) number'
            (((start is w).after m loader schedule).turn m loader k) := by
        by_cases member : k ∈ schedule
        · exact ⟨number, fun _ _ => rfl,
            last.goOn keeps tree (independent k) member fresh⟩
        · obtain ⟨n, next⟩ := last.begin tree (independent k) member fresh
          refine ⟨update number k n, fun j old => Function.update_of_ne ?_ _ _, next⟩
          rintro rfl
          exact member old
      refine ⟨number', fun before isPrefix => ?_⟩
      rcases List.prefix_concat_iff.mp isPrefix with rfl | earlier
      · rw [after_append_singleton]
        exact next
      · exact (joint before earlier).renumber fun j member => agrees j (earlier.subset member)

end Joint

/-! ## Whole schedules -/

/-- What an inflation has come to among others, after a number of its own steps: it is where it comes
to alone under a number, ends in what it ends in alone, calls the renderer from the scratch directory
with that number only, and finds in its values file what belongs in there. -/
structure Undisturbed (m : Machine) (loader : Loader) (i : Inflation) (w : World)
    (number count : Nat) (now : Inflation) (files : FileSystem) : Prop where
  same : now = (alone m loader i w number count).1
  ends : 7 ≤ count → now.result = (i.generate m loader { w with drawn := number }).1.result
  home : ∀ d arguments, now.phase.request? now.parameters = some (d, arguments) →
    d = pathOf m number ∧
      (renderer now.parameters d).home = (pathOf m number).joinName "helm"
  values : ∀ d file, now.phase = .render d file →
    file = ValuesSource.target (pathOf m number) i.parameters.chart.name ∧
      ∃ bytes, i.parameters.values.content loader w.files = .ok (bytes, now.parameters.values) ∧
        files.read m.directory file = .ok bytes

section Schedules
variable {m : Machine} {loader : Loader} {named : Call → List Path} {is : ι → Inflation}
  {w : World} {schedule : List ι}

theorem drawn_le_of_turn (now : Together ι) (k : ι) :
    (now.turn m loader k).world.drawn ≤ now.world.drawn + Scratch.tries := by
  rcases stepped : (now.inflation k).step m loader now.world with ⟨next, w'⟩
  have moves := step_moves stepped
  rw [turn_of_moves moves]
  cases (Scratch.turn_of_moves moves).event with
  | ask result asked =>
      rcases Scratch.path_cases asked with ⟨_, _, _, _, rfl⟩ | ⟨_, made, _⟩
      · exact Nat.le_add_right _ _
      · exact Scratch.drawn_le_of_create made
  | release released =>
      rw [(Scratch.release_cases released).2.2.1]
      exact Nat.le_add_right _ _
  | work _ does =>
      rw [Scratch.drawn_of_work does]
      exact Nat.le_add_right _ _

theorem drawn_le_of_after (now : Together ι) (schedule : List ι) :
    (now.after m loader schedule).world.drawn ≤
      now.world.drawn + schedule.length * Scratch.tries := by
  induction schedule using List.reverseRecOn with
  | nil => exact Nat.le_add_right _ _
  | append_singleton schedule k ih =>
      rw [after_append_singleton, List.length_append, List.length_singleton, Nat.succ_mul]
      have last := @drawn_le_of_turn _ _ m loader (now.after m loader schedule) k
      omega

/-- Where there are not too many steps all names that are drawn differ. -/
theorem fresh_of_schedule (few : schedule.length * Scratch.tries ≤ Scratch.alphabet.length ^ 6) :
    Fresh w.drawn ((start is w).after m loader schedule).world.drawn :=
  Scratch.fresh_of_le (Nat.le_trans (drawn_le_of_after (start is w) schedule)
    (Nat.add_le_add_left few w.drawn))

theorem ends_alone {i now : Inflation} {number count : Nat}
    (same : now = (alone m loader i w number count).1)
    (done : 7 ≤ count) :
    now.result = (i.generate m loader { w with drawn := number }).1.result := by
  obtain ⟨more, rfl⟩ := Nat.exists_eq_add_of_le done
  obtain ⟨result, finished⟩ := generate_finished m loader i { w with drawn := number }
  rw [same, alone, steps_add, ← generate, steps_finished more finished]

theorem undisturbed_of_joint {number : ι → Nat} {now : Together ι} (tree : w.files.IsTree)
    (independent : ∀ k, Independent m loader w.files named (is k))
    (joint : Joint m loader is w schedule number now) (k : ι) :
    Undisturbed m loader (is k) w (number k) (schedule.count k) (now.inflation k)
      now.world.files := by
  have same : now.inflation k =
      (alone m loader (is k) w (number k) (schedule.count k)).1 := by
    by_cases member : k ∈ schedule
    · exact joint.same k member
    · rw [joint.waiting k member, List.count_eq_zero_of_not_mem member]
      rfl
  have lane : now.inflation k = (is k).goTo .start ∨ Retired (now.inflation k) ∨
      ∃ place alone, Occupies m loader (is k) w.files (number k) place (now.inflation k) alone
        now.world.files := by
    by_cases member : k ∈ schedule
    · rcases joint.lane k member with ⟨place, occupies⟩ | retired
      · exact .inr (.inr ⟨place, _, occupies⟩)
      · exact .inr (.inl retired)
    · exact .inl (joint.waiting k member)
  refine ⟨same, ends_alone same, fun d arguments asks => ?_, fun d file phase => ?_⟩
  · rcases lane with waiting | ⟨_, result, ended⟩ | ⟨place, _, occupies⟩
    · simp [waiting, goTo, Phase.request?] at asks
    · rcases ended with ended | ended <;> simp [ended, Phase.request?] at asks
    · exact occupies.home (independent k) asks
  · rcases lane with waiting | ⟨_, result, ended⟩ | ⟨place, _, occupies⟩
    · simp [waiting, goTo] at phase
    · rcases ended with ended | ended <;> simp [ended] at phase
    · exact occupies.values tree joint.sameOutside (independent k) phase

/-- Inflations that are independent of one another, and of which no two draw the same name for their
scratch directories, do not disturb one another: whatever the schedule, each of them is at every
moment where it would be alone with its scratch directory. -/
theorem as_alone (keeps : m.KeepsToItself named) (tree : w.files.IsTree)
    (independent : ∀ k, Independent m loader w.files named (is k))
    (fresh : Fresh w.drawn ((start is w).after m loader schedule).world.drawn) :
    ∃ number : ι → Nat,
      (∀ j ∈ schedule, ∀ k ∈ schedule, j ≠ k → pathOf m (number j) ≠ pathOf m (number k)) ∧
      ∀ before, before <+: schedule → ∀ k,
        Undisturbed m loader (is k) w (number k) (before.count k)
          (((start is w).after m loader before).inflation k)
          ((start is w).after m loader before).world.files := by
  obtain ⟨number, joint⟩ := joint_after keeps tree independent fresh
  refine ⟨number, fun j memberJ k memberK other same => ?_, fun before isPrefix k =>
    undisturbed_of_joint tree independent (joint before isPrefix) k⟩
  have last := joint schedule List.prefix_rfl
  exact fresh.ne (last.apart j memberJ k memberK other) (last.drawn j memberJ)
    (last.drawn k memberK) (Scratch.nameOf_eq_of_pathOf same)

end Schedules

/-! ## Two inflations of one chart -/

def toRender (c : Call) : Option (Path × Path) :=
  match c.arguments with
  | ["template", _, chart, "-f", values] => some (⟨chart⟩, ⟨values⟩)
  | _ => none

def rendered (fs : FileSystem) (chart values : Path) : Except FileError Bytes := do
  let l ← fs.locate [] chart
  return (← fs.readAt (l ++ ["template.yaml"])) ++ (← fs.read [] values)

def settled (home : Path) (fs : FileSystem) : FileSystem :=
  (fs.makeDirectory [] home).toOption.getD fs

def settling : Machine where
  directory := []
  scratchHome := ⟨"/tmp"⟩
  tool _ call files :=
    let printed := match toRender call with
      | some (chart, values) => rendered files chart values
      | none => .ok (Bytes.ofString "v3.14.0")
    (match printed with
      | .ok stdout => .exited 0 stdout []
      | .error _ => .exited 1 [] [],
     match call.home? with
      | some home => settled home files
      | none => files)

def filesOf (c : Call) : List Path :=
  match toRender c with
  | some (chart, values) => [chart, values]
  | none => []

section Settling
variable {fs fs' : FileSystem}

theorem rendered_congr {chart values : Path} (atChart : FileSystem.Alike true [] chart fs fs')
    (atValues : FileSystem.Alike true [] values fs fs') :
    rendered fs' chart values = rendered fs chart values := by
  rw [rendered, rendered, atChart.locate, atValues.read]
  cases located : fs.locate [] chart with
  | error e => rfl
  | ok l =>
      have same := atChart.stands _ (FileSystem.locate_eq_ok_iff.mp located)
        (l ++ ["template.yaml"]) (List.prefix_append l _)
      simp only [Outcome.ok_bind, FileSystem.readAt_congr same]

theorem settled_of_differs {home : Path} {l : Location}
    (differs : FileSystem.entry? (settled home fs) l ≠ fs.entry? l) :
    fs.resolve false [] home = .ok (.absent l) := by
  cases made : fs.makeDirectory [] home with
  | error e => simp [settled, made, Except.toOption] at differs
  | ok fs' =>
      obtain ⟨place, absent, isPut⟩ := FileSystem.makeDirectory_eq_ok_iff.mp made
      have notRoot := (FileSystem.resolve_absent absent).notRoot
      simp only [settled, made, Except.toOption, Option.getD_some, isPut,
        FileSystem.entry?_put fs notRoot] at differs
      by_cases here : l = place
      · rw [here, absent]
      · exact absurd (if_neg here) differs

theorem settled_congr {home : Path} (alike : FileSystem.Alike false [] home fs fs')
    {r : FileSystem.Resolved} (resolved : fs.resolve false [] home = .ok r) {l : Location}
    (below : r.location <+: l) :
    FileSystem.entry? (settled home fs') l = FileSystem.entry? (settled home fs) l := by
  have same := alike.stands r resolved l below
  have resolved' := alike.leads.trans resolved
  cases r with
  | found place =>
      simpa [settled, FileSystem.makeDirectory, resolved, resolved', Except.toOption] using same
  | absent place =>
      have notRoot := (FileSystem.resolve_absent resolved).notRoot
      simp [settled, FileSystem.makeDirectory, resolved, resolved', Except.toOption,
        FileSystem.entry?_put _ notRoot, same]

theorem settling_keepsToItself : settling.KeepsToItself filesOf := by
  constructor
  · intro calls call fs l differs
    cases isHome : call.home? with
    | none => simp [settling, isHome] at differs
    | some home =>
        simp only [settling, isHome] at differs
        exact ⟨home, .absent l, rfl, settled_of_differs differs, List.prefix_rfl⟩
  · intro calls calls' call fs fs' atHome named
    refine ⟨?_, fun home r isHome resolved l below => ?_⟩
    · cases asked : toRender call with
      | none => simp only [settling, asked]
      | some files =>
          obtain ⟨chart, values⟩ := files
          have same : rendered fs' chart values = rendered fs chart values :=
            rendered_congr (named chart (by simp [filesOf, asked]))
              (named values (by simp [filesOf, asked]))
          simp only [settling, asked, same]
    · simp only [settling, isHome]
      exact settled_congr (atHome home isHome) resolved below

end Settling

def inflatingWeb (b : Bool) : Inflation :=
  .new {
    command := "helm"
    chart := ⟨"web", none, none, ⟨"/charts"⟩⟩
    values := ⟨⟨"values.yaml"⟩, [], .mapping [(.string "b", .bool b)], .replace⟩
    render := {}
    configHome := none }

def webWorld : World where
  files := ⟨[(["tmp"], .directory), (["charts"], .directory), (["charts", "web"], .directory),
    (["charts", "web", "template.yaml"],
      .file (Bytes.ofString "apiVersion: v1\nkind: ConfigMap\n") false)]⟩
  calls := []
  drawn := 0

def overtaking : List Bool :=
  [true, false, true, true, false, true, false, false, false, false, true, false, true, true]

theorem isTree_webWorld : webWorld.files.IsTree :=
  FileSystem.isTree_of_entries (by decide)

theorem place_webWorld {n : Nat} {place : Location}
    (may : MayStand settling webWorld.files n place) : place = ["tmp"] ++ [nameOf n] := by
  obtain ⟨home, opens, rfl⟩ := may.opens
  have isTmp : webWorld.files.Opens [] ⟨"/tmp"⟩ ["tmp"] := ⟨rfl, rfl⟩
  rw [opens.unique isTmp]

theorem independent_inflatingWeb (b : Bool) :
    Independent settling noFiles webWorld.files filesOf (inflatingWeb b) where
  unowned := rfl
  ownHome := rfl
  oneName := by cases b <;> decide
  isLocal := by cases b <;> decide +kernel
  loads _ _ := rfl
  asks n path member := by
    have nothing : filesOf (versionCall (inflatingWeb b) (pathOf settling n)) = [] := rfl
    simp [nothing] at member
  renders n path member := by
    have directory : (inflatingWeb b).parameters.chart.directory = ⟨"/charts/web"⟩ := by
      cases b <;> decide +kernel
    have arguments : ∀ file : Path, templateArguments (inflatingWeb b).parameters file =
        ["template", "--generate-name", "/charts/web", "-f", file.text] := by
      intro file
      rw [templateArguments, directory]
      rfl
    have files : ∀ file, filesOf (renderCall (inflatingWeb b) (pathOf settling n) file) =
        [⟨"/charts/web"⟩, file] := by
      intro file
      rw [filesOf, toRender, renderCall, Renderer.call, arguments]
      rfl
    rw [files, List.mem_pair] at member
    refine member.symm.imp_right ?_
    rintro rfl
    have located : webWorld.files.locate settling.directory ⟨"/charts/web"⟩ =
        .ok ["charts", "web"] := rfl
    refine Scratch.steady_of_located isTree_webWorld located fun n' place may => ?_
    simp [place_webWorld may]

def ownResource (b : Bool) : String :=
  "apiVersion: v1\nkind: ConfigMap\nb: " ++ (if b then "true" else "false") ++ "\n"

theorem eq_ok_of_toOption {result : Except InflationError Resources} {text : String}
    (prints : (result.toOption.bind fun rs => (Resources.print rs).toOption) = some text) :
    ∃ rs, result = .ok rs ∧ Resources.print rs = .ok text := by
  cases result with
  | error e => simp [Except.toOption] at prints
  | ok rs =>
      refine ⟨rs, rfl, ?_⟩
      cases printed : Resources.print rs with
      | error e => simp [printed, Except.toOption] at prints
      | ok text' => simpa [printed, Except.toOption] using prints

theorem overtaking_prints : ∀ b, (((start inflatingWeb webWorld).after settling noFiles
    overtaking).inflation b).result.toOption.bind (fun rs => (Resources.print rs).toOption) =
      some (ownResource b) := by
  decide +kernel

/-- Each ends in what it ends in alone, which has its own values in it. -/
theorem as_alone_overtaking :
    ∃ number : Bool → Nat, pathOf settling (number true) ≠ pathOf settling (number false) ∧
      ∀ b, ∃ rs,
        (((start inflatingWeb webWorld).after settling noFiles overtaking).inflation b).result =
          .ok rs ∧
        ((inflatingWeb b).generate settling noFiles { webWorld with drawn := number b }).1.result =
          .ok rs ∧
        Resources.print rs = .ok (ownResource b) := by
  have few : overtaking.length * Scratch.tries ≤ Scratch.alphabet.length ^ 6 := by decide +kernel
  obtain ⟨number, apart, undisturbed⟩ := as_alone settling_keepsToItself isTree_webWorld
    independent_inflatingWeb (fresh_of_schedule few)
  refine ⟨number, apart true (by decide) false (by decide) (by decide), fun b => ?_⟩
  obtain ⟨rs, isOk, printed⟩ := eq_ok_of_toOption (overtaking_prints b)
  have same := (undisturbed overtaking List.prefix_rfl b).ends (by cases b <;> decide)
  exact ⟨rs, isOk, same.symm.trans isOk, printed⟩

end Together

end ChartInflation
