import ChartInflation.CommandLine.Arguments
import ChartInflation.Proofs.Outcome

/-!
# Reading without an option

Arguments are taken up one after the other (`Takes`), and what reading gives is where it stands
behind the last one (`readArguments_eq_ok_iff`).  If an option with a value is left out of a command
line that can be read, what is left can be read too, and gives the same but for this value
(`readArguments_without`).
-/

set_option autoImplicit false

namespace ChartInflation.CommandLine

/-! ## What was given -/

namespace Given

variable {g g' : Given} {rule : OptionRule} {value name : String} {grammar : Grammar}

theorem valuesOf_cons (g : Given) (rule : OptionRule) (value name : String) :
    { g with values := (rule.name, value) :: g.values }.valuesOf name =
      if rule.name = name then g.valuesOf name ++ [value] else g.valuesOf name := by
  by_cases same : rule.name = name
  · simp [valuesOf, List.filter_append, same]
  · simp [valuesOf, List.filter_append, same]

theorem addFlag_eq_ok_iff : g.addFlag name = .ok g' ↔
    g.hasFlag name = false ∧ g' = { g with flags := name :: g.flags } := by
  rw [addFlag, Outcome.guard_eq_ok_iff, Bool.not_eq_true, Except.ok.injEq, @eq_comm Given]

theorem addArgument_eq_ok_iff : g.addArgument grammar value = .ok g' ↔
    (grammar.takesArgument ∧ g.argument = none ∧ value ≠ "") ∧
      g' = { g with argument := some value } := by
  rw [addArgument, Outcome.guard_eq_ok_iff, Except.ok.injEq, @eq_comm Given]
  simp [and_assoc]

theorem addValue_eq_ok_iff : g.addValue rule value = .ok g' ↔
    rule.accepts value ∧ (rule.kind ≠ .many → g.valuesOf rule.name = []) ∧
      g' = { g with values := (rule.name, value) :: g.values } := by
  rw [addValue, Outcome.guard_eq_ok_iff, Outcome.guard_eq_ok_iff, Except.ok.injEq, @eq_comm Given]
  simp [value?]

/-- Two are given alike but for the values of one option. -/
structure AlikeBut (name : String) (g g' : Given) : Prop where
  flags : g'.flags = g.flags
  argument : g'.argument = g.argument
  others : ∀ other, other ≠ name → g'.valuesOf other = g.valuesOf other

theorem AlikeBut.hasFlag (alike : AlikeBut name g g') (flag : String) :
    g'.hasFlag flag = g.hasFlag flag := by
  rw [Given.hasFlag, Given.hasFlag, alike.flags]

theorem AlikeBut.value? (alike : AlikeBut name g g') {other : String} (isOther : other ≠ name) :
    g'.value? other = g.value? other := by
  rw [Given.value?, Given.value?, alike.others other isOther]

/-- One more value of an option is given.  It is the only one if more are not taken. -/
structure OneMore (rule : OptionRule) (value : String) (g g' : Given) : Prop
    extends AlikeBut rule.name g g' where
  own : ∃ before after, g.valuesOf rule.name = before ++ after ∧
    g'.valuesOf rule.name = before ++ value :: after ∧
    (rule.kind ≠ .many → before = [] ∧ after = [])

theorem OneMore.of_addValue (added : g.addValue rule value = .ok g') :
    OneMore rule value g g' := by
  obtain ⟨_, alone, rfl⟩ := addValue_eq_ok_iff.mp added
  refine ⟨⟨rfl, rfl, fun other isOther => ?_⟩, g.valuesOf rule.name, [], ?_, ?_, ?_⟩
  · rw [valuesOf_cons, if_neg isOther.symm]
  · rw [List.append_nil]
  · rw [valuesOf_cons, if_pos rfl]
  · exact fun single => ⟨alone single, rfl⟩

/-- Both take up the same values from then on: a second one of an option that takes one value only
is refused where the first one was given. -/
theorem OneMore.addValue {rule' : OptionRule} {text : String} {h' : Given}
    (more : OneMore rule value g g') (same : rule'.name = rule.name → rule' = rule)
    (added : g'.addValue rule' text = .ok h') :
    ∃ h, g.addValue rule' text = .ok h ∧ OneMore rule value h h' := by
  obtain ⟨⟨flags, argument, others⟩, before, after, own, own', alone⟩ := more
  obtain ⟨accepts, first, rfl⟩ := addValue_eq_ok_iff.mp added
  by_cases isOwn : rule'.name = rule.name
  · obtain rfl := same isOwn
    have many : rule'.kind = .many := by
      by_contra single
      simp [own'] at first
      exact single first
    refine ⟨_, addValue_eq_ok_iff.mpr ⟨accepts, fun single => absurd many single, rfl⟩,
      ⟨flags, argument, fun other isOther => ?_⟩, before, after ++ [text], ?_, ?_, ?_⟩
    · rw [valuesOf_cons, valuesOf_cons, others other isOther]
    · rw [valuesOf_cons, if_pos rfl, own, List.append_assoc]
    · rw [valuesOf_cons, if_pos rfl, own', List.append_assoc, List.cons_append]
    · exact fun single => absurd many single
  · rw [others _ isOwn] at first
    refine ⟨_, addValue_eq_ok_iff.mpr ⟨accepts, first, rfl⟩,
      ⟨flags, argument, fun other isOther => ?_⟩, before, after, ?_, ?_, alone⟩
    · rw [valuesOf_cons, valuesOf_cons, others other isOther]
    · rw [valuesOf_cons, if_neg isOwn, own]
    · rw [valuesOf_cons, if_neg isOwn, own']

theorem OneMore.addFlag {flag : String} {h' : Given} (more : OneMore rule value g g')
    (added : g'.addFlag flag = .ok h') :
    ∃ h, g.addFlag flag = .ok h ∧ OneMore rule value h h' := by
  obtain ⟨fresh, rfl⟩ := addFlag_eq_ok_iff.mp added
  rw [more.hasFlag] at fresh
  refine ⟨_, addFlag_eq_ok_iff.mpr ⟨fresh, rfl⟩, ⟨?_, more.argument, more.others⟩, more.own⟩
  rw [more.flags]

theorem OneMore.addArgument {text : String} {h' : Given} (more : OneMore rule value g g')
    (added : g'.addArgument grammar text = .ok h') :
    ∃ h, g.addArgument grammar text = .ok h ∧ OneMore rule value h h' := by
  obtain ⟨fits, rfl⟩ := addArgument_eq_ok_iff.mp added
  rw [more.argument] at fits
  exact ⟨_, addArgument_eq_ok_iff.mpr ⟨fits, rfl⟩, ⟨more.flags, rfl, more.others⟩, more.own⟩

end Given

/-! ## One argument after the other -/

structure Reading where
  onlyPlain : Bool
  pending : Option OptionRule
  given : Given

def Grammar.Knows (grammar : Grammar) (rule : OptionRule) : Prop :=
  grammar.options.find? (·.name == rule.name) = some rule

theorem Grammar.knows_of_find {grammar : Grammar} {name : String} {rule : OptionRule}
    (found : grammar.options.find? (·.name == name) = some rule) :
    rule.name = name ∧ grammar.Knows rule := by
  have isName : rule.name = name := by simpa using List.find?_some found
  exact ⟨isName, by rw [Knows, isName, found]⟩

section Reading
variable (grammar : Grammar)

inductive Takes : Reading → String → Reading → Prop where
  | value {onlyPlain : Bool} {rule : OptionRule} {g g' : Given} {text : String}
      (fits : isValue text) (added : g.addValue rule text = .ok g') :
      Takes ⟨onlyPlain, some rule, g⟩ text ⟨onlyPlain, none, g'⟩
  | endOfOptions {g : Given} {text : String} (shape : shapeOf text = .endOfOptions) :
      Takes ⟨false, none, g⟩ text ⟨true, none, g⟩
  | argument {onlyPlain : Bool} {g g' : Given} {text : String}
      (shape : onlyPlain = false → shapeOf text = .plain)
      (added : g.addArgument grammar text = .ok g') :
      Takes ⟨onlyPlain, none, g⟩ text ⟨onlyPlain, none, g'⟩
  | flag {g g' : Given} {text name : String} {rule : OptionRule}
      (shape : shapeOf text = .long name none)
      (asksNothing : request? grammar (.long name none) = none)
      (found : grammar.options.find? (·.name == name) = some rule) (kind : rule.kind = .flag)
      (added : g.addFlag name = .ok g') :
      Takes ⟨false, none, g⟩ text ⟨false, none, g'⟩
  | option {g g' : Given} {text name value : String} {rule : OptionRule}
      (shape : shapeOf text = .long name (some value))
      (found : grammar.options.find? (·.name == name) = some rule) (kind : rule.kind ≠ .flag)
      (added : g.addValue rule value = .ok g') :
      Takes ⟨false, none, g⟩ text ⟨false, none, g'⟩
  | await {g : Given} {text name : String} {rule : OptionRule}
      (shape : shapeOf text = .long name none)
      (asksNothing : request? grammar (.long name none) = none)
      (found : grammar.options.find? (·.name == name) = some rule) (kind : rule.kind ≠ .flag) :
      Takes ⟨false, none, g⟩ text ⟨false, some rule, g⟩

inductive Reads : Reading → List String → Reading → Prop where
  | nil {s : Reading} : Reads s [] s
  | cons {s t s' : Reading} {text : String} {rest : List String} (first : Takes grammar s text t)
      (more : Reads t rest s') : Reads s (text :: rest) s'

variable {grammar}

theorem shapeOf_of_seen {onlyPlain : Bool} {text : String} {shape : Shape}
    (seen : (if onlyPlain then .plain else shapeOf text) = shape) (notPlain : shape ≠ .plain) :
    onlyPlain = false ∧ shapeOf text = shape := by
  cases onlyPlain with
  | true => exact absurd seen.symm notPlain
  | false => exact ⟨rfl, seen⟩

section One
variable {onlyPlain : Bool} {pending : Option OptionRule} {g given : Given} {text : String}
  {rest : List String}

theorem takes_of_readArguments
    (read : readArguments grammar onlyPlain pending g (text :: rest) = .ok given) :
    ∃ t, Takes grammar ⟨onlyPlain, pending, g⟩ text t ∧
      readArguments grammar t.onlyPlain t.pending t.given rest = .ok given := by
  unfold readArguments at read
  split at read
  next rule =>
    split at read
    next => cases read
    next fits =>
      obtain ⟨g', added, more⟩ := Outcome.bind_eq_ok_iff.mp read
      exact ⟨_, .value (by simpa using fits) added, more⟩
  next =>
    dsimp only at read
    split at read
    next => cases read
    next seen =>
      obtain ⟨rfl, shape⟩ := shapeOf_of_seen seen (by decide)
      exact ⟨_, .endOfOptions shape, read⟩
    next seen =>
      obtain ⟨g', added, more⟩ := Outcome.bind_eq_ok_iff.mp read
      exact ⟨_, .argument (fun looked => by simpa [looked] using seen) added, more⟩
    next => cases read
    next name value asks seen =>
      obtain ⟨rfl, shape⟩ := shapeOf_of_seen seen (by simp)
      rw [seen] at asks
      split at read
      next => cases read
      next rule found =>
        split at read
        next kind =>
          obtain ⟨g', added, more⟩ := Outcome.bind_eq_ok_iff.mp read
          exact ⟨_, .flag shape asks found kind added, more⟩
        next => cases read
        next value kind =>
          obtain ⟨g', added, more⟩ := Outcome.bind_eq_ok_iff.mp read
          exact ⟨_, .option shape found kind added, more⟩
        next kind => exact ⟨_, .await shape asks found kind, read⟩

theorem readArguments_of_takes {t : Reading} (takes : Takes grammar ⟨onlyPlain, pending, g⟩ text t) :
    readArguments grammar onlyPlain pending g (text :: rest) =
      readArguments grammar t.onlyPlain t.pending t.given rest := by
  cases takes with
  | value fits added => simp [readArguments, fits, added]
  | endOfOptions shape => simp [readArguments, shape, request?]
  | @argument onlyPlain g g' text shape added =>
      have plain : (if onlyPlain then .plain else shapeOf text) = .plain := by
        cases onlyPlain with
        | true => rfl
        | false => exact shape rfl
      simp [readArguments, plain, request?, added]
  | flag shape asksNothing found kind added =>
      simp [readArguments, shape, asksNothing, found, kind, added]
  | option shape found kind added =>
      simp [readArguments, shape, request?, found, added]
  | await shape asksNothing found kind =>
      simp [readArguments, shape, asksNothing, found]

theorem readArguments_cons_iff :
    readArguments grammar onlyPlain pending g (text :: rest) = .ok given ↔
      ∃ t, Takes grammar ⟨onlyPlain, pending, g⟩ text t ∧
        readArguments grammar t.onlyPlain t.pending t.given rest = .ok given := by
  constructor
  · exact takes_of_readArguments
  · rintro ⟨t, takes, read⟩
    rw [readArguments_of_takes takes, read]

end One

theorem readArguments_eq_ok_iff {onlyPlain : Bool} {pending : Option OptionRule} {g given : Given}
    {texts : List String} : readArguments grammar onlyPlain pending g texts = .ok given ↔
      ∃ atEnd, Reads grammar ⟨onlyPlain, pending, g⟩ texts ⟨atEnd, none, given⟩ := by
  induction texts generalizing onlyPlain pending g with
  | nil =>
      rw [readArguments, Outcome.guard_eq_ok_iff, Except.ok.injEq]
      constructor
      · rintro ⟨nothingPending, rfl⟩
        rw [Option.not_isSome_iff_eq_none] at nothingPending
        exact ⟨onlyPlain, nothingPending ▸ .nil⟩
      · rintro ⟨_, ⟨⟩⟩
        exact ⟨by simp, rfl⟩
  | cons text rest ih =>
      rw [readArguments_cons_iff]
      constructor
      · rintro ⟨t, takes, read⟩
        obtain ⟨atEnd, reads⟩ := ih.mp read
        exact ⟨atEnd, .cons takes reads⟩
      · rintro ⟨atEnd, ⟨⟩ | ⟨takes, reads⟩⟩
        exact ⟨_, takes, ih.mpr ⟨atEnd, reads⟩⟩

theorem reads_append_iff {s s' : Reading} {front back : List String} :
    Reads grammar s (front ++ back) s' ↔
      ∃ t, Reads grammar s front t ∧ Reads grammar t back s' := by
  induction front generalizing s with
  | nil =>
      constructor
      · exact fun reads => ⟨s, .nil, reads⟩
      · rintro ⟨t, ⟨⟩, reads⟩
        exact reads
  | cons text rest ih =>
      constructor
      · rintro (_ | ⟨takes, reads⟩)
        obtain ⟨t, reads, more⟩ := ih.mp reads
        exact ⟨t, .cons takes reads, more⟩
      · rintro ⟨t, _ | ⟨takes, reads⟩, more⟩
        exact .cons takes (ih.mpr ⟨t, reads, more⟩)

/-! ## Leaving an option out -/

theorem shapeOf_eq_endOfOptions {text : String} (shape : shapeOf text = .endOfOptions) :
    text = "--" := by
  unfold shapeOf at shape
  split at shape
  next dashes => exact String.toList_inj.mp dashes
  next => dsimp only at shape; split at shape <;> cases shape
  next => cases shape
  next => cases shape

/-- Options are looked for up to the two dashes alone. -/
theorem reads_onlyPlain {s s' : Reading} {texts : List String} (reads : Reads grammar s texts s')
    (looked : s.onlyPlain = false) (options : "--" ∉ texts) : s'.onlyPlain = false := by
  induction reads with
  | nil => exact looked
  | cons takes more ih =>
      rw [List.mem_cons, not_or] at options
      refine ih ?_ options.2
      cases takes with
      | endOfOptions shape => exact absurd (shapeOf_eq_endOfOptions shape).symm options.1
      | _ => exact looked

structure Reading.OneMore (grammar : Grammar) (rule : OptionRule) (value : String)
    (s s' : Reading) : Prop where
  onlyPlain : s'.onlyPlain = s.onlyPlain
  pending : s'.pending = s.pending
  known : ∀ rule' ∈ s.pending, grammar.Knows rule'
  given : s.given.OneMore rule value s'.given

variable {rule : OptionRule} {value : String} {s s' t' : Reading}

theorem takes_without (known : grammar.Knows rule) {text : String}
    (more : s.OneMore grammar rule value s') (takes : Takes grammar s' text t') :
    ∃ t, Takes grammar s text t ∧ t.OneMore grammar rule value t' := by
  -- options of one name are one option
  have same {rule' : OptionRule} (isKnown : grammar.Knows rule') (named : rule'.name = rule.name) :
      rule' = rule := by
    rw [Grammar.Knows, named, known] at isKnown
    exact (Option.some.inj isKnown).symm
  have nothing (rule' : OptionRule) (waits : rule' ∈ (none : Option OptionRule)) :
      grammar.Knows rule' := absurd waits (by simp)
  obtain ⟨onlyPlain, pending, g⟩ := s
  obtain ⟨onlyPlain', pending', g'⟩ := s'
  obtain ⟨rfl, rfl, waiting, given⟩ := more
  cases takes with
  | value fits added =>
      obtain ⟨h, added', more⟩ := given.addValue (same (waiting _ rfl)) added
      exact ⟨_, .value fits added', rfl, rfl, nothing, more⟩
  | endOfOptions shape =>
      exact ⟨_, .endOfOptions shape, rfl, rfl, nothing, given⟩
  | argument shape added =>
      obtain ⟨h, added', more⟩ := given.addArgument added
      exact ⟨_, .argument shape added', rfl, rfl, nothing, more⟩
  | flag shape asksNothing found kind added =>
      obtain ⟨h, added', more⟩ := given.addFlag added
      exact ⟨_, .flag shape asksNothing found kind added', rfl, rfl, nothing, more⟩
  | option shape found kind added =>
      obtain ⟨_, isKnown⟩ := Grammar.knows_of_find found
      obtain ⟨h, added', more⟩ := given.addValue (same isKnown) added
      exact ⟨_, .option shape found kind added', rfl, rfl, nothing, more⟩
  | @await _ _ _ rule' shape asksNothing found kind =>
      obtain ⟨_, isKnown⟩ := Grammar.knows_of_find found
      refine ⟨_, .await shape asksNothing found kind, rfl, rfl, fun other waits => ?_, given⟩
      obtain rfl : rule' = other := Option.some.inj waits
      exact isKnown

theorem reads_without (known : grammar.Knows rule) {texts : List String}
    (more : s.OneMore grammar rule value s') (reads : Reads grammar s' texts t') :
    ∃ t, Reads grammar s texts t ∧ t.OneMore grammar rule value t' := by
  induction reads generalizing s with
  | nil => exact ⟨s, .nil, more⟩
  | cons takes _ ih =>
      obtain ⟨t, takes', more⟩ := takes_without known more takes
      obtain ⟨u, reads, more⟩ := ih more
      exact ⟨u, .cons takes' reads, more⟩

/-- The arguments that give an option a value: one that has it behind an equals sign, or two. -/
inductive Spells (rule : OptionRule) (value : String) : List String → Prop where
  | joined {text : String} (shape : shapeOf text = .long rule.name (some value)) :
      Spells rule value [text]
  | apart {text : String} (shape : shapeOf text = .long rule.name none) :
      Spells rule value [text, value]

theorem oneMore_of_joined (known : grammar.Knows rule) {text : String}
    (shape : shapeOf text = .long rule.name (some value)) (looked : s.onlyPlain = false)
    (takes : Takes grammar s text s') : s.OneMore grammar rule value s' := by
  cases takes with
  | option shape' found kind added =>
      obtain ⟨rfl, given⟩ := Shape.long.inj (shape'.symm.trans shape)
      obtain rfl := Option.some.inj given
      obtain rfl := Option.some.inj (found.symm.trans known)
      exact ⟨rfl, rfl, by simp, .of_addValue added⟩
  | value fits added => simp [isValue, shape] at fits
  | argument shape' added => cases (shape' looked).symm.trans shape
  | endOfOptions shape' | flag shape' _ _ _ _ | await shape' _ _ _ =>
      cases shape'.symm.trans shape

theorem awaits_of_apart (known : grammar.Knows rule) (kind : rule.kind ≠ .flag) {text : String}
    (shape : shapeOf text = .long rule.name none) (looked : s.onlyPlain = false)
    (takes : Takes grammar s text s') :
    ∃ g, s = ⟨false, none, g⟩ ∧ s' = ⟨false, some rule, g⟩ := by
  cases takes with
  | await shape' asksNothing found kind' =>
      obtain ⟨rfl, _⟩ := Shape.long.inj (shape'.symm.trans shape)
      obtain rfl := Option.some.inj (found.symm.trans known)
      exact ⟨_, rfl, rfl⟩
  | flag shape' asksNothing found isFlag added =>
      obtain ⟨rfl, _⟩ := Shape.long.inj (shape'.symm.trans shape)
      obtain rfl := Option.some.inj (found.symm.trans known)
      exact absurd isFlag kind
  | value fits added => simp [isValue, shape] at fits
  | argument shape' added => cases (shape' looked).symm.trans shape
  | endOfOptions shape' | option shape' _ _ _ => cases shape'.symm.trans shape

theorem oneMore_of_spells (known : grammar.Knows rule) (kind : rule.kind ≠ .flag)
    {spelled : List String} (spells : Spells rule value spelled) (looked : s.onlyPlain = false)
    (reads : Reads grammar s spelled s') : s.OneMore grammar rule value s' := by
  cases spells with
  | joined shape =>
      obtain _ | ⟨takes, ⟨⟩⟩ := reads
      exact oneMore_of_joined known shape looked takes
  | apart shape =>
      obtain _ | ⟨takes, _ | ⟨takes', ⟨⟩⟩⟩ := reads
      obtain ⟨g, rfl, rfl⟩ := awaits_of_apart known kind shape looked takes
      cases takes' with
      | value fits added => exact ⟨rfl, rfl, by simp, .of_addValue added⟩

theorem readArguments_without (known : grammar.Knows rule) (kind : rule.kind ≠ .flag)
    {front spelled back : List String} {g given : Given} (spells : Spells rule value spelled)
    (options : "--" ∉ front)
    (read : readArguments grammar false none g (front ++ spelled ++ back) = .ok given) :
    ∃ given', readArguments grammar false none g (front ++ back) = .ok given' ∧
      given'.OneMore rule value given := by
  obtain ⟨atEnd, reads⟩ := readArguments_eq_ok_iff.mp read
  obtain ⟨u, reads, behind⟩ := reads_append_iff.mp reads
  obtain ⟨t, before, spelled⟩ := reads_append_iff.mp reads
  have looked := reads_onlyPlain before rfl options
  obtain ⟨⟨_, _, given'⟩, rest, ⟨rfl, rfl, _, more⟩⟩ :=
    reads_without known (oneMore_of_spells known kind spells looked spelled) behind
  exact ⟨given', readArguments_eq_ok_iff.mpr ⟨_, reads_append_iff.mpr ⟨t, before, rest⟩⟩, more⟩

end Reading

end ChartInflation.CommandLine
