import ChartInflation.Proofs.CommandLine.Delivery
import ChartInflation.Proofs.Inflation.FailedWrite
import ChartInflation.Proofs.Inflation.Failures

/-!
# Exit codes

An inflation that is asked for on the command line passes its stages one after the other.  Its exit
code is 0 exactly if all of them are passed, and otherwise that of the first one that fails, whatever
the report says besides (`run_exit`).  An error of the file system is reported by its text only, so
the exit code for such errors is never given (`missing_configuration_exit`).
-/

set_option autoImplicit false

namespace ChartInflation.CommandLine

/-- The stages of a command that inflates a chart, in their order; the last three are those of
resources that are written to files and of those that are printed. -/
inductive Stage where
  | readConfiguration
  | openRoot
  | configure
  | inflate (stage : Inflation.Stage)
  | showValues
  | makeDirectory
  | writeResources
  | printResources
deriving DecidableEq, Repr

def Stage.code : Stage → Nat
  | .configure | .inflate .makeScratch => 2
  | .inflate .findChart | .inflate .writeValues => 3
  | .inflate .checkVersion | .inflate .pull | .inflate .render | .inflate .readOutput => 4
  | .readConfiguration | .openRoot | .showValues | .makeDirectory | .writeResources
  | .printResources => 1

section Stages
variable (m : Machine) (request : InflateRequest) (w : World)

def Read (configuration : Bytes) : Prop :=
  w.files.read m.directory request.configuration = .ok configuration

def Opened (configuration : Bytes) (loader : Loader) : Prop :=
  Read m request w configuration ∧
    Loader.ofDirectory w.files m.directory request.loadRoot request.restriction = .ok loader

def Configured (loader : Loader) (p : Parameters) : Prop :=
  ∃ configuration, Opened m request w configuration loader ∧
    Parameters.resolve request.settings configuration loader w.files = .ok p

def Inflated (i : Inflation) (w' : World) (rs : Resources) : Prop :=
  ∃ loader p, Configured m request w loader p ∧
    (Inflation.new p).generate m loader w = (i, w') ∧ i.result = .ok rs

def Shows (values : ValuesSource) : Prop :=
  request.showValues → Values.isEmpty values.inline = false →
    ∃ text, values.inline.print = .ok text

def Announced (w' : World) (rs : Resources) : Prop :=
  ∃ i, Inflated m request w i w' rs ∧ Shows request i.parameters.values

def Delivers (rs : Resources) (fs : FileSystem) : Prop :=
  match request.outputDirectory with
  | some directory => ∃ fs₁ fs₂, fs.makeDirectoryTree m.directory directory = (fs₁, none) ∧
      Writes m.directory directory 0 rs fs₁ fs₂
  | none =>
    if request.json then ∃ items, JsonValue.ofItems? (rs.map Resource.toValue) = some items
    else ∃ text, Resources.print rs = .ok text

def Completes : Prop :=
  ∃ w' rs, Announced m request w w' rs ∧ Delivers m request rs w'.files

/-- A stage fails with a cause, and all stages that lie before it are passed. -/
inductive Fails : Stage → Report → Prop where
  | readConfiguration {e : FileError}
      (failed : w.files.read m.directory request.configuration = .error e) :
      Fails .readConfiguration (.ofFile e)
  | openRoot {configuration : Bytes} {e : InputError} (isRead : Read m request w configuration)
      (failed : Loader.ofDirectory w.files m.directory request.loadRoot request.restriction =
        .error e) :
      Fails .openRoot (.ofInput e)
  | configure {configuration : Bytes} {loader : Loader} {e : InflationError}
      (opened : Opened m request w configuration loader)
      (refused : Parameters.resolve request.settings configuration loader w.files = .error e) :
      Fails .configure (.inflation e)
  | inflate {loader : Loader} {p : Parameters} {stage : Inflation.Stage} {e : InflationError}
      (configured : Configured m request w loader p)
      (failed : Inflation.Fails m loader (.new p) w stage e) :
      Fails (.inflate stage) (.inflation e)
  | showValues {i : Inflation} {w' : World} {rs : Resources} {fault : Yaml.Fault}
      (inflated : Inflated m request w i w' rs) (asked : request.showValues)
      (inhabited : Values.isEmpty i.parameters.values.inline = false)
      (refused : i.parameters.values.inline.print = .error fault) :
      Fails .showValues (.ofYaml fault)
  | makeDirectory {w' : World} {rs : Resources} {directory : Path} {fs : FileSystem}
      {e : FileError} (announced : Announced m request w w' rs)
      (asked : request.outputDirectory = some directory)
      (failed : w'.files.makeDirectoryTree m.directory directory = (fs, some e)) :
      Fails .makeDirectory (.ofFile e)
  | writeResources {w' : World} {before after : Resources} {r : Resource} {directory : Path}
      {fs fs₁ : FileSystem} {cause : Report}
      (announced : Announced m request w w' (before ++ r :: after))
      (asked : request.outputDirectory = some directory)
      (made : w'.files.makeDirectoryTree m.directory directory = (fs, none))
      (written : Writes m.directory directory 0 before fs fs₁)
      (stops : Stops m.directory directory before.length r fs₁ cause) :
      Fails .writeResources cause
  | printJson {w' : World} {rs : Resources} (announced : Announced m request w w' rs)
      (asked : request.outputDirectory = none) (json : request.json)
      (refused : JsonValue.ofItems? (rs.map Resource.toValue) = none) :
      Fails .printResources (.other "key must be a string")
  | printYaml {w' : World} {rs : Resources} {fault : Yaml.Fault}
      (announced : Announced m request w w' rs) (asked : request.outputDirectory = none)
      (yaml : request.json = false) (refused : Resources.print rs = .error fault) :
      Fails .printResources (.ofYaml fault)

end Stages

/-! ## Reports -/

namespace Report

/-- What a command was doing does not change its exit code. -/
@[simp] theorem code_cause (report : Report) : report.cause.code = report.code := by
  induction report with
  | context doing report ih => exact ih
  | _ => rfl

theorem code_ne_zero (report : Report) : report.code ≠ 0 := by
  induction report with
  | inflation e => cases e <;> simp [code, exitCode]
  | file e => simp [code, fileFailure]
  | other message => simp [code, otherFailure]
  | context doing report ih => exact ih

end Report

/-! ## Kinds of errors -/

section Kinds
open Outcome

variable {e : InflationError} {loader : Loader} {fs : FileSystem}

theorem checkSettings_error {s : Settings} (refused : Parameters.checkSettings s = .error e) :
    exitCode e = 2 := by
  unfold Parameters.checkSettings at refused
  split at refused
  · exact Except.error.inj refused ▸ rfl
  · split at refused
    · exact Except.error.inj refused ▸ rfl
    · simp at refused

theorem policyOf_error {name : Option String} (refused : Parameters.policyOf name = .error e) :
    exitCode e = 2 := by
  unfold Parameters.policyOf at refused
  split at refused
  · simp at refused
  · next text _ =>
    cases known : MergePolicy.ofName text with
    | ok policy => simp [known, Except.mapError] at refused
    | error cause =>
        simp only [known, Except.mapError, Except.error.injEq] at refused
        exact refused ▸ rfl

theorem additionalFiles_error {files : List Path}
    (refused : Parameters.additionalFiles loader fs files = .error e) : exitCode e = 2 := by
  induction files with
  | nil => simp [Parameters.additionalFiles] at refused
  | cons file rest ih =>
      rw [Parameters.additionalFiles] at refused
      split at refused
      next cause missed => exact Except.error.inj refused ▸ rfl
      next bytes loaded =>
        rcases bind_eq_error_iff.mp refused with failed | ⟨_, _, failed⟩
        · exact ih failed
        · cases failed

theorem ofConfiguration_error {s : Settings} {c : ChartConfiguration}
    (refused : Parameters.ofConfiguration s c loader fs = .error e) : exitCode e = 2 := by
  rcases bind_eq_error_iff.mp refused with settings | ⟨_, _, refused⟩
  · exact checkSettings_error settings
  · dsimp only at refused
    split at refused
    next => exact Except.error.inj refused ▸ rfl
    next =>
      rcases bind_eq_error_iff.mp refused with policy | ⟨_, _, refused⟩
      · exact policyOf_error policy
      · rcases bind_eq_error_iff.mp refused with additional | ⟨_, _, refused⟩
        · exact additionalFiles_error additional
        · cases refused

theorem resolve_error {s : Settings} {configuration : Bytes}
    (refused : Parameters.resolve s configuration loader fs = .error e) : exitCode e = 2 := by
  rcases bind_eq_error_iff.mp refused with settings | ⟨_, _, refused⟩
  · exact checkSettings_error settings
  · split at refused
    next fault isWrong => exact Except.error.inj refused ▸ rfl
    next c isRead => exact ofConfiguration_error refused

theorem run_error {m : Machine} {r : Renderer} {arguments : List String} {w w' : World}
    (failed : r.run m arguments w = (.error e, w')) : exitCode e = 4 := by
  unfold Renderer.run at failed
  dsimp only at failed
  split at failed
  next => exact Except.error.inj (Prod.mk.inj failed).1 ▸ rfl
  next =>
    have judged := (Prod.mk.inj failed).1
    unfold Renderer.judge at judged
    split at judged
    next => exact Except.error.inj judged ▸ rfl
    next =>
      split at judged
      next => cases judged
      next => exact Except.error.inj judged ▸ rfl
    next => exact Except.error.inj judged ▸ rfl

theorem acceptVersion_error {printed : Printed}
    (refused : Renderer.acceptVersion printed = .error e) : exitCode e = 4 := by
  unfold Renderer.acceptVersion Version.detect at refused
  split at refused
  next => exact Except.error.inj refused ▸ rfl
  next =>
    dsimp only at refused
    split at refused
    next => cases refused
    next => exact Except.error.inj refused ▸ rfl

theorem write_error {s updated : ValuesSource} {chart : String} {here : Location}
    {directory : Path} {fs' : FileSystem}
    (failed : s.write chart loader here directory fs = (.error e, updated, fs')) :
    exitCode e = 3 := by
  obtain ⟨_, ⟨none, rfl⟩ | ⟨_, _, _, _, rfl⟩⟩ := ValuesSource.write_eq_error_iff.mp failed
  · have unwritten : ValuesSource.Unwritten updated loader here directory fs e updated :=
      ValuesSource.unwritten_of_content none
    cases unwritten <;> rfl
  · rfl

theorem resources_error {bytes : Bytes} (refused : Output.resources bytes = .error e) :
    exitCode e = 4 := by
  unfold Output.resources at refused
  split at refused
  next => cases refused
  next primary _ =>
    unfold Output.reread at refused
    split at refused
    next => exact Except.error.inj refused ▸ rfl
    next => exact Except.error.inj refused ▸ rfl
    next =>
      split at refused
      next => cases refused
      next => exact Except.error.inj refused ▸ rfl

theorem exitCode_of_fails {m : Machine} {i : Inflation} {w : World} {stage : Inflation.Stage}
    (fails : Inflation.Fails m loader i w stage e) : exitCode e = (Stage.inflate stage).code := by
  cases fails with
  | makeScratch failed => rfl
  | askVersion begun failed => exact run_error failed
  | refuseVersion begun called refused => exact acceptVersion_error refused
  | findChart accepted absent unknown => rfl
  | pull accepted absent known failed => exact run_error failed
  | writeValues ready failed => exact write_error failed
  | render prepared failed => exact run_error failed
  | readOutput prepared rendered refused => exact resources_error refused

end Kinds

section Running
variable {m : Machine} (env : Environment) {request : InflateRequest} {w : World}

theorem code_of_fails {stage : Stage} {cause : Report} (fails : Fails m request w stage cause) :
    cause.code = stage.code := by
  cases fails with
  | configure opened refused => exact resolve_error refused
  | inflate configured failed => exact exitCode_of_fails failed
  | writeResources announced asked made written stops => cases stops <;> rfl
  | _ => rfl

/-! ## Running the stages -/

theorem runInflate_of_inflated {i : Inflation} {w' : World} {rs : Resources}
    (inflated : Inflated m request w i w' rs) :
    runInflate m env request w = present m env request i.parameters.values rs w' := by
  obtain ⟨loader, p, ⟨configuration, ⟨isRead, opened⟩, resolved⟩, run, result⟩ := inflated
  simp only [Read] at isRead
  simp only [runInflate, isRead, opened, resolved, run, result]

theorem shownFor_of_shows {values : ValuesSource} (canShow : Shows request values) :
    (shownFor env request values).report = none := by
  unfold shownFor
  split
  next asked =>
    unfold shownValues
    by_cases empty : Values.isEmpty values.inline
    · simp only [empty, if_true, Ending.success]
    · rw [Bool.not_eq_true] at empty
      obtain ⟨text, printed⟩ := canShow asked empty
      simp only [empty, Bool.false_eq_true, if_false, printed, Ending.success]
  next => rfl

theorem shows_or_refused (request : InflateRequest) (values : ValuesSource) :
    Shows request values ∨ request.showValues ∧ Values.isEmpty values.inline = false ∧
      ∃ fault, values.inline.print = .error fault := by
  by_cases asked : request.showValues
  · cases empty : Values.isEmpty values.inline with
    | true => exact .inl fun _ inhabited => by simp [empty] at inhabited
    | false =>
        cases printed : values.inline.print with
        | ok text => exact .inl fun _ _ => ⟨text, printed⟩
        | error fault => exact .inr ⟨asked, rfl, fault, rfl⟩
  · exact .inl fun isAsked => absurd isAsked asked

theorem runInflate_of_shows {i : Inflation} {w' : World} {rs : Resources}
    (inflated : Inflated m request w i w' rs) (canShow : Shows request i.parameters.values) :
    let printed := (shownFor env request i.parameters.values).stdout
    runInflate m env request w =
      ((deliver env m.directory request rs w'.files printed).1,
        { w' with files := (deliver env m.directory request rs w'.files printed).2 }) := by
  rw [runInflate_of_inflated env inflated, present]
  simp only [shownFor_of_shows env canShow]

theorem runInflate_of_announced {w' : World} {rs : Resources}
    (announced : Announced m request w w' rs) : ∃ printed, runInflate m env request w =
      ((deliver env m.directory request rs w'.files printed).1,
        { w' with files := (deliver env m.directory request rs w'.files printed).2 }) := by
  obtain ⟨i, inflated, canShow⟩ := announced
  exact ⟨_, runInflate_of_shows env inflated canShow⟩

theorem report_of_completes (completes : Completes m request w) :
    (runInflate m env request w).1.report = none := by
  obtain ⟨w', rs, announced, delivers⟩ := completes
  obtain ⟨printed, run⟩ := runInflate_of_announced env announced
  rw [run]
  unfold Delivers at delivers
  split at delivers
  next directory asked =>
    obtain ⟨fs₁, fs₂, made, written⟩ := delivers
    obtain ⟨stdout, wrote⟩ := writeResources_of_writes env written printed
    simp only [deliver, asked, made, wrote, Ending.success]
  next asked =>
    split at delivers
    next json =>
      obtain ⟨items, isJson⟩ := delivers
      simp only [deliver, asked, printResources, json, if_true, isJson, Ending.success]
    next yaml =>
      obtain ⟨text, isText⟩ := delivers
      simp only [deliver, asked, printResources, yaml, Bool.false_eq_true, if_false, isText,
        Ending.success]

theorem report_of_fails {stage : Stage} {cause : Report} (fails : Fails m request w stage cause) :
    ∃ report, (runInflate m env request w).1.report = some report ∧ report.cause = cause := by
  cases fails with
  | readConfiguration failed => exact ⟨_, by simp only [runInflate, failed]; rfl, rfl⟩
  | openRoot isRead failed =>
      simp only [Read] at isRead
      exact ⟨_, by simp only [runInflate, isRead, failed]; rfl, rfl⟩
  | configure opened refused =>
      obtain ⟨isRead, opened⟩ := opened
      simp only [Read] at isRead
      exact ⟨_, by simp only [runInflate, isRead, opened, refused]; rfl, rfl⟩
  | inflate configured failed =>
      obtain ⟨configuration, ⟨isRead, opened⟩, resolved⟩ := configured
      simp only [Read] at isRead
      have result := Inflation.result_of_fails failed
      exact ⟨_, by simp only [runInflate, isRead, opened, resolved, result]; rfl, rfl⟩
  | showValues inflated asked inhabited refused =>
      have run := runInflate_of_inflated env inflated
      exact ⟨_, by simp only [run, present, shownFor, asked, if_true, shownValues, inhabited,
        Bool.false_eq_true, if_false, refused]; rfl, rfl⟩
  | makeDirectory announced asked failed =>
      obtain ⟨printed, run⟩ := runInflate_of_announced env announced
      exact ⟨_, by simp only [run, deliver, asked, failed]; rfl, rfl⟩
  | @writeResources _ _ after _ _ _ _ _ announced asked made written stops =>
      obtain ⟨printed, run⟩ := runInflate_of_announced env announced
      rw [← Nat.zero_add (List.length _)] at stops
      obtain ⟨report, stdout, wrote, isCause⟩ :=
        writeResources_of_stops env written stops after printed
      exact ⟨report, by simp only [run, deliver, asked, made, wrote, Ending.failure], isCause⟩
  | printJson announced asked json refused =>
      obtain ⟨printed, run⟩ := runInflate_of_announced env announced
      exact ⟨_, by simp only [run, deliver, asked, printResources, json, if_true, refused]; rfl, rfl⟩
  | printYaml announced asked yaml refused =>
      obtain ⟨printed, run⟩ := runInflate_of_announced env announced
      exact ⟨_, by simp only [run, deliver, asked, printResources, yaml, Bool.false_eq_true,
        if_false, refused]; rfl, rfl⟩

/-! ## One of the two -/

theorem delivers_or_fails {w' : World} {rs : Resources}
    (announced : Announced m request w w' rs) :
    Delivers m request rs w'.files ∨ ∃ stage cause, Fails m request w stage cause := by
  unfold Delivers
  split
  next directory asked =>
    rcases made : w'.files.makeDirectoryTree m.directory directory with ⟨fs, _ | e⟩
    · rcases writes_or_stops m.directory directory 0 rs fs with
        ⟨fs₁, written⟩ | ⟨before, r, after, fs₁, cause, rfl, written, stops⟩
      · exact .inl ⟨fs, fs₁, rfl, written⟩
      · rw [Nat.zero_add] at stops
        exact .inr ⟨_, _, .writeResources announced asked made written stops⟩
    · exact .inr ⟨_, _, .makeDirectory announced asked made⟩
  next asked =>
    by_cases json : request.json
    · rw [if_pos json]
      cases isJson : JsonValue.ofItems? (rs.map Resource.toValue) with
      | some items => exact .inl ⟨items, rfl⟩
      | none => exact .inr ⟨_, _, .printJson announced asked json isJson⟩
    · rw [if_neg json]
      rw [Bool.not_eq_true] at json
      cases isText : Resources.print rs with
      | ok text => exact .inl ⟨text, rfl⟩
      | error fault => exact .inr ⟨_, _, .printYaml announced asked json isText⟩

theorem inflated_or_fails {loader : Loader} {p : Parameters}
    (configured : Configured m request w loader p) :
    (∃ i w' rs, Inflated m request w i w' rs) ∨ ∃ stage cause, Fails m request w stage cause := by
  rcases run : (Inflation.new p).generate m loader w with ⟨i, w'⟩
  cases result : i.result with
  | ok rs => exact .inl ⟨i, w', rs, loader, p, configured, run, result⟩
  | error e =>
      have failed : ((Inflation.new p).generate m loader w).1.result = .error e := by
        rw [run, result]
      obtain ⟨stage, fails⟩ := (Inflation.result_error_iff e).mp failed
      exact .inr ⟨_, _, .inflate configured fails⟩

variable (m request w) in
theorem configured_or_fails : (∃ loader p, Configured m request w loader p) ∨
    ∃ stage cause, Fails m request w stage cause := by
  cases isRead : w.files.read m.directory request.configuration with
  | error e => exact .inr ⟨_, _, .readConfiguration isRead⟩
  | ok configuration =>
      cases opened : Loader.ofDirectory w.files m.directory request.loadRoot
          request.restriction with
      | error e => exact .inr ⟨_, _, .openRoot isRead opened⟩
      | ok loader =>
          cases resolved : Parameters.resolve request.settings configuration loader w.files with
          | error e => exact .inr ⟨_, _, .configure ⟨isRead, opened⟩ resolved⟩
          | ok p => exact .inl ⟨loader, p, configuration, ⟨isRead, opened⟩, resolved⟩

variable (m request w) in
/-- Either all stages are passed, or there is a first one that fails. -/
theorem completes_or_fails :
    Completes m request w ∨ ∃ stage cause, Fails m request w stage cause := by
  rcases configured_or_fails m request w with ⟨loader, p, configured⟩ | fails
  · rcases inflated_or_fails configured with ⟨i, w', rs, inflated⟩ | fails
    · rcases shows_or_refused request i.parameters.values with
        canShow | ⟨asked, inhabited, fault, refused⟩
      · rcases delivers_or_fails ⟨i, inflated, canShow⟩ with delivers | fails
        · exact .inl ⟨w', rs, ⟨i, inflated, canShow⟩, delivers⟩
        · exact .inr fails
      · exact .inr ⟨_, _, .showValues inflated asked inhabited refused⟩
    · exact .inr fails
  · exact .inr fails

theorem code_of_report {report : Report}
    (reports : (runInflate m env request w).1.report = some report) :
    (runInflate m env request w).1.exit.code = report.cause.code := by
  rw [Ending.exit, reports, Report.code_cause]
  rfl

theorem code_eq_zero_iff :
    (runInflate m env request w).1.exit.code = 0 ↔ Completes m request w := by
  constructor
  · intro success
    rcases completes_or_fails m request w with completes | ⟨stage, cause, fails⟩
    · exact completes
    · obtain ⟨report, reports, _⟩ := report_of_fails env fails
      exact absurd ((code_of_report env reports).symm.trans success) report.cause.code_ne_zero
  · intro completes
    rw [Ending.exit, report_of_completes env completes]
    rfl

variable {env}

theorem run_of_request {arguments : List String} {asked : Request}
    (accepted : requestOf env .nothing arguments = .ok asked) (m : Machine) (w : World) :
    run m env arguments w =
      ((runRequest m env asked w).1.exit, (runRequest m env asked w).2) := by
  simp only [run, accepted]

variable (m w) in
/-- An inflation that is asked for on the command line ends with 0 exactly if all stages are passed.
Otherwise there is a first one that fails, and the exit code is that of the stage, as it is that of
the cause alone: what the command was doing is reported besides. -/
theorem run_exit {arguments : List String} (accepted : requestOf env .nothing arguments =
    .ok (.inflate request)) :
    (run m env arguments w).1 = (runInflate m env request w).1.exit ∧
    ((run m env arguments w).1.code = 0 ↔ Completes m request w) ∧
    (∀ stage cause, Fails m request w stage cause →
      (run m env arguments w).1.code = stage.code ∧
        ∃ report, (runInflate m env request w).1.report = some report ∧ report.cause = cause ∧
          (run m env arguments w).1.code = cause.code) ∧
    (Completes m request w ∨ ∃ stage cause, Fails m request w stage cause) := by
  have exits : (run m env arguments w).1 = (runInflate m env request w).1.exit := by
    rw [run_of_request accepted]
    rfl
  rw [exits]
  refine ⟨rfl, code_eq_zero_iff env, ?_, completes_or_fails m request w⟩
  intro stage cause fails
  obtain ⟨report, reports, rfl⟩ := report_of_fails env fails
  have code := code_of_report env reports
  exact ⟨code.trans (code_of_fails fails), report, reports, rfl, code⟩

end Running

def inflating : List String := ["inflate", "chart.yaml", "--enable-helm"]

def asked : InflateRequest where
  configuration := ⟨"chart.yaml"⟩
  root := none
  restriction := .rootOnly
  outputDirectory := none
  json := false
  showValues := false
  settings := { enabled := true, command := "helm" }

theorem requestOf_inflating : requestOf [] .nothing inflating = .ok (.inflate asked) := by
  decide +kernel

def furnished : World where
  files := ⟨[(["tmp"], .directory),
    (["chart.yaml"], .file (Bytes.ofString "name: web\n") false),
    (["charts"], .directory), (["charts", "web"], .directory),
    (["charts", "web", "values.yaml"], .file (Bytes.ofString "a: 1\n") false)]⟩
  calls := []
  drawn := 0

theorem run_exit_furnished :
    Completes Inflation.obliging asked furnished ∧
    (run Inflation.obliging [] inflating Inflation.untouched).1.code =
      Stage.readConfiguration.code := by
  have success : (run Inflation.obliging [] inflating furnished).1.code = 0 := by
    decide +kernel
  have missing : Inflation.untouched.files.read [] ⟨"chart.yaml"⟩ = .error .notFound := by
    rfl
  obtain ⟨_, zero, _, _⟩ := run_exit Inflation.obliging furnished requestOf_inflating
  obtain ⟨_, _, failing, _⟩ := run_exit Inflation.obliging Inflation.untouched requestOf_inflating
  exact ⟨zero.mp success, (failing _ _ (.readConfiguration missing)).1⟩

/-- A configuration that cannot be read does not give the exit code of an error of the file
system. -/
theorem missing_configuration_exit :
    Inflation.untouched.files.read Inflation.obliging.directory asked.configuration =
      .error .notFound ∧
    (run Inflation.obliging [] inflating Inflation.untouched).1.code ≠
      (Report.file .notFound).code := by
  refine ⟨rfl, ?_⟩
  decide +kernel

end ChartInflation.CommandLine
