/-
Which setting a generated job has.

Documents may set the same thing at several levels: for a component in the trigger, for a job, for
its template, and for the repository. Here the settings of the jobs that a template gives a component
are traced back to the documents. Jobs without a template and the jobs that end a workflow are not
looked at.
-/

import CrossBuild.Proofs.Compile.Locality
import CrossBuild.Proofs.Config.Inheritance

namespace CrossBuild.Compile

open Config (Component setVersion? setMachines? setEnv NeedNames)
open Runs
open Yaml (Value)

variable {trigger : Config.Trigger} {repository : Config.Repository} {templates : TemplateSource}
  {options : Options} {result : Workflow} {settings : Settings} {member : Member}
  {components front back : List Component} {component : Component} {known : BuildJobs}
  {part : JobPart}

/-! ### What the levels say -/

/-- The versions that the steps which set up the tool chain are given. -/
def javaVersions (steps : List Step) : List (Option Value) :=
  (steps.filter fun step => step.uses = some "actions/setup-java@v4").map fun step =>
    step.inputs.get? "java-version"

/-- The version that the first level sets which sets one. -/
def firstVersion (levels : List Value) (fallback : String) : String :=
  (levels.findSome? setVersion?).getD fallback

def firstMachines (levels : List Value) : List String :=
  (levels.findSome? setMachines?).getD ["ubuntu-latest"]

def buildJobNamed (templates : TemplateSource) (name : String) : String :=
  match templates name with
  | .ok (some loaded) => loaded.config.buildJob
  | _ => name ++ "-build"

/-- One variable for each dependency, which holds the version that its build job puts out. -/
def dependencyVersions (templates : TemplateSource) (component : Component) :
    List (String × String) :=
  component.dependencies.map fun dependency =>
    versionEntry dependency.name (buildJobNamed templates dependency.name)

/-- The settings of a generated job: the component comes before the level of the job, this before its
template and that before the repository; variables of the job are laid over those of the template,
and versions over both. -/
structure SettledBy (options : Options) (item level document repository : Value)
    (versions : List (String × String)) (generated : List Step) (job : Job) : Prop where
  javaVersion : javaVersions generated = [some (.string
    (firstVersion [item, level, document, repository] options.defaultJavaVersion))]
  runsOn : job.runsOn = .ofLabels (firstMachines [level, document, repository])
  env : job.env = ((setEnv document).merge (setEnv level)).insertAll versions

/-! ### Steps -/

theorem javaVersions_append (before after : List Step) :
    javaVersions (before ++ after) = javaVersions before ++ javaVersions after := by
  unfold javaVersions
  rw [List.filter_append, List.map_append]

theorem javaVersions_setupSteps (version : String) (restores : Bool) :
    javaVersions (settings.setupSteps component version restores) = [some (.string version)] := by
  cases restores <;> rfl

/-- A job of a component sets up the tool chain once. -/
theorem javaVersions_componentJob :
    javaVersions (settings.componentJob component part).steps =
      [some (.string part.javaVersion)] := by
  unfold Settings.componentJob
  dsimp only
  simp only [javaVersions_append, javaVersions_setupSteps]
  cases part.isBuildJob <;> cases component.debug <;> rfl

/-! ### Versions of dependencies -/

theorem bindings_of_order (order : Config.ComponentsInOrder components)
    (whole : components = front ++ component :: back) :
    bindingsFor (knownBuildJobs templates front) component =
      component.dependencies.map fun dependency =>
        Binding.ofDependency dependency (buildJobNamed templates dependency.name) := by
  unfold bindingsFor
  rw [← List.filterMap_eq_map]
  apply List.filterMap_congr
  intro dependency listed
  obtain ⟨producer, -, named, found⟩ := knownBuildJobs_of_order order whole listed
  have build : buildJobId templates producer = buildJobNamed templates dependency.name := by
    rw [← named]
    rfl
  rw [found, build]
  rfl

theorem versionEntries_of_order (order : Config.ComponentsInOrder components)
    (whole : components = front ++ component :: back) :
    versionEntries (bindingsFor (knownBuildJobs templates front) component) =
      dependencyVersions templates component := by
  unfold versionEntries dependencyVersions
  rw [bindings_of_order order whole, List.map_map]
  rfl

/-! ### The jobs of a template -/

/-- A job needs the build job when its document lists the key of the build job. -/
theorem contains_buildJob_iff {own : Config.TemplateJob} {name buildKey : String}
    {names : List String} (needs : own.needs = names.map (Config.Template.jobName name)) :
    own.needs.contains (Config.Template.jobName name buildKey) = true ↔ buildKey ∈ names := by
  rw [List.contains_iff_mem, needs, List.mem_map]
  constructor
  · intro ⟨key, listed, same⟩
    rw [Config.Template.jobName_inj] at same
    exact same ▸ listed
  · intro listed
    exact ⟨buildKey, listed, rfl⟩

section Settled

variable {item level document repositoryDocument : Value}
variable (ownVersion : component.javaVersion = setVersion? item)
  (itsVersion : settings.repository.javaVersion = setVersion? repositoryDocument)
  (itsMachines : settings.repository.runsOn =
    (setMachines? repositoryDocument).getD Config.defaultRunsOn)

include ownVersion itsVersion in
theorem javaVersion_eq {version : Option String}
    (inherited : version = (setVersion? level).or (setVersion? document)) :
    settings.javaVersion component version =
      firstVersion [item, level, document, repositoryDocument]
        settings.options.defaultJavaVersion := by
  unfold Settings.javaVersion firstVersion
  rw [ownVersion, itsVersion, inherited]
  simp only [List.findSome?_cons, List.findSome?_nil]
  cases setVersion? item <;> cases setVersion? level <;> cases setVersion? document <;>
    cases setVersion? repositoryDocument <;> rfl

include itsMachines in
theorem runsOn_eq {machines : Option (List String)}
    (inherited : machines = (setMachines? level).or (setMachines? document)) :
    machines.getD settings.repository.runsOn =
      firstMachines [level, document, repositoryDocument] := by
  unfold firstMachines
  rw [itsMachines, inherited]
  simp only [List.findSome?_cons, List.findSome?_nil]
  cases setMachines? level <;> cases setMachines? document <;>
    cases setMachines? repositoryDocument <;> rfl

include ownVersion itsVersion itsMachines

theorem settled_templateJob (bindings : List Binding) (buildJob : String)
    {own : Config.TemplateJob}
    (inherits : Config.Template.Inherits document level own.env own.javaVersion own.runsOn) :
    SettledBy settings.options item level document repositoryDocument
      (versionEntries bindings ++
        if own.needs.contains buildJob then [versionEntry component.name buildJob] else [])
      (settings.templateJob component buildJob bindings own).steps
      (settings.templateJob component buildJob bindings own) := by
  constructor
  case javaVersion =>
    unfold Settings.templateJob
    rw [javaVersions_componentJob, ← javaVersion_eq ownVersion itsVersion inherits.javaVersion]
  case runsOn =>
    rw [← runsOn_eq itsMachines inherits.runsOn]
    rfl
  case env =>
    rw [OrderedMap.insertAll_append, ← inherits.env]
    rfl

theorem settled_of_stems {own : Config.TemplateJob} {key buildKey build : String}
    (builds : build = Config.Template.jobName component.name buildKey)
    (stems : Config.Template.StemsFrom component.name buildKey document (.string key, level) own)
    (bindings : List Binding) :
    ∃ names, NeedNames level names ∧ own.name = component.name ++ "-" ++ key ∧
      SettledBy settings.options item level document repositoryDocument
        (versionEntries bindings ++ if buildKey ∈ names then
          [versionEntry component.name (component.name ++ "-" ++ buildKey)] else [])
        (settings.templateJob component build bindings own).steps
        (settings.templateJob component build bindings own) := by
  obtain ⟨names, needNames, needs⟩ := stems.needs
  have named : own.name = component.name ++ "-" ++ key := by
    rw [stems.name, ← Value.string.inj stems.key]
    rfl
  have settled :=
    settled_templateJob ownVersion itsVersion itsMachines bindings build stems.inherits
  subst builds
  simp only [contains_buildJob_iff needs] at settled
  exact ⟨names, needNames, named, settled⟩

theorem settled_templateEndJob {bindings : List Binding} {buildJob : String}
    {endJob : Config.TemplateEndJob} {job : Job}
    (inherits : Config.Template.Inherits document level endJob.env endJob.javaVersion endJob.runsOn)
    (made : settings.templateEndJob component buildJob bindings endJob = .ok job) :
    ∃ generated own, job.steps = generated ++ own ∧
      userSteps endJob.name endJob.steps = .ok own ∧
      SettledBy settings.options item level document repositoryDocument
        (versionEntries bindings ++ [versionEntry component.name buildJob]) generated job := by
  obtain ⟨own, read, -, env, -, steps⟩ := Settings.templateEndJob_ok made
  refine ⟨_, own, steps, read, ?_⟩
  constructor
  case javaVersion =>
    rw [javaVersions_setupSteps, ← javaVersion_eq ownVersion itsVersion inherits.javaVersion]
  case runsOn =>
    rw [← runsOn_eq itsMachines inherits.runsOn]
    unfold Settings.templateEndJob at made
    rw [read] at made
    cases made
    rfl
  case env => rw [env, OrderedMap.insertAll_append, ← inherits.env]

end Settled

/-! ### Whole workflows -/

theorem placed_of_workflow (done : workflow trigger repository templates options = .ok result)
    (whole : trigger.components = front ++ component :: back) :
    ∃ member, member.Loads templates component ∧
      ∀ planned ∈ (({ workflowName := trigger.name, repository, options } : Settings).memberPlan
        (knownBuildJobs templates front) member).jobs, planned.PlacedIn result := by
  obtain ⟨member, jobs, loads, made, inside⟩ := block_of_workflow done whole
  refine ⟨member, loads, fun planned listed => ?_⟩
  obtain ⟨⟨id, job⟩, there, same, own⟩ := exists_of_mem_left made planned listed
  refine ⟨job, own, ?_⟩
  rw [same, OrderedMap.get?_eq_some_iff]
  exact inside.subset there

/-- The identifier stems from an entry of the template's document, or is that of its end job. While
a component is debugged, only the entry of the build job counts. -/
inductive StemsFromLevel (component : Component) (document : Value) : String → Prop where
  | entry {entries : List (Value × Value)} {key : String} {level : Value}
      (jobs : Config.valueUnder? "jobs" document = some (.mapping entries))
      (listed : (.string key, level) ∈ entries)
      (onlyBuild : component.debug = true →
        Config.valueUnder? "build-job" document = some (.string key)) :
      StemsFromLevel component document (component.name ++ "-" ++ key)
  | endJob {level : Value} (given : Config.valueUnder? "end-job" document = some level)
      (present : level ≠ .null) (noDebug : component.debug = false) :
      StemsFromLevel component document (component.name ++ "-end-job")

/-- The jobs that a component has from its template are settled by the documents. -/
structure JobsSettled (result : Workflow) (options : Options) (templates : TemplateSource)
    (component : Component) (template : Config.Template) (item document repository : Value) :
    Prop where
  ids : ∀ id ∈ blockIds templates component, StemsFromLevel component document id
  jobs : ∃ buildKey entries, Config.valueUnder? "build-job" document = some (.string buildKey) ∧
    Config.valueUnder? "jobs" document = some (.mapping entries) ∧
    ∀ key level, (.string key, level) ∈ entries → (component.debug = true → key = buildKey) →
      ∃ job names, result.jobs.get? (component.name ++ "-" ++ key) = some job ∧
        NeedNames level names ∧
        SettledBy options item level document repository
          (dependencyVersions templates component ++
            if buildKey ∈ names then
              [versionEntry component.name (component.name ++ "-" ++ buildKey)] else [])
          job.steps job
  endJob : ∀ level, Config.valueUnder? "end-job" document = some level → level ≠ .null →
    component.debug = false →
      ∃ job endJob generated own,
        result.jobs.get? (component.name ++ "-end-job") = some job ∧
        template.endJob = some endJob ∧ userSteps endJob.name endJob.steps = .ok own ∧
        job.steps = generated ++ own ∧
        SettledBy options item level document repository
          (dependencyVersions templates component ++
            [versionEntry component.name (buildJobId templates component)])
          generated job

theorem template_of_loads {loaded : LoadedTemplate} (loads : member.Loads templates component)
    (found : templates component.name = .ok (some loaded)) : member.template = some loaded := by
  have same := loads.loaded
  rw [found, Except.ok.injEq] at same
  exact same.symm

theorem stemsFromLevel_of_mem_blockIds {document : Value} {loaded : LoadedTemplate} {id : String}
    (found : templates component.name = .ok (some loaded))
    (read : Config.Template.read component.name document = .ok loaded.config)
    (inside : id ∈ blockIds templates component) : StemsFromLevel component document id := by
  obtain ⟨buildKey, entries, builds, jobs, -, each⟩ := Config.Template.jobs_of_read read
  have ofJob : ∀ own ∈ loaded.config.jobs, (component.debug = true → own.isBuildJob = true) →
      StemsFromLevel component document own.name := by
    intro own listed onlyBuild
    obtain ⟨⟨_, level⟩, entry, stems⟩ := exists_of_mem_right each own listed
    obtain rfl := stems.key
    rw [stems.name]
    refine .entry jobs entry fun debug => ?_
    have isBuild := onlyBuild debug
    rw [stems.builds, decide_eq_true_eq] at isBuild
    rw [isBuild, builds]
  have template : loadedTemplate? templates component = some loaded.config := by
    unfold loadedTemplate?
    rw [found]
    rfl
  unfold blockIds at inside
  rw [template] at inside
  dsimp only at inside
  split at inside
  · obtain ⟨own, listed, rfl⟩ := List.mem_map.mp inside
    obtain ⟨listed, isBuild⟩ := List.mem_filter.mp listed
    exact ofJob own listed fun _ => isBuild
  · rename_i noDebug
    rcases List.mem_append.mp inside with job | last
    · obtain ⟨own, listed, rfl⟩ := List.mem_map.mp job
      exact ofJob own listed fun debug => absurd debug noDebug
    · obtain ⟨endJob, ended, rfl⟩ := List.mem_map.mp last
      obtain ⟨named, level, given, present⟩ :=
        Config.Template.level_of_endJob read (Option.mem_toList.mp ended)
      rw [named, Config.Template.jobName_endJob]
      exact .endJob given present (Bool.eq_false_iff.mpr noDebug)

section Placed

variable {item document repositoryDocument : Value} {loaded : LoadedTemplate}
variable (order : Config.ComponentsInOrder trigger.components)
  (repositoryRead : Config.Repository.read repositoryDocument = .ok repository)
  (componentRead : Config.Trigger.readComponent item = .ok component)
  (done : workflow trigger repository templates options = .ok result)
  (listed : component ∈ trigger.components)
  (found : templates component.name = .ok (some loaded))
  (read : Config.Template.read component.name document = .ok loaded.config)
include order repositoryRead componentRead done listed found read

theorem jobsSettled_of_workflow :
    JobsSettled result options templates component loaded.config item document
      repositoryDocument := by
  obtain ⟨front, back, whole⟩ := List.append_of_mem listed
  obtain ⟨member, loads, placed⟩ := placed_of_workflow done whole
  have template := template_of_loads loads found
  obtain ⟨ownVersion, -⟩ := Config.version_of_readComponent componentRead
  obtain ⟨itsVersion, itsMachines⟩ := Config.settings_of_readRepository repositoryRead
  obtain ⟨buildKey, entries, builds, jobsThere, buildJob, each⟩ := Config.Template.jobs_of_read read
  -- below, only the repository and the options of these settings count
  generalize shared : ({ workflowName := trigger.name, repository, options } : Settings) = settings
    at placed
  have itsOptions : settings.options = options := by rw [← shared]
  have itsRepository : settings.repository = repository := by rw [← shared]
  rw [← itsRepository] at itsVersion itsMachines
  unfold Settings.memberPlan at placed
  rw [loads.own, template] at placed
  have versions : versionEntries (bindingsFor (knownBuildJobs templates front) component) =
      dependencyVersions templates component := versionEntries_of_order order whole
  constructor
  case ids => exact fun id inside => stemsFromLevel_of_mem_blockIds found read inside
  case jobs =>
    refine ⟨buildKey, entries, builds, jobsThere, fun key level entry onlyBuild => ?_⟩
    obtain ⟨own, inside, stems⟩ := exists_of_mem_left each (.string key, level) entry
    have planned : own ∈ if component.debug then
        loaded.config.jobs.filter Config.TemplateJob.isBuildJob else loaded.config.jobs := by
      split
      · rename_i debug
        rw [List.mem_filter, stems.builds, decide_eq_true_eq, ← Value.string.inj stems.key]
        exact ⟨inside, onlyBuild debug⟩
      · exact inside
    obtain ⟨job, made, there⟩ :=
      placed _ (List.mem_append_left _ (List.mem_map.mpr ⟨own, planned, rfl⟩))
    cases made
    obtain ⟨names, needNames, named, settled⟩ :=
      settled_of_stems ownVersion itsVersion itsMachines buildJob stems
        (bindingsFor (knownBuildJobs templates front) component)
    rw [versions] at settled
    rw [← itsOptions, ← named]
    exact ⟨_, names, there, needNames, settled⟩
  case endJob =>
    intro level given present noDebug
    obtain ⟨endJob, isLast, named, inherits⟩ := Config.Template.endJob_of_read read given present
    have planned : endJob ∈ (if component.debug then none else loaded.config.endJob).toList := by
      rw [noDebug, isLast]
      exact List.mem_singleton_self endJob
    obtain ⟨job, made, there⟩ :=
      placed _ (List.mem_append_right _ (List.mem_map.mpr ⟨endJob, planned, rfl⟩))
    obtain ⟨generated, own, steps, accepted, settled⟩ :=
      settled_templateEndJob ownVersion itsVersion itsMachines inherits made
    have build : buildJobId templates component = loaded.config.buildJob := by
      unfold buildJobId
      rw [found]
    rw [versions] at settled
    rw [build, ← itsOptions]
    refine ⟨job, endJob, generated, own, ?_, isLast, accepted, steps, settled⟩
    rw [← there, named, Config.Template.jobName_endJob]

end Placed

/-- Every setting of a job that comes of a template is the one of the closest level that sets it. -/
theorem settings_come_in_layers {triggerDocument repositoryDocument : Value}
    (accepted : Config.Trigger.read triggerDocument = .ok trigger)
    (repositoryRead : Config.Repository.read repositoryDocument = .ok repository)
    (done : workflow trigger repository templates options = .ok result) :
    ∃ items, Config.valueUnder? "components" triggerDocument = some (.sequence items) ∧
      List.Forall₂ (fun item component =>
        Config.valueUnder? "name" item = some (.string component.name) ∧
        ∀ loaded document, templates component.name = .ok (some loaded) →
          Config.Template.read component.name document = .ok loaded.config →
          JobsSettled result options templates component loaded.config item document
            repositoryDocument) items trigger.components := by
  have order := Config.Trigger.read_ok accepted
  obtain ⟨items, lists, read⟩ := Config.Trigger.lists_of_read accepted
  obtain ⟨added, whole, each⟩ := Config.Trigger.readComponents_each read
  rw [List.nil_append] at whole
  subst whole
  refine ⟨items, ?_, forall₂_imp_of_mem each fun item _ component listed own => ⟨?_, ?_⟩⟩
  · cases lists with
    | intro level _ _ listed =>
        exact Config.Fields.valueUnder?_of_get? level (Config.Fields.get?_of_require listed)
  · exact (Config.version_of_readComponent own).2
  · intro loaded document found templateRead
    exact jobsSettled_of_workflow order repositoryRead own done listed found templateRead

def openRepository : Value :=
  Config.Template.levelOf [("java-version", .number (.int 17)),
    ("runs-on", .sequence [.string "self-hosted", .string "linux"])]

/-- A job that leaves its machines open and overrides a variable. -/
def openJob : Value :=
  Config.Template.levelOf [("needs", .sequence [.string "jar"]), ("runs-on", .sequence []),
    ("env", Config.Template.levelOf [("B", .string "3")]),
    ("run", Config.Template.runsOne "shell" "ls")]

/-- A template that leaves open what it can. -/
def openTemplate : Value :=
  Config.Template.levelOf [("build-job", .string "jar"), ("java-version", .null),
    ("runs-on", .sequence []),
    ("env", Config.Template.levelOf [("A", .string "1"), ("B", .string "2")]),
    ("jobs", Config.Template.levelOf [
      ("jar", Config.Template.levelOf [("run", Config.Template.runsOne "mvn" "install")]),
      ("test", openJob)])]

def openTemplates : TemplateSource := fun name =>
  if name = "app" then
    match Config.Template.read "app" openTemplate with
    | .ok config => .ok (some { origin := "here", config })
    | .error cause => .error (.config cause)
  else .ok none

theorem settings_of_open_come_in_layers : ∃ repository result job,
    Config.Trigger.read sampleDocument = .ok sampleTrigger ∧
      Config.Repository.read openRepository = .ok repository ∧
      workflow sampleTrigger repository openTemplates (.ofBranch "side" 1) = .ok result ∧
      result.jobs.get? "app-test" = some job ∧ javaVersions job.steps = [some (.string "17")] ∧
      job.runsOn = .labels ["self-hosted", "linux"] ∧
      job.env.entries = [("A", "1"), ("B", "3"),
        ("version_core_api", expression "needs.core-api-build.outputs.version_core_api"),
        ("version_app", expression "needs.app-jar.outputs.version_app")] := by
  have accepted : Config.Trigger.read sampleDocument = .ok sampleTrigger :=
    except_eq_ok (by decide +kernel)
  have compiled : ((Config.Repository.read openRepository).toOption.bind fun repository =>
      (workflow sampleTrigger repository openTemplates
        (.ofBranch "side" 1)).toOption).isSome = true := by
    decide +kernel
  obtain ⟨result, compiled⟩ := Option.isSome_iff_exists.mp compiled
  obtain ⟨repository, read, done⟩ := Option.bind_eq_some_iff.mp compiled
  have repositoryRead := except_eq_ok read
  have done := except_eq_ok done
  obtain ⟨config, templateRead⟩ : ∃ config,
      Config.Template.read "app" openTemplate = .ok config := except_exists_ok (by decide +kernel)
  have found : openTemplates "app" = .ok (some { origin := "here", config }) := by
    unfold openTemplates
    rw [if_pos rfl, templateRead]
  obtain ⟨items, there, each⟩ := settings_come_in_layers accepted repositoryRead done
  cases there
  cases each with
  | cons _ rest =>
      cases rest with
      | cons second _ =>
          obtain ⟨-, settled⟩ := second
          obtain ⟨buildKey, entries, builds, listed, jobs⟩ :=
            (settled { origin := "here", config } openTemplate found templateRead).jobs
          cases builds
          cases listed
          obtain ⟨job, names, there, needNames, own⟩ := jobs "test" openJob
            (List.mem_cons_of_mem _ List.mem_cons_self) fun debug => nomatch debug
          have needs : names = ["jar"] := by
            cases needNames with
            | none absent => exact absurd (absent _ rfl) fun same => nomatch same
            | listed given =>
                have items : [Value.string "jar"] = names.map .string :=
                  Value.sequence.inj (Option.some.inj given)
                obtain ⟨name, rfl, same⟩ := List.map_eq_singleton_iff.mp items.symm
                rw [Value.string.inj same]
          subst needs
          refine ⟨repository, result, job, accepted, repositoryRead, done, there, ?_, ?_, ?_⟩
          · rw [own.javaVersion]
            exact congrArg (fun version => [some (Value.string version)]) (by decide +kernel)
          · rw [own.runsOn]
            decide +kernel
          · rw [own.env]
            decide +kernel

end CrossBuild.Compile
