/-
How artifacts travel along the side branch.

After its build, the build job of a component stores the artifacts in a folder of its own and pushes
them. A job that waits for a build job, through however many jobs between, fetches the branch and
lays the stored artifacts over the local repository before it does anything of its own. A component
job decides by its direct needs only; that this is enough is shown here. What the commands in these
steps do to files is not.
-/

import CrossBuild.Proofs.Compile.Versions
import CrossBuild.Proofs.Files.Spelling

namespace CrossBuild.Compile

open Config (Component)
open Files (Path isEntryName isEntryName_iff)
open Runs

/-! ### What is asked for -/

/-- Lay all stored artifacts over the local repository. -/
def overlayAll (options : Options) : Step :=
  toolCommand options.toolCommand "overlay-backed-up-maven-artifacts" [mavenRepository, backupsRoot]

/-- Bring the side branch up to date, then lay its artifacts over the local repository. -/
def fetchSteps (options : Options) : List Step :=
  [gitRebase toolsDirectory, overlayAll options]

def backupFolder (name : String) : String :=
  backupsRoot ++ "/" ++ name

/-- Store artifacts under the name of their component, then push them to the side branch. -/
def storeSteps (options : Options) (name : String) : List Step :=
  [(toolCommand options.toolCommand "backup-maven-artifacts"
      ["pom.xml", mavenRepository, backupFolder name]).withCondition "success()",
   gitCommitAndPush toolsDirectory ("Back up the maven artifacts created by " ++ name) .success]

/-- The job runs one build, with these steps before and after it. -/
structure BuildsBetween (job : Job) (run : BuildRun) (before after : List Step) : Prop where
  steps : ∃ options, job.steps = before ++ mavenBuild (run.script options) :: after
  once : ∀ step ∈ before ++ after, step.name ≠ some "Maven Build"

/-- The end job of a component; in debug mode it has none. -/
def componentEndJob? (templates : TemplateSource) (component : Component) :
    Option Config.TemplateEndJob :=
  match templates component.name with
  | .ok (some loaded) => if component.debug then none else loaded.config.endJob
  | _ => none

/-- How artifacts are handed on. Of the jobs that run a build, those that wait for a build job fetch
before their own build, and overlay just when they need a job other than the first; the build job of
the component stores after its build. End jobs fetch before the steps of the user. -/
structure HandsOn (result : Workflow) (repository : Config.Repository) (templates : TemplateSource)
    (options : Options) (components : List Component) : Prop where
  builds : ∀ component ∈ components, ∀ run ∈ buildRuns templates component,
    ∃ job before after, result.jobs.get? run.id = some job ∧ BuildsBetween job run before after ∧
      (overlayAll options ∈ job.steps ↔ ∃ need ∈ job.needs, need ≠ cancelJobId) ∧
      (∀ producer ∈ components,
        JobGraph.WaitsFor { jobs := result.jobs } run.id (buildJobId templates producer) →
          fetchSteps options <:+: before) ∧
      (run.id = buildJobId templates component → storeSteps options component.name <:+: after)
  buildJob : ∀ component ∈ components,
    ∃ run ∈ buildRuns templates component, run.id = buildJobId templates component
  componentEnd : ∀ component ∈ components, ∀ endJob,
    componentEndJob? templates component = some endJob →
      ∃ job before steps, result.jobs.get? endJob.name = some job ∧
        userSteps endJob.name endJob.steps = .ok steps ∧ job.steps = before ++ steps ∧
          fetchSteps options <:+: before
  repositoryEnd : ∀ endJob, repository.endJob = some endJob →
    ∃ job before steps after, result.jobs.get? endJobId = some job ∧
      userSteps endJobId endJob.steps = .ok steps ∧ job.steps = before ++ steps ++ after ∧
        fetchSteps options <:+: before
  folders : ∀ component ∈ components,
    Path.parent? ⟨backupFolder component.name⟩ = some ⟨backupsRoot⟩ ∧
      Path.fileName? ⟨backupFolder component.name⟩ = some component.name ∧
      ∀ other ∈ components,
        backupFolder component.name = backupFolder other.name → component = other

variable {trigger : Config.Trigger} {repository : Config.Repository} {templates : TemplateSource}
  {options : Options} {result : Workflow} {settings : Settings} {members : List Member}
  {member : Member} {component : Component} {known : BuildJobs} {graph : JobGraph}
  {part : JobPart} {id other : String} {job : Job}

/-! ### The steps of a component job -/

def stepsBefore (settings : Settings) (component : Component) (part : JobPart) : List Step :=
  settings.setupSteps component part.javaVersion part.restoresArtifacts ++
    (if part.isBuildJob then [grabVersion (versionVariable component.name), revParse] else []) ++
    [ipv6Localhost]

def stepsAfter (settings : Settings) (component : Component) (part : JobPart) : List Step :=
  (if component.debug then [tmateDebug] else []) ++
    (if part.isBuildJob then settings.backupSteps component else []) ++ settings.logSteps part.id

theorem steps_componentJob : (settings.componentJob component part).steps =
    stepsBefore settings component part ++ mavenBuild part.commands ::
      stepsAfter settings component part := by
  unfold Settings.componentJob stepsBefore stepsAfter
  simp only [List.append_assoc, List.cons_append, List.nil_append]

theorem fetchSteps_infix_setupSteps {java : String} :
    fetchSteps settings.options <:+: settings.setupSteps component java true := by
  apply List.IsSuffix.isInfix
  exact List.suffix_append _ _

theorem fetchSteps_infix_before (restores : part.restoresArtifacts = true) :
    fetchSteps settings.options <:+: stepsBefore settings component part := by
  unfold stepsBefore
  rw [restores, List.append_assoc]
  exact fetchSteps_infix_setupSteps.trans (List.prefix_append _ _).isInfix

theorem storeSteps_infix_after (builds : part.isBuildJob = true) :
    storeSteps settings.options component.name <:+: stepsAfter settings component part := by
  unfold stepsAfter
  rw [builds, if_pos rfl]
  exact ⟨_, _, rfl⟩

/-- The names of the steps around a build. -/
private def namesAround (component : Component) (part : JobPart) : List String :=
  ["Checkout " ++ component.org ++ "/" ++ component.name, "Checkout CI tools",
    "Cache Maven repository", "Set up JDK " ++ part.javaVersion] ++
  (if part.restoresArtifacts then
    ["Update CI tools checkout", "Run xrepo 'overlay-backed-up-maven-artifacts'"] else []) ++
  (if part.isBuildJob then ["Grab project version", "Parse SHA-1 into output variable"] else []) ++
  ["Add '::1 localhost' to hosts file"] ++
  (if component.debug then ["Set up tmate for SSH debugging"] else []) ++
  (if part.isBuildJob then ["Run xrepo 'backup-maven-artifacts'", "Commit and push"] else []) ++
  ["Run xrepo 'copy-logs'", "Zip build logs", "Upload build logs"]

private theorem names_around :
    (stepsBefore settings component part ++ stepsAfter settings component part).map Step.name =
      (namesAround component part).map some := by
  unfold stepsBefore stepsAfter Settings.setupSteps namesAround
  cases part.restoresArtifacts <;> cases part.isBuildJob <;> cases component.debug <;> rfl

private theorem mem_namesAround {step : Step} {name : String}
    (listed : step ∈ stepsBefore settings component part ++ stepsAfter settings component part)
    (named : step.name = some name) : name ∈ namesAround component part := by
  have inside := List.mem_map_of_mem (f := Step.name) listed
  rw [names_around, named] at inside
  obtain ⟨other, there, same⟩ := List.mem_map.mp inside
  cases same
  exact there

private theorem append_ne {front text back : String} (some : front ≠ "")
    (start : front.toList.head? ≠ back.toList.head?) : back ≠ front ++ text := by
  intro same
  apply start
  rw [same, String.toList_append, List.head?_append_of_ne_nil]
  intro empty
  exact some (String.toList_eq_nil_iff.mp empty)

private theorem mavenBuild_notMem : "Maven Build" ∉ namesAround component part := by
  have notCheckout : "Maven Build" ≠ "Checkout " ++ component.org ++ "/" ++ component.name := by
    rw [String.append_assoc, String.append_assoc]
    exact append_ne (by decide) (by decide)
  have notJava : "Maven Build" ≠ "Set up JDK " ++ part.javaVersion :=
    append_ne (by decide) (by decide)
  simp [namesAround, notCheckout, notJava]

private theorem overlay_mem_iff :
    "Run xrepo 'overlay-backed-up-maven-artifacts'" ∈ namesAround component part ↔
      part.restoresArtifacts = true := by
  have notCheckout : "Run xrepo 'overlay-backed-up-maven-artifacts'" ≠
      "Checkout " ++ component.org ++ "/" ++ component.name := by
    rw [String.append_assoc, String.append_assoc]
    exact append_ne (by decide) (by decide)
  have notJava : "Run xrepo 'overlay-backed-up-maven-artifacts'" ≠
      "Set up JDK " ++ part.javaVersion := append_ne (by decide) (by decide)
  simp [namesAround, notCheckout, notJava]

theorem overlayAll_mem_iff :
    overlayAll settings.options ∈ (settings.componentJob component part).steps ↔
      part.restoresArtifacts = true := by
  rw [steps_componentJob]
  constructor
  · intro listed
    rcases List.mem_append.mp listed with before | rest
    · exact overlay_mem_iff.mp (mem_namesAround (List.mem_append_left _ before) rfl)
    · rcases List.mem_cons.mp rest with same | after
      · have names := congrArg Step.name same
        simp [overlayAll, toolCommand, mavenBuild, Step.withName] at names
      · exact overlay_mem_iff.mp (mem_namesAround (List.mem_append_right _ after) rfl)
  · intro restores
    apply List.mem_append_left
    exact (fetchSteps_infix_before restores).subset (List.mem_cons_of_mem _ List.mem_cons_self)

theorem componentJob_buildsBetween {run : BuildRun} {given : String}
    (script : part.commands = run.script given) :
    BuildsBetween (settings.componentJob component part) run (stepsBefore settings component part)
      (stepsAfter settings component part) := by
  constructor
  · exact ⟨given, by rw [← script, steps_componentJob]⟩
  · intro step listed named
    exact mavenBuild_notMem (mem_namesAround listed named)

/-! ### Waiting for a build job -/

/-- A job that waits for anything but the first job has a need of that kind itself. -/
theorem need_of_waitsFor (idle : ∀ need, ¬ graph.Needs cancelJobId need)
    (waits : graph.WaitsFor id other) (notCancel : other ≠ cancelJobId)
    (found : graph.get? id = some job) : ∃ need ∈ job.needs, need ≠ cancelJobId := by
  obtain ⟨need, ⟨own, there, needed⟩, rest⟩ := Relation.TransGen.head'_iff.mp waits
  rw [found, Option.some.injEq] at there
  rw [← there] at needed
  apply Exists.intro need
  apply And.intro needed
  intro same
  rw [same] at rest
  rcases Relation.ReflTransGen.cases_head rest with arrived | ⟨next, step, -⟩
  · exact notCancel arrived.symm
  · exact idle next step

theorem buildJob_ne_cancel (sound : ∀ member ∈ members, member.Sound)
    (fresh : cancelJobId ∉ members.flatMap Member.jobIds) (listed : member ∈ members) :
    member.buildJob ≠ cancelJobId := by
  intro same
  apply fresh
  rw [← same]
  exact List.mem_flatMap.mpr ⟨member, listed, Settings.buildJob_mem_jobIds (sound member listed)⟩

theorem known_ne_cancel {before : List Member} (sound : ∀ member ∈ members, member.Sound)
    (fresh : cancelJobId ∉ members.flatMap Member.jobIds) (earlier : ∀ other ∈ before, other ∈ members)
    {name : String} (found : (OrderedMap.insertAll .empty (memberEntries before)).get? name = some id) :
    id ≠ cancelJobId := by
  rcases OrderedMap.mem_of_get?_insertAll found with listed | absent
  · obtain ⟨member, inside, same⟩ := List.mem_map.mp listed
    cases same
    exact buildJob_ne_cancel sound fresh (earlier member inside)
  · cases absent

/-! ### The jobs of a component -/

/-- The part makes the job of this build run, and restores artifacts just when it needs a job other
than the first. -/
private structure Makes (templates : TemplateSource) (component : Component) (run : BuildRun)
    (part : JobPart) : Prop where
  script : ∃ given, part.commands = run.script given
  restores : part.restoresArtifacts = true ↔ ∃ need ∈ part.needs, need ≠ cancelJobId
  builds : run.id = buildJobId templates component → part.isBuildJob = true

/-- The two ways of deciding on the restore agree: only bindings add needs to a default job. -/
theorem default_restores_iff {bindings : List Binding}
    (apart : ∀ binding ∈ bindings, binding.buildJob ≠ cancelJobId) :
    (!bindings.isEmpty) = true ↔
      ∃ need ∈ cancelJobId :: bindings.map Binding.buildJob, need ≠ cancelJobId := by
  cases bindings with
  | nil => simp
  | cons first rest =>
      have own := apart first List.mem_cons_self
      simp [own]

theorem bindings_apart
    (apart : ∀ name id, known.get? name = some id → id ≠ cancelJobId) :
    ∀ binding ∈ bindingsFor known component, binding.buildJob ≠ cancelJobId := by
  intro binding listed
  obtain ⟨dependency, -, found, -⟩ := Settings.buildJob_of_mem_bindingsFor listed
  exact apart _ _ found

private theorem makes_of_loads (loads : member.Loads templates component) (sound : member.Sound)
    (apart : ∀ name id, known.get? name = some id → id ≠ cancelJobId)
    (placed : ∀ planned ∈ (settings.memberPlan known member).jobs, planned.PlacedIn result) :
    ∀ run ∈ buildRuns templates component, ∃ part, Makes templates component run part ∧
      result.jobs.get? run.id = some (settings.componentJob component part) := by
  unfold buildRuns
  unfold Settings.memberPlan at placed
  rw [loads.loaded]
  rw [loads.own] at placed
  cases found : member.template with
  | none =>
      rw [found] at placed
      intro run own
      rw [List.mem_singleton.mp own]
      obtain ⟨job, made, there⟩ := placed _ (List.mem_singleton.mpr rfl)
      cases made
      refine ⟨_, ?_, there⟩
      constructor
      · exact ⟨mavenProperties (bindingsFor known component), rfl⟩
      · exact default_restores_iff (bindings_apart apart)
      · intro _
        rfl
  | some loaded =>
      obtain ⟨-, buildKey, wellFormed⟩ := sound loaded found
      rw [found] at placed
      dsimp only
      intro run listed
      obtain ⟨own, inside, rfl⟩ := List.mem_map.mp listed
      obtain ⟨job, made, there⟩ :=
        placed _ (List.mem_append_left _ (List.mem_map.mpr ⟨own, inside, rfl⟩))
      cases made
      refine ⟨_, ?_, there⟩
      constructor
      · exact ⟨mavenProperties (bindingsFor known component), (script_templateBuildCommand own _).symm⟩
      · simp only [List.any_eq_true, decide_eq_true_eq]
      · intro isBuild
        have there : own ∈ loaded.config.jobs := by
          split at inside
          · exact List.mem_of_mem_filter inside
          · exact inside
        have named := wellFormed.jobs.named own there
        rw [wellFormed.jobs.builds own there, decide_eq_true_eq]
        unfold buildJobId at isBuild
        rw [loads.loaded, found] at isBuild
        change own.name = loaded.config.buildJob at isBuild
        rw [named, wellFormed.buildJob, Config.Template.jobName_inj] at isBuild
        exact isBuild

/-- One of the build runs of a component is its build job. -/
private theorem buildRun_of_loads (loads : member.Loads templates component)
    (sound : member.Sound) :
    ∃ run ∈ buildRuns templates component, run.id = buildJobId templates component := by
  unfold buildRuns buildJobId
  rw [loads.loaded]
  cases found : member.template with
  | none => exact ⟨_, List.mem_singleton.mpr rfl, rfl⟩
  | some loaded =>
      obtain ⟨-, buildKey, wellFormed⟩ := sound loaded found
      obtain ⟨job, listed, own⟩ := wellFormed.buildJobThere
      have builds : job.isBuildJob = true := by
        rw [wellFormed.jobs.builds job listed, decide_eq_true_eq]
        exact own
      have named : job.name = loaded.config.buildJob := by
        rw [wellFormed.jobs.named job listed, own, wellFormed.buildJob]
      apply Exists.intro (BuildRun.ofTemplateJob job)
      constructor
      · apply List.mem_map_of_mem
        split
        · exact List.mem_filter.mpr ⟨listed, builds⟩
        · exact listed
      · exact named

/-- The end job of a component fetches before the steps that the user gave it. -/
private theorem endJob_of_loads (loads : member.Loads templates component)
    (placed : ∀ planned ∈ (settings.memberPlan known member).jobs, planned.PlacedIn result)
    {endJob : Config.TemplateEndJob} (given : componentEndJob? templates component = some endJob) :
    ∃ job before steps, result.jobs.get? endJob.name = some job ∧
      userSteps endJob.name endJob.steps = .ok steps ∧ job.steps = before ++ steps ∧
        fetchSteps settings.options <:+: before := by
  unfold componentEndJob? at given
  rw [loads.loaded] at given
  unfold Settings.memberPlan at placed
  rw [loads.own] at placed
  cases found : member.template with
  | none =>
      rw [found] at given
      cases given
  | some loaded =>
      rw [found] at given placed
      obtain ⟨job, made, there⟩ := placed _ (List.mem_append_right _
        (List.mem_map.mpr ⟨endJob, Option.mem_toList.mpr given, rfl⟩))
      obtain ⟨steps, read, -, -, -, whole⟩ := Settings.templateEndJob_ok made
      exact ⟨job, _, steps, there, read, whole, fetchSteps_infix_setupSteps⟩

private theorem endJob_of_trailing {there : List String}
    (placed : ∀ planned ∈ settings.trailingJobs known there, planned.PlacedIn result)
    {endJob : Config.EndJob} (given : settings.repository.endJob = some endJob) :
    ∃ job before steps after, result.jobs.get? endJobId = some job ∧
      userSteps endJobId endJob.steps = .ok steps ∧ job.steps = before ++ steps ++ after ∧
        fetchSteps settings.options <:+: before := by
  have listed : { id := endJobId, job := settings.endJob known there endJob } ∈
      settings.trailingJobs known there := by
    unfold Settings.trailingJobs Settings.endJobs
    rw [given]
    exact List.mem_cons_self
  obtain ⟨job, made, there⟩ := placed _ listed
  obtain ⟨steps, read, -, -, -, front, whole⟩ := Settings.endJob_ok made
  exact ⟨job, _, steps, _, there, read, whole, front, [makeDirectory statusDirectory], by simp; rfl⟩

/-! ### The folders -/

theorem isEntryName_of_isComponentName {name : String}
    (accepted : Config.isComponentName name = true) : isEntryName name = true := by
  obtain ⟨nonempty, allowed⟩ := Config.isComponentName_iff.mp accepted
  have absent : ∀ char, Text.isAlphabetic char = false → char ≠ '-' → char ∉ name.toList := by
    intro char noLetter noDash inside
    have letter := (allowed char inside).resolve_right noDash
    rw [noLetter] at letter
    cases letter
  have noDot : '.' ∉ name.toList := absent '.' (by decide +kernel) (by decide)
  rw [isEntryName_iff]
  constructor
  · exact nonempty
  constructor
  · intro same
    rw [same] at noDot
    exact noDot List.mem_cons_self
  constructor
  · intro same
    rw [same] at noDot
    exact noDot List.mem_cons_self
  · exact ⟨absent '/' (by decide +kernel) (by decide), absent _ (by decide +kernel) (by decide)⟩

private theorem relative_of_valid {name : String} (valid : isEntryName name = true) :
    (⟨name⟩ : Path).isAbsolute = false := by
  rw [← Bool.not_eq_true, Path.isAbsolute_iff]
  intro slash
  exact (isEntryName_iff.mp valid).2.2.2.1 (List.mem_of_mem_head? slash)

private theorem backupFolder_eq {name : String} (valid : isEntryName name = true) :
    (⟨backupFolder name⟩ : Path) = Path.joinName ⟨backupsRoot⟩ name := by
  unfold Path.joinName Path.join
  rw [relative_of_valid valid]
  rfl

private theorem segments_backupFolder {name : String} (valid : isEntryName name = true) :
    (⟨backupFolder name⟩ : Path).segments = [".ci-tools", "repo-backups", name] := by
  rw [backupFolder_eq valid, Path.segments_joinName _ valid]
  have stem : Path.stem ⟨backupsRoot⟩ = [".ci-tools", "repo-backups"] := by decide
  rw [stem]
  rfl

theorem parent?_backupFolder {name : String} (valid : isEntryName name = true) :
    Path.parent? ⟨backupFolder name⟩ = some ⟨backupsRoot⟩ := by
  obtain ⟨nonempty, dot, -⟩ := isEntryName_iff.mp valid
  have counts : Path.isIdle name = false := by simp [Path.isIdle, nonempty, dot]
  have relative : (⟨backupFolder name⟩ : Path).isAbsolute = false := by
    rw [backupFolder_eq valid, Path.joinName, Path.isAbsolute_join (relative_of_valid valid)]
    decide
  have trimmed : (⟨backupFolder name⟩ : Path).trimmed = [".ci-tools", "repo-backups", name] := by
    unfold Path.trimmed
    rw [segments_backupFolder valid]
    exact @Path.trimEnd_eq_self _ [".ci-tools", "repo-backups"] _ counts
  unfold Path.parent?
  rw [trimmed, relative]
  rfl

theorem fileName?_backupFolder {name : String} (valid : isEntryName name = true) :
    Path.fileName? ⟨backupFolder name⟩ = some name := by
  rw [backupFolder_eq valid]
  exact Path.fileName?_joinName _ valid

/-! ### All components of a trigger -/

theorem cancel_fresh
    (made : List.Forall₂ PlannedJob.Makes (settings.plannedJobs members) result.jobs.entries) :
    cancelJobId ∉ members.flatMap Member.jobIds := by
  have distinct := result.jobs.keys_nodup
  unfold OrderedMap.keys at distinct
  rw [ids_of_makes made] at distinct
  unfold Settings.plannedJobs Settings.cancelJobs at distinct
  rw [List.map_append, List.map_append, Settings.ids_memberJobs] at distinct
  have front := (List.nodup_append.mp distinct).1
  exact (List.nodup_cons.mp front).1

theorem cancel_idle (placed : ∀ planned ∈ settings.cancelJobs, planned.PlacedIn result)
    (need : String) : ¬ JobGraph.Needs { jobs := result.jobs } cancelJobId need := by
  rintro ⟨job, found, inside⟩
  obtain ⟨own, made, there⟩ := placed _ List.mem_cons_self
  cases made
  have same := found.symm.trans there
  cases same
  cases inside

/-- Where the jobs of a component are planned, and where they end up. -/
theorem compiled_of_mem (listed : component ∈ trigger.components) 
    (all : List.Forall₂ (Member.Loads templates) trigger.components members)
    (placed : ∀ planned ∈ settings.memberJobs .empty members, planned.PlacedIn result) :
    ∃ before member, (∀ other ∈ before, other ∈ members) ∧ member ∈ members ∧
      member.Loads templates component ∧
      ∀ planned ∈ (settings.memberPlan (.insertAll .empty (memberEntries before)) member).jobs,
        planned.PlacedIn result := by
  obtain ⟨front, back, whole⟩ := List.append_of_mem listed
  rw [whole] at all
  obtain ⟨before, member, after, rfl, -, loads⟩ := split_of_loads all
  rw [Settings.memberJobs_append, Settings.memberJobs] at placed
  apply Exists.intro before
  apply Exists.intro member
  constructor
  · intro other inside
    exact List.mem_append_left _ inside
  constructor
  · exact List.mem_append_right _ List.mem_cons_self
  · apply And.intro loads
    intro planned own
    exact placed _ (List.mem_append_right _ (List.mem_append_left _ own))

end CrossBuild.Compile
