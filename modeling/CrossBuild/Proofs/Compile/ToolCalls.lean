/-
The commands of the tool in a workflow.

Generated steps run the tool by writing a command line, and the tool reads one: only the words and
their order tie the two together. Here the line of every such step is read back, and gives the
command that the step is there for. Steps that a user wrote may run anything.
-/

import CrossBuild.Proofs.CommandLine.Operands
import CrossBuild.Proofs.Compile.LastJobs
import CrossBuild.Proofs.Compile.SideBranch

namespace CrossBuild.Compile

open CommandLine (Command Invocation CommandForm IsOperand commandForms foundOperands
  regular_of_mem ofArguments_operands)
open Config (Component)
open Runs

/-! ### What is asked for -/

/-- Behind the tool, the pieces between the blanks of the only line are read as the command. -/
def Invokes (tool : String) (step : Step) (command : Command) : Prop :=
  ∃ line, step.run = some (tool ++ " " ++ line ++ "\n") ∧ '\n' ∉ line.toList ∧
    Invocation.ofArguments (Text.split ' ' line) = .ok (.plain command)

/-- The commands that the steps run, in order. A step named as one that runs the tool counts. -/
inductive Calls (tool : String) : List Step → List Command → Prop
  | nil : Calls tool [] []
  | other {step : Step} {steps : List Step} {commands : List Command}
      (named : ∀ command, step.name ≠ some ("Run xrepo '" ++ command ++ "'"))
      (rest : Calls tool steps commands) : Calls tool (step :: steps) commands
  | call {step : Step} {command : Command} {steps : List Step} {commands : List Command}
      (invokes : Invokes tool step command) (rest : Calls tool steps commands) :
      Calls tool (step :: steps) (command :: commands)

def overlayCommand : Command :=
  .overlay ⟨mavenRepository⟩ ⟨backupsRoot⟩

def backupCommand (component : String) : Command :=
  .backup ⟨"pom.xml"⟩ ⟨mavenRepository⟩ ⟨backupFolder component⟩

def copyLogsCommand (id : String) : Command :=
  .copyLogs ⟨"."⟩ ⟨projectLogsDirectory ++ "/" ++ id⟩

/-- The commands of a job that builds or tests a component. -/
def componentCommands (component : Component) (id : String) (restores stores : Bool) :
    List Command :=
  (if restores then [overlayCommand] else []) ++
    (if stores then [backupCommand component.name] else []) ++ [copyLogsCommand id]

/-- For a job of a workflow: the steps that its user gave, and the commands of all others. Where
templates are read from texts, a job of a component restores artifacts just when it needs a job other
than the first, and the build job of the component stores its own. -/
inductive ToolUse (repository : Config.Repository) (templates : TemplateSource)
    (components : List Component) : String → Job → List Step → List Command → Prop
  | component {component : Component} {run : BuildRun} {job : Job} {restores stores : Bool}
      (listed : component ∈ components) (own : run ∈ buildRuns templates component)
      (exact : templates.ReadsTexts → restores = job.needs.any (fun need => need ≠ cancelJobId) ∧
        stores = decide (run.id = buildJobId templates component)) :
      ToolUse repository templates components run.id job []
        (componentCommands component run.id restores stores)
  | componentEnd {component : Component} {endJob : Config.TemplateEndJob} {job : Job}
      {given : List Step} (listed : component ∈ components)
      (own : componentEndJob? templates component = some endJob)
      (read : userSteps endJob.name endJob.steps = .ok given) :
      ToolUse repository templates components endJob.name job given [overlayCommand]
  | repositoryEnd {endJob : Config.EndJob} {job : Job} {given : List Step}
      (own : repository.endJob = some endJob) (read : userSteps endJobId endJob.steps = .ok given) :
      ToolUse repository templates components endJobId job given [overlayCommand]
  | service {id : String} {job : Job}
      (own : id ∈ [cancelJobId, statusReadJobId, Outcome.success.jobId, Outcome.failure.jobId,
        cleanupJobId]) :
      ToolUse repository templates components id job [] []

/-- The generated steps of a job, around those of its user, run the commands they are there for. -/
def UsesTool (repository : Config.Repository) (templates : TemplateSource)
    (components : List Component) (tool id : String) (job : Job) : Prop :=
  ∃ before given after commands, job.steps = before ++ given ++ after ∧
    ToolUse repository templates components id job given commands ∧
      Calls tool (before ++ after) commands

/-! ### Steps one after the other -/

section Calls

variable {tool name : String} {steps others : List Step} {commands further : List Command}
  {step : Step} {command : Command}

theorem Calls.append (calls : Calls tool steps commands) (later : Calls tool others further) :
    Calls tool (steps ++ others) (commands ++ further) := by
  induction calls with
  | nil => exact later
  | other named _ ih => exact .other named ih
  | call invokes _ ih => exact .call invokes ih

/-- Names with another beginning are those of other steps. -/
def OtherName (name : String) : Prop :=
  name.toList.take 4 ≠ "Run ".toList

instance (name : String) : Decidable (OtherName name) :=
  inferInstanceAs (Decidable (_ ≠ _))

theorem otherName_append {front : String} (differs : OtherName front)
    (long : 4 ≤ front.toList.length) (back : String) : OtherName (front ++ back) := by
  unfold OtherName
  rw [String.toList_append, List.take_append_of_le_length long]
  exact differs

theorem OtherName.ne (differs : OtherName name) (command : String) :
    some name ≠ some ("Run xrepo '" ++ command ++ "'") := by
  intro same
  cases same
  apply differs
  rw [String.toList_append, String.toList_append]
  rfl

theorem calls_of_names {names : List String} (named : steps.map Step.name = names.map some)
    (others : ∀ name ∈ names, OtherName name) : Calls tool steps [] := by
  induction steps generalizing names with
  | nil => exact .nil
  | cons first rest ih =>
      cases names with
      | nil => cases named
      | cons name names =>
          rw [List.map_cons, List.map_cons, List.cons.injEq] at named
          obtain ⟨differs, later⟩ := List.forall_mem_cons.mp others
          refine .other (fun command => ?_) (ih named.2 later)
          rw [named.1]
          exact differs.ne command

/-- The word stays in one piece when a line is split, and is the only line. -/
def Unbroken (word : String) : Prop :=
  ' ' ∉ word.toList ∧ '\n' ∉ word.toList

instance (word : String) : Decidable (Unbroken word) :=
  inferInstanceAs (Decidable (_ ∧ _))

theorem Unbroken.append {front back : String} (first : Unbroken front) (second : Unbroken back) :
    Unbroken (front ++ back) := by
  unfold Unbroken
  simp only [String.toList_append, List.mem_append, not_or]
  exact ⟨⟨first.1, second.1⟩, first.2, second.2⟩

theorem isOperand_append {front : String} (operand : IsOperand front) (back : String) :
    IsOperand (front ++ back) := by
  obtain ⟨char, rest, whole, noDash⟩ := operand
  refine ⟨char, rest ++ back.toList, ?_, noDash⟩
  rw [String.toList_append, whole, List.cons_append]

theorem unbroken_of_isComponentName (accepted : Config.isComponentName name = true) :
    Unbroken name := by
  have allowed := (Config.isComponentName_iff.mp accepted).2
  constructor
  · intro inside
    exact (allowed ' ' inside).elim (by decide +kernel) (by decide)
  · intro inside
    exact (allowed '\n' inside).elim (by decide +kernel) (by decide)

theorem unbroken_of_noBlank (noBlank : ∀ char ∈ name.toList, Text.isBlank char = false) :
    Unbroken name :=
  ⟨fun inside => absurd (noBlank ' ' inside) (by decide),
    fun inside => absurd (noBlank '\n' inside) (by decide)⟩

/-- A line has its words between blanks when no word is broken. -/
theorem invokes_of_run {form : CommandForm} {words : List String} (listed : form ∈ commandForms)
    (count : words.length = form.positionals.length)
    (plain : ∀ word ∈ words, IsOperand word ∧ Unbroken word)
    (built : form.build (foundOperands form words) = .ok command)
    (runs : step.run = (toolCommand tool form.name words).run) : Invokes tool step command := by
  have named := (regular_of_mem listed).unbroken
  have unbroken : ∀ word ∈ form.name :: words, Unbroken word :=
    List.forall_mem_cons.mpr ⟨named, fun word inside => (plain word inside).2⟩
  have blank : (fun word => String.singleton ' ' ++ word) = fun word => " " ++ word := rfl
  apply Exists.intro (form.name ++ String.join (words.map fun word => " " ++ word))
  constructor
  · have run : (toolCommand tool form.name words).run =
        some (script [tool ++ " " ++ form.name ++ String.join (words.map fun word => " " ++ word)]) :=
      rfl
    rw [runs, run, script, List.map_singleton, String.join_cons, String.join_nil, String.append_empty]
    simp only [String.append_assoc]
  constructor
  · rw [String.toList_append, String.toList_join, List.mem_append, not_or]
    refine ⟨named.2, fun inside => ?_⟩
    obtain ⟨piece, listed, inside⟩ := List.mem_flatMap.mp inside
    obtain ⟨word, given, rfl⟩ := List.mem_map.mp listed
    rw [String.toList_append, List.mem_append] at inside
    exact inside.elim (by decide) (plain word given).2.2
  · have pieces := @Text.split_join ' ' form.name words fun word inside => (unbroken word inside).1
    rw [blank] at pieces
    rw [pieces]
    exact ofArguments_operands listed count (fun word inside => (plain word inside).1) built

end Calls

/-! ### The steps that run the tool -/

section Invokes

variable {settings : Settings} {component : Component} {step : Step} {id : String}

theorem invokes_overlay :
    Invokes settings.options.toolCommand settings.overlayStep overlayCommand := by
  refine @invokes_of_run _ _ _ CommandLine.overlayForm [mavenRepository, backupsRoot]
    (by simp [commandForms]) rfl ?_ rfl rfl
  simp only [List.forall_mem_cons, List.not_mem_nil, false_implies, implies_true, and_true]
  exact ⟨⟨⟨_, _, rfl, by decide⟩, by decide⟩, ⟨_, _, rfl, by decide⟩, by decide⟩

theorem invokes_backup (unbroken : Unbroken component.name)
    (runs : step.run = (toolCommand settings.options.toolCommand "backup-maven-artifacts"
      ["pom.xml", mavenRepository, backupFolder component.name]).run) :
    Invokes settings.options.toolCommand step (backupCommand component.name) := by
  refine @invokes_of_run _ _ _ CommandLine.backupForm
    ["pom.xml", mavenRepository, backupFolder component.name] (by simp [commandForms]) rfl ?_ rfl runs
  have folder : IsOperand (backupFolder component.name) ∧ Unbroken (backupFolder component.name) := by
    unfold backupFolder
    have front : IsOperand (backupsRoot ++ "/") := ⟨_, _, rfl, by decide⟩
    have whole : Unbroken (backupsRoot ++ "/") := by decide
    exact ⟨isOperand_append front _, whole.append unbroken⟩
  simp only [List.forall_mem_cons, List.not_mem_nil, false_implies, implies_true, and_true]
  exact ⟨⟨⟨_, _, rfl, by decide⟩, by decide⟩, ⟨⟨_, _, rfl, by decide⟩, by decide⟩, folder⟩

theorem invokes_copyLogs (unbroken : Unbroken id)
    (runs : step.run = (toolCommand settings.options.toolCommand "copy-logs"
      [".", projectLogsDirectory ++ "/" ++ id]).run) :
    Invokes settings.options.toolCommand step (copyLogsCommand id) := by
  refine @invokes_of_run _ _ _ CommandLine.copyLogsForm [".", projectLogsDirectory ++ "/" ++ id]
    (by simp [commandForms]) rfl ?_ rfl runs
  have front : IsOperand (projectLogsDirectory ++ "/") := ⟨_, _, rfl, by decide⟩
  have whole : Unbroken (projectLogsDirectory ++ "/") := by decide
  simp only [List.forall_mem_cons, List.not_mem_nil, false_implies, implies_true, and_true]
  exact ⟨⟨⟨_, _, rfl, by decide⟩, by decide⟩, isOperand_append front _, whole.append unbroken⟩

end Invokes

/-! ### The steps of jobs -/

section Steps

variable {settings : Settings} {component : Component} {part : JobPart} {java : String}
  {restores : Bool}

theorem otherName_setupJava (java : String) : OtherName ("Set up JDK " ++ java) :=
  otherName_append (by decide) (by decide) java

theorem otherName_checkout (path : String) : OtherName ("Checkout " ++ path) :=
  otherName_append (by decide) (by decide) path

theorem calls_setupSteps : Calls settings.options.toolCommand
    (settings.setupSteps component java restores) (if restores then [overlayCommand] else []) := by
  have front : Calls settings.options.toolCommand
      [checkoutRepository component.org component.name component.branch,
        checkoutSelf settings.options.branch (some toolsDirectory), cacheMavenRepository,
        setupJava java] [] := by
    apply @calls_of_names _ _ ["Checkout " ++ (component.org ++ "/" ++ component.name),
      "Checkout CI tools", "Cache Maven repository", "Set up JDK " ++ java] rfl
    simp only [List.forall_mem_cons, List.not_mem_nil, false_implies, implies_true, and_true]
    exact ⟨otherName_checkout _, by decide, by decide, otherName_setupJava java⟩
  unfold Settings.setupSteps
  cases restores with
  | false => exact front.append .nil
  | true =>
      refine front.append (.other ?_ (.call invokes_overlay .nil))
      exact fun command => OtherName.ne (by decide) command

/-- The steps of a component job run the commands that its part asks for. -/
theorem calls_componentJob (named : Unbroken component.name) (unbroken : Unbroken part.id) :
    Calls settings.options.toolCommand (settings.componentJob component part).steps
      (componentCommands component part.id part.restoresArtifacts part.isBuildJob) := by
  have setup := @calls_setupSteps settings component part.javaVersion part.restoresArtifacts
  have versions : Calls settings.options.toolCommand
      (if part.isBuildJob then [grabVersion (versionVariable component.name), revParse] else []) [] := by
    cases part.isBuildJob with
    | false => exact .nil
    | true =>
        exact @calls_of_names _ _ ["Grab project version", "Parse SHA-1 into output variable"] rfl
          (by decide)
  have build : Calls settings.options.toolCommand [ipv6Localhost, mavenBuild part.commands] [] :=
    @calls_of_names _ _ ["Add '::1 localhost' to hosts file", "Maven Build"] rfl (by decide)
  have debug : Calls settings.options.toolCommand (if component.debug then [tmateDebug] else []) [] := by
    cases component.debug with
    | false => exact .nil
    | true => exact @calls_of_names _ _ ["Set up tmate for SSH debugging"] rfl (by decide)
  have backup : Calls settings.options.toolCommand
      (if part.isBuildJob then settings.backupSteps component else [])
      (if part.isBuildJob then [backupCommand component.name] else []) := by
    cases part.isBuildJob with
    | false => exact .nil
    | true =>
        refine .call (invokes_backup named rfl) (.other ?_ .nil)
        exact fun command => OtherName.ne (by decide) command
  have logs : Calls settings.options.toolCommand (settings.logSteps part.id)
      [copyLogsCommand part.id] := by
    refine .call (invokes_copyLogs unbroken rfl) (.other ?_ (.other ?_ .nil))
    · exact fun command => OtherName.ne (by decide) command
    · exact fun command => OtherName.ne (by decide) command
  have whole := (((((setup.append versions).append build).append debug).append backup).append logs)
  unfold componentCommands
  simpa only [List.append_nil, Settings.componentJob] using whole

end Steps

/-! ### The jobs of a workflow -/

section Jobs

variable {trigger : Config.Trigger} {repository : Config.Repository} {templates : TemplateSource}
  {options : Options} {result : Workflow} {settings : Settings} {components : List Component}
  {members : List Member} {member : Member} {component : Component} {known : BuildJobs}
  {planned : PlannedJob} {job : Job} {tool id : String} {steps : List Step}

theorem UsesTool.ofSteps {commands : List Command}
    (use : ToolUse repository templates components id job [] commands)
    (calls : Calls tool job.steps commands) :
    UsesTool repository templates components tool id job :=
  ⟨job.steps, [], [], commands, by simp, use, by simpa using calls⟩

/-- A planned job of a component belongs to a member, and is planned behind the members before it. -/
theorem exists_of_mem_memberJobs (all : List.Forall₂ (Member.Loads templates) components members)
    (inside : planned ∈ settings.memberJobs known members) :
    ∃ component ∈ components, ∃ before member, (∀ other ∈ before, other ∈ members) ∧
      member ∈ members ∧ member.Loads templates component ∧
        planned ∈ (settings.memberPlan (known.insertAll (memberEntries before)) member).jobs := by
  induction all generalizing known with
  | nil => cases inside
  | @cons component member components members loads _ ih =>
      rcases List.mem_append.mp inside with own | later
      · exact ⟨component, List.mem_cons_self, [], member, (fun _ absent => nomatch absent),
          List.mem_cons_self, loads, own⟩
      · obtain ⟨other, listed, before, found, earlier, own, loadsOther, there⟩ := ih later
        refine ⟨other, List.mem_cons_of_mem _ listed, member :: before, found, ?_,
          List.mem_cons_of_mem _ own, loadsOther, there⟩
        intro another given
        rcases List.mem_cons.mp given with rfl | further
        · exact List.mem_cons_self
        · exact List.mem_cons_of_mem _ (earlier another further)

/-- Of the jobs of a template, only the build job of the component hands artifacts on. -/
theorem isBuildJob_eq {own : Config.TemplateJob} {template : LoadedTemplate}
    (sound : template.config.component = component.name ∧
      ∃ buildKey, template.config.WellFormed buildKey)
    (loaded : templates component.name = .ok (some template))
    (there : own ∈ if component.debug then template.config.jobs.filter Config.TemplateJob.isBuildJob
      else template.config.jobs) :
    own.isBuildJob = decide ((BuildRun.ofTemplateJob own).id = buildJobId templates component) := by
  obtain ⟨-, buildKey, wellFormed⟩ := sound
  have listed : own ∈ template.config.jobs := by
    split at there
    · exact List.mem_of_mem_filter there
    · exact there
  have same : (BuildRun.ofTemplateJob own).id = buildJobId templates component ↔
      own.key = buildKey := by
    unfold buildJobId
    rw [loaded]
    change own.name = template.config.buildJob ↔ _
    rw [wellFormed.jobs.named own listed, wellFormed.buildJob, Config.Template.jobName_inj]
  rw [wellFormed.jobs.builds own listed, decide_eq_decide, same]

theorem usesTool_of_memberPlan (loads : member.Loads templates component)
    (listed : component ∈ components)
    (sound : templates.ReadsTexts →
      member.Sound ∧ ∀ name id, known.get? name = some id → id ≠ cancelJobId)
    (named : Unbroken component.name) (unbroken : Unbroken planned.id)
    (inside : planned ∈ (settings.memberPlan known member).jobs) (made : planned.job = .ok job) :
    UsesTool repository templates components settings.options.toolCommand planned.id job := by
  obtain ⟨rfl, loaded, -⟩ := loads
  unfold Settings.memberPlan at inside
  cases found : member.template with
  | none =>
      rw [found] at inside loaded
      obtain rfl := List.mem_singleton.mp inside
      cases made
      have own : BuildRun.ofComponent member.component ∈ buildRuns templates member.component := by
        unfold buildRuns
        rw [loaded]
        exact List.mem_singleton.mpr rfl
      refine .ofSteps (.component listed own fun reads => ⟨?_, ?_⟩) (calls_componentJob named unbroken)
      · have restores := default_restores_iff
          (@bindings_apart member.component known (sound reads).2)
        rw [Bool.eq_iff_iff, restores, List.any_eq_true]
        simp only [decide_eq_true_eq]
        rfl
      · have same : (BuildRun.ofComponent member.component).id =
            buildJobId templates member.component := by
          unfold buildJobId
          rw [loaded]
          rfl
        exact (decide_eq_true same).symm
  | some template =>
      rw [found] at inside loaded
      rcases List.mem_append.mp inside with build | last
      · obtain ⟨own, there, rfl⟩ := List.mem_map.mp build
        cases made
        have run : BuildRun.ofTemplateJob own ∈ buildRuns templates member.component := by
          unfold buildRuns
          rw [loaded]
          exact List.mem_map_of_mem there
        refine .ofSteps (.component listed run fun reads => ⟨rfl, ?_⟩)
          (calls_componentJob named unbroken)
        exact isBuildJob_eq ((sound reads).1 template found) loaded there
      · obtain ⟨endJob, there, rfl⟩ := List.mem_map.mp last
        obtain ⟨given, read, -, -, -, whole⟩ := Settings.templateEndJob_ok made
        have own : componentEndJob? templates member.component = some endJob := by
          unfold componentEndJob?
          rw [loaded]
          exact Option.mem_toList.mp there
        let before := settings.setupSteps member.component
          (settings.javaVersion member.component endJob.javaVersion) true
        refine ⟨before, given, [], _, ?_, .componentEnd listed own read, ?_⟩
        · rw [whole, List.append_nil]
        · rw [List.append_nil]
          exact calls_setupSteps

/-- A job that belongs to no component and has no steps of a user. -/
theorem usesTool_service {names : List String} (own : id ∈ [cancelJobId, statusReadJobId,
      Outcome.success.jobId, Outcome.failure.jobId, cleanupJobId])
    (named : job.steps.map Step.name = names.map some) (others : ∀ name ∈ names, OtherName name) :
    UsesTool repository templates components tool id job :=
  .ofSteps (.service own) (calls_of_names named others)

theorem usesTool_endJob {needs : List String} {endJob : Config.EndJob}
    (own : settings.repository.endJob = some endJob)
    (made : settings.endJob known needs endJob = .ok job) :
    UsesTool settings.repository templates components settings.options.toolCommand endJobId job := by
  obtain ⟨given, read, rfl⟩ := except_map_ok_iff.mp made
  refine ⟨_, given, _, [overlayCommand], rfl, .repositoryEnd own read, ?_⟩
  let java := settings.repository.javaVersion.getD settings.options.defaultJavaVersion
  have front : Calls settings.options.toolCommand
      [checkoutSelf settings.options.branch (some toolsDirectory), cacheMavenRepository,
        setupJava java, gitRebase toolsDirectory] [] := by
    apply @calls_of_names _ _ ["Checkout CI tools", "Cache Maven repository", "Set up JDK " ++ java,
      "Update CI tools checkout"] rfl
    simp only [List.forall_mem_cons, List.not_mem_nil, false_implies, implies_true, and_true]
    exact ⟨by decide, by decide, otherName_setupJava java, by decide⟩
  have back : Calls settings.options.toolCommand
      [makeDirectory statusDirectory,
        gitCommitAndPush toolsDirectory "Store the end job status text" .always] [] :=
    @calls_of_names _ _ ["Create " ++ statusDirectory, "Commit and push"] rfl (by decide)
  exact front.append (.call invokes_overlay back)

theorem usesTool_of_trailing {there : List String}
    (inside : planned ∈ settings.trailingJobs known there) (made : planned.job = .ok job) :
    UsesTool settings.repository templates components settings.options.toolCommand planned.id
      job := by
  unfold Settings.trailingJobs at inside
  simp only [List.mem_append, List.mem_singleton] at inside
  rcases inside with ((last | rfl) | report) | rfl
  · unfold Settings.endJobs at last
    obtain ⟨endJob, own, rfl⟩ := List.mem_map.mp last
    exact usesTool_endJob (Option.mem_toList.mp own) made
  · cases made
    exact @usesTool_service _ _ _ _ _ _ ["Checkout CI tools", "Read status text"]
      (List.mem_cons_of_mem _ List.mem_cons_self) rfl (by decide)
  · unfold Settings.reportJobs at report
    split at report
    · obtain ⟨outcome, -, rfl⟩ := List.mem_map.mp report
      cases made
      have own : outcome.jobId ∈ [cancelJobId, statusReadJobId, Outcome.success.jobId,
          Outcome.failure.jobId, cleanupJobId] := by cases outcome <;> decide
      exact @usesTool_service _ _ _ _ _ _ ["Report status"] own rfl (by decide)
    · cases report
  · cases made
    have own : cleanupJobId ∈ [cancelJobId, statusReadJobId, Outcome.success.jobId,
        Outcome.failure.jobId, cleanupJobId] := by decide
    exact @usesTool_service _ _ _ _ _ _ ["Checkout CI tools", "Delete side branch"] own rfl
      (by decide)

/-- In a compiled workflow the tool understands every generated step that runs it, as the command
that the step is there for. -/
theorem tool_steps_are_understood {document : Yaml.Value}
    (accepted : Config.Trigger.read document = .ok trigger)
    (done : workflow trigger repository templates options = .ok result) :
    ∀ id job, (id, job) ∈ result.jobs.entries → (∀ char ∈ id.toList, Text.isBlank char = false) →
      UsesTool repository templates trigger.components options.toolCommand id job := by
  have order := Config.Trigger.read_ok accepted
  obtain ⟨members, all, made⟩ := workflow_ok done
  generalize shared : ({ workflowName := trigger.name, repository, options } : Settings) = settings
    at made
  have itsOptions : options = settings.options := by rw [← shared]
  have itsRepository : repository = settings.repository := by rw [← shared]
  rw [itsOptions, itsRepository]
  intro id job listed noBlank
  have unbroken := unbroken_of_noBlank noBlank
  obtain ⟨planned, inside, rfl, own⟩ := exists_of_mem_right made _ listed
  unfold Settings.plannedJobs at inside
  rcases List.mem_append.mp inside with front | trailing
  · rcases List.mem_append.mp front with first | middle
    · obtain rfl := List.mem_singleton.mp first
      cases own
      exact @usesTool_service _ _ _ _ _ _ ["Checkout CI tools", "Cancel previous runs"]
        List.mem_cons_self rfl (by decide)
    · obtain ⟨component, there, before, member, earlier, known, loads, planned⟩ :=
        exists_of_mem_memberJobs all middle
      refine usesTool_of_memberPlan loads there (fun reads => ?_)
        (unbroken_of_isComponentName (order.named component there)) unbroken planned own
      have sound := sound_of_loads reads all
      exact ⟨sound member known, fun _ _ => known_ne_cancel sound (cancel_fresh made) earlier⟩
  · exact usesTool_of_trailing trailing own

theorem tool_steps_of_sample_are_understood :
    Config.Trigger.read sampleDocument = .ok sampleTrigger ∧
    (∀ char ∈ "core-api-build".toList, Text.isBlank char = false) ∧
    ∃ result job, workflow sampleTrigger .default sampleTemplates.load (.ofBranch "side" 1) =
        .ok result ∧ ("core-api-build", job) ∈ result.jobs.entries ∧
      UsesTool .default sampleTemplates.load sampleTrigger.components ".ci-tools/xrepo"
        "core-api-build" job := by
  have accepted : Config.Trigger.read sampleDocument = .ok sampleTrigger :=
    except_eq_ok (by decide +kernel)
  have checked : ("core-api-build".toList.all fun char => !Text.isBlank char) = true := by
    decide +kernel
  have noBlank : ∀ char ∈ "core-api-build".toList, Text.isBlank char = false := by
    intro char member
    simpa using List.all_eq_true.mp checked char member
  have planned : "core-api-build" ∈ frontIds sampleTemplates.load sampleTrigger.components :=
    List.mem_cons_of_mem _ (List.mem_flatMap.mpr ⟨_, List.mem_cons_self, by decide +kernel⟩)
  obtain ⟨result, done⟩ := sample_compiles
  obtain ⟨front, ended, reported, ids, laid⟩ := laidOut_of_workflow done
  rw [← ids] at planned
  obtain ⟨⟨_, job⟩, inFront, rfl⟩ := List.mem_map.mp planned
  have listed : ("core-api-build", job) ∈ result.jobs.entries := by
    rw [laid.entries]
    exact List.mem_append_left _ (List.mem_append_left _ (List.mem_append_left _ inFront))
  exact ⟨accepted, noBlank, result, job, done, listed,
    tool_steps_are_understood accepted done _ job listed noBlank⟩

end Jobs

end CrossBuild.Compile
