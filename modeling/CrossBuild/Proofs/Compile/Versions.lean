/-
How the version of a component reaches those that depend on it.

The build job of a component writes the version to an output. Every job of a dependent component
that runs a build needs this job, holds the output in a variable whatever the user put there, and
passes it to each invocation of the build tool. The variables of different components are different.
-/

import CrossBuild.Proofs.Compile.References
import CrossBuild.Proofs.Config.Triggers

namespace CrossBuild.Compile

open Config (Component Dependency RunElement)
open Runs

/-! ### Texts within texts -/

def Contains (text part : String) : Prop :=
  ∃ front back, text = front ++ part ++ back

theorem contains_join {texts : List String} {part : String} (listed : part ∈ texts) :
    Contains (String.join texts) part := by
  induction texts with
  | nil => cases listed
  | cons first rest ih =>
      rw [String.join_cons]
      rcases List.mem_cons.mp listed with rfl | later
      · exact ⟨"", String.join rest, by rw [String.empty_append]⟩
      · obtain ⟨front, back, whole⟩ := ih later
        exact ⟨first ++ front, back, by rw [whole]; simp only [String.append_assoc]⟩

theorem contains_script {lines : List String} {line : String} (listed : line ∈ lines) :
    Contains (script lines) (line ++ "\n") :=
  contains_join (List.mem_map_of_mem listed)

/-! ### What is asked for -/

/-- The identifier of the job that builds a component. -/
def buildJobId (templates : TemplateSource) (component : Component) : String :=
  match templates component.name with
  | .ok (some loaded) => loaded.config.buildJob
  | _ => component.name ++ "-build"

/-- A job that runs a build: its identifier, and its script as a function of the options that every
invocation of the build tool is given. -/
structure BuildRun where
  id : String
  script : String → String

/-- One installation of the component, with its own options first. -/
def BuildRun.ofComponent (component : Component) : BuildRun :=
  let ownOptions := match component.mavenOpts with
    | some text => " " ++ text
    | none => ""
  { id := component.name ++ "-build"
    script := fun options => "mvn -B install" ++ ownOptions ++ options }

/-- The run elements one line each; commands of the shell are left alone. -/
def BuildRun.ofTemplateJob (job : Config.TemplateJob) : BuildRun :=
  { id := job.name
    script := fun options => Compile.script (job.run.map fun
      | .maven goals => "mvn -B " ++ goals ++ options
      | .shell command => command) }

/-- The jobs of a component that run its build; in debug mode only the one that others need. -/
def buildRuns (templates : TemplateSource) (component : Component) : List BuildRun :=
  match templates component.name with
  | .ok (some loaded) =>
      (if component.debug then loaded.config.jobs.filter Config.TemplateJob.isBuildJob
        else loaded.config.jobs).map .ofTemplateJob
  | _ => [.ofComponent component]

/-- The job of that identifier finds out the version of the component and declares it. -/
def Workflow.Provides (result : Workflow) (id component : String) : Prop :=
  ∃ producer, result.jobs.get? id = some producer ∧
    producer.outputs.get? (versionVariable component) =
      some (expression (stepOutput "grab-version" (versionVariable component))) ∧
    ∃ step ∈ producer.steps, step.id = some "grab-version" ∧ ∃ text, step.run = some text ∧
      Contains text
        ("echo \"" ++ versionVariable component ++ "=$\x7bTMP\x7d\" >> \"$GITHUB_OUTPUT\"\n")

/-- The job gets the version of a dependency from the build job: in a variable, and as an option of
every invocation of the build tool. -/
structure Receives (job : Job) (run : BuildRun) (dependency : Dependency) (build : String) :
    Prop where
  needs : build ∈ job.needs
  env : job.env.get? (versionVariable dependency.name) =
    some (expression (neededOutput build (versionVariable dependency.name)))
  script : ∃ options, mavenBuild (run.script options) ∈ job.steps ∧
    Contains options (" -D" ++ dependency.property ++ "=\"" ++
      expression (neededOutput build (versionVariable dependency.name)) ++ "\"")

variable {trigger : Config.Trigger} {repository : Config.Repository} {templates : TemplateSource}
  {options : Options} {result : Workflow} {settings : Settings} {members before after : List Member}
  {member : Member} {component : Component} {components : List Component} {known : BuildJobs}
  {id name : String} {job : Job} {dependency : Dependency} {build : String}

/-! ### The job that provides a version -/

theorem versionVariable_ne {name text : String} (apart : text.toList.head? ≠ some 'v') :
    versionVariable name ≠ text := by
  intro same
  rw [← same] at apart
  unfold versionVariable at apart
  rw [String.toList_append] at apart
  exact apart rfl

private theorem grabVersion_writes (output : String) :
    ∃ text, (grabVersion output).run = some text ∧
      Contains text ("echo \"" ++ output ++ "=$\x7bTMP\x7d\" >> \"$GITHUB_OUTPUT\"\n") := by
  have line : "echo \"" ++ output ++ "=$\x7bTMP\x7d\" >> \"$GITHUB_OUTPUT\"\n" =
      "echo \"" ++ output ++ "=" ++ branchVariable ++ "\" >> \"$GITHUB_OUTPUT\"" ++ "\n" := by
    simp only [String.append_assoc]
    rfl
  rw [line]
  refine ⟨_, rfl, contains_script ?_⟩
  simp only [List.mem_cons, true_or, or_true]

theorem Workflow.Builds.provides (builds : Workflow.Builds result settings component id) :
    Workflow.Provides result id component.name := by
  obtain ⟨part, isBuildJob, found⟩ := builds
  refine ⟨_, found, ?_, grabVersion (versionVariable component.name), ?_, rfl,
    grabVersion_writes _⟩
  · change OrderedMap.get? (if part.isBuildJob then Settings.buildOutputs component else .empty) _ = _
    rw [isBuildJob, if_pos rfl]
    unfold Settings.buildOutputs OrderedMap.ofList
    rw [OrderedMap.insertAll_cons, OrderedMap.get?_insertAll_of_notMem, OrderedMap.get?_insert,
      if_pos rfl]
    · rfl
    · intro pair listed same
      rw [List.mem_singleton.mp listed] at same
      exact versionVariable_ne (by decide) same.symm
  · unfold Settings.componentJob
    dsimp only
    rw [isBuildJob, if_pos rfl]
    simp only [List.mem_append, List.mem_cons, true_or, or_true]

/-! ### The jobs that receive it -/

theorem bindings_contain (listed : dependency ∈ component.dependencies)
    (found : known.get? dependency.name = some build) :
    Binding.ofDependency dependency build ∈ bindingsFor known component := by
  refine List.mem_filterMap.mpr ⟨dependency, listed, ?_⟩
  rw [found]
  rfl

theorem mavenProperties_contain {bindings : List Binding}
    (listed : Binding.ofDependency dependency build ∈ bindings) :
    Contains (mavenProperties bindings) (" -D" ++ dependency.property ++ "=\"" ++
      expression (neededOutput build (versionVariable dependency.name)) ++ "\"") := by
  have inside := contains_join (List.mem_map_of_mem (f := fun binding : Binding =>
    " " ++ binding.mavenProperty) listed)
  have same : " " ++ (Binding.ofDependency dependency build).mavenProperty =
      " -D" ++ dependency.property ++ "=\"" ++
        expression (neededOutput build (versionVariable dependency.name)) ++ "\"" := by
    unfold Binding.mavenProperty
    simp only [← String.append_assoc]
    rfl
  rw [same] at inside
  exact inside

/-- A binding to a component with a variable of this name is a binding to the component itself. -/
private theorem agree_versionEntries (build : String) {key : String}
    (only : ∀ other ∈ component.dependencies,
      versionVariable other.name = key → known.get? other.name = some build) :
    ∀ pair ∈ versionEntries (bindingsFor known component), pair.1 = key →
      pair.2 = expression (neededOutput build key) := by
  unfold versionEntries
  rw [List.forall_mem_map]
  intro binding member same
  obtain ⟨other, listed, known, own⟩ := Settings.buildJob_of_mem_bindingsFor member
  have variableOf : binding.versionVariable = versionVariable other.name := by
    rw [own]
    rfl
  dsimp only at same ⊢
  have found := only other listed (variableOf.symm.trans same)
  rw [known, Option.some.injEq] at found
  unfold Binding.outputReference
  rw [same, found]

/-- What makes the version of a dependency reach a component: its build job is known, no other
dependency has its variable, and neither has the component. -/
private structure Reaches (known : BuildJobs) (component : Component) (dependency : Dependency)
    (build : String) : Prop where
  listed : dependency ∈ component.dependencies
  found : known.get? dependency.name = some build
  only : ∀ other ∈ component.dependencies,
    versionVariable other.name = versionVariable dependency.name → known.get? other.name = some build
  apart : versionVariable component.name ≠ versionVariable dependency.name

private theorem Reaches.get?_versionEntries (reaches : Reaches known component dependency build)
    (env : Env) :
    (env.insertAll (versionEntries (bindingsFor known component))).get?
        (versionVariable dependency.name) =
      some (expression (neededOutput build (versionVariable dependency.name))) := by
  refine OrderedMap.get?_insertAll_of_mem (agree_versionEntries build reaches.only) ?_
  exact List.mem_map.mpr ⟨_, bindings_contain reaches.listed reaches.found, rfl⟩

private theorem Reaches.mem_needs (reaches : Reaches known component dependency build) :
    build ∈ (bindingsFor known component).map Binding.buildJob :=
  List.mem_map.mpr ⟨_, bindings_contain reaches.listed reaches.found, rfl⟩

private theorem Reaches.default (reaches : Reaches known component dependency build) :
    Receives (settings.defaultJob component (bindingsFor known component))
      (.ofComponent component) dependency build := by
  refine ⟨List.mem_cons_of_mem _ reaches.mem_needs, reaches.get?_versionEntries .empty,
    mavenProperties (bindingsFor known component), mavenBuild_mem_componentJob _, ?_⟩
  exact mavenProperties_contain (bindings_contain reaches.listed reaches.found)

theorem script_templateBuildCommand (job : Config.TemplateJob) (bindings : List Binding) :
    (BuildRun.ofTemplateJob job).script (mavenProperties bindings) =
      templateBuildCommand job.run bindings := by
  refine congrArg script (List.map_congr_left fun element _ => ?_)
  cases element <;> rfl

private theorem Reaches.template (reaches : Reaches known component dependency build)
    (buildJob : String) (own : Config.TemplateJob) :
    Receives (settings.templateJob component buildJob (bindingsFor known component) own)
      (.ofTemplateJob own) dependency build := by
  refine ⟨?_, ?_, mavenProperties (bindingsFor known component), ?_, ?_⟩
  · exact List.mem_append_left _ (List.mem_append_right _ reaches.mem_needs)
  · change OrderedMap.get? (OrderedMap.insertAll _ (if own.needs.contains buildJob then _ else _)) _ = _
    rw [OrderedMap.get?_insertAll_of_notMem, reaches.get?_versionEntries]
    intro pair listed
    split at listed
    · rw [List.mem_singleton.mp listed]
      exact reaches.apart
    · cases listed
  · rw [script_templateBuildCommand]
    exact mavenBuild_mem_componentJob _
  · exact mavenProperties_contain (bindings_contain reaches.listed reaches.found)

private theorem Reaches.receives (reaches : Reaches known component dependency build)
    (loads : member.Loads templates component)
    (placed : ∀ planned ∈ (settings.memberPlan known member).jobs, planned.PlacedIn result) :
    ∀ run ∈ buildRuns templates component, ∃ job, result.jobs.get? run.id = some job ∧
      Receives job run dependency build := by
  unfold buildRuns
  unfold Settings.memberPlan at placed
  rw [loads.loaded]
  rw [loads.own] at placed
  cases found : member.template with
  | none =>
      rw [found] at placed
      intro run own
      rw [List.mem_singleton.mp own]
      obtain ⟨job, made, there⟩ := placed _ (List.mem_singleton.mpr rfl)
      cases made
      exact ⟨_, there, reaches.default⟩
  | some loaded =>
      rw [found] at placed
      dsimp only
      rw [List.forall_mem_map]
      intro own listed
      obtain ⟨job, made, there⟩ := placed _ (List.mem_append_left _ (List.mem_map.mpr ⟨own, listed, rfl⟩))
      cases made
      exact ⟨_, there, reaches.template _ _⟩

/-! ### All components of a trigger -/

theorem buildJob_of_loads (loads : member.Loads templates component) :
    member.buildJob = buildJobId templates component := by
  unfold Member.buildJob buildJobId
  rw [loads.loaded]
  cases member.template with
  | none =>
      dsimp only
      rw [loads.own]
      rfl
  | some loaded => rfl

private theorem provides_of_mem (sound : ∀ member ∈ members, member.Sound)
    (placed : ∀ planned ∈ settings.memberJobs .empty members, planned.PlacedIn result)
    (listed : member ∈ members) :
    Workflow.Provides result member.buildJob member.component.name := by
  obtain ⟨before, after, rfl⟩ := List.append_of_mem listed
  rw [Settings.memberJobs_append, Settings.memberJobs] at placed
  obtain ⟨part, isBuildJob, own⟩ := @Settings.buildJob_planned settings member
    (OrderedMap.insertAll .empty (memberEntries before)) (sound member listed)
  obtain ⟨job, made, there⟩ := placed _ (List.mem_append_right _ (List.mem_append_left _ own))
  cases made
  exact Workflow.Builds.provides ⟨part, isBuildJob, there⟩

/-- The build jobs of members are known under the names of their components. -/
private theorem known_of_loads
    (all : List.Forall₂ (Member.Loads templates) components members)
    (found : (OrderedMap.insertAll .empty (memberEntries members)).get? name = some build) :
    ∃ producer ∈ components, ∃ member ∈ members, producer.name = name ∧
      member.component = producer ∧ buildJobId templates producer = build ∧
        member.buildJob = build := by
  have entry : (name, build) ∈ memberEntries members :=
    (OrderedMap.mem_of_get?_insertAll found).resolve_right (fun absent => nomatch absent)
  obtain ⟨member, inside, same⟩ := List.mem_map.mp entry
  obtain ⟨named, builds⟩ := Prod.mk.inj same
  obtain ⟨producer, listed, loads⟩ := exists_of_mem_right all member inside
  rw [loads.own] at named
  refine ⟨producer, listed, member, inside, named, loads.own, ?_, builds⟩
  rw [← buildJob_of_loads loads]
  exact builds

private theorem found_of_name
    (all : List.Forall₂ (Member.Loads templates) components members)
    (listed : name ∈ components.map Component.name) :
    ∃ build, (OrderedMap.insertAll .empty (memberEntries members)).get? name = some build := by
  refine OrderedMap.mem_keys_iff.mp (OrderedMap.mem_keys_insertAll.mpr (.inr ?_))
  obtain ⟨producer, inside, named⟩ := List.mem_map.mp listed
  obtain ⟨member, there, loads⟩ := exists_of_mem_left all producer inside
  rw [← named, ← loads.own]
  exact List.mem_map.mpr ⟨_, List.mem_map_of_mem there, rfl⟩

/-- The member of a component, with the members before it. -/
theorem split_of_loads {front back : List Component}
    (all : List.Forall₂ (Member.Loads templates) (front ++ component :: back) members) :
    ∃ before member after, members = before ++ member :: after ∧
      List.Forall₂ (Member.Loads templates) front before ∧ member.Loads templates component := by
  obtain ⟨before, rest, rfl, earlier, all⟩ := forall₂_append_left all
  cases all with
  | @cons _ member _ after loads _ => exact ⟨before, member, after, rfl, earlier, loads⟩

/-- In a compiled workflow the version of every dependency is provided by the build job of that
component and received by every job that runs a build of the dependent one, and different components
have different variables. -/
theorem versions_reach_dependents {document : Yaml.Value}
    (accepted : Config.Trigger.read document = .ok trigger) (reads : templates.ReadsTexts)
    (done : workflow trigger repository templates options = .ok result) :
    (∀ component ∈ trigger.components, ∀ dependency ∈ component.dependencies,
      ∃ producer ∈ trigger.components, producer.name = dependency.name ∧
        Workflow.Provides result (buildJobId templates producer) dependency.name ∧
        ∀ run ∈ buildRuns templates component, ∃ job, result.jobs.get? run.id = some job ∧
          Receives job run dependency (buildJobId templates producer)) ∧
    ∀ left ∈ trigger.components, ∀ right ∈ trigger.components,
      versionVariable left.name = versionVariable right.name → left = right := by
  have order := Config.Trigger.read_ok accepted
  have apart : ∀ left ∈ trigger.components, ∀ right ∈ trigger.components,
      versionVariable left.name = versionVariable right.name → left = right := by
    intro left inLeft right inRight same
    rw [Config.versionVariable_inj (order.named left inLeft) (order.named right inRight)] at same
    exact List.inj_on_of_nodup_map order.distinct inLeft inRight same
  refine ⟨fun component listed dependency inside => ?_, apart⟩
  obtain ⟨members, all, made⟩ := workflow_ok done
  have sound := sound_of_loads reads all
  have placed := placed_of_makes made
  unfold Settings.plannedJobs at placed
  simp only [List.forall_mem_append] at placed
  obtain ⟨⟨-, placed⟩, -⟩ := placed
  obtain ⟨front, back, whole⟩ := List.append_of_mem listed
  rw [whole] at all
  obtain ⟨before, member, after, rfl, earlier, loads⟩ := split_of_loads all
  have dependsEarlier := order.dependsEarlier front component back whole
  obtain ⟨build, found⟩ := found_of_name earlier (dependsEarlier dependency inside)
  obtain ⟨producer, inFront, other, inBefore, named, own, isBuild, builds⟩ :=
    known_of_loads earlier found
  have inTrigger : ∀ other ∈ front, other ∈ trigger.components := by
    intro other member
    rw [whole]
    exact List.mem_append_left _ member
  refine ⟨producer, inTrigger producer inFront, named, ?_, ?_⟩
  · rw [isBuild, ← named, ← own, ← builds]
    exact provides_of_mem sound placed (List.mem_append_left _ inBefore)
  · rw [isBuild]
    rw [Settings.memberJobs_append, Settings.memberJobs] at placed
    refine Reaches.receives ⟨inside, found, fun another alsoListed same => ?_, fun same => ?_⟩ loads
      fun planned ofMember => placed _ (List.mem_append_right _ (List.mem_append_left _ ofMember))
    · -- Both names are names of components, so one variable means one component.
      obtain ⟨third, inFront', sameName⟩ := List.mem_map.mp (dependsEarlier another alsoListed)
      rw [← sameName, ← named] at same
      have equal := apart third (inTrigger third inFront') producer (inTrigger producer inFront) same
      rw [← sameName, equal, named]
      exact found
    · rw [← named] at same
      have equal := apart component listed producer (inTrigger producer inFront) same
      have distinct := order.distinct
      rw [whole, List.map_append, List.map_cons] at distinct
      exact (List.nodup_append.mp distinct).2.2 _ (List.mem_map_of_mem inFront) _ List.mem_cons_self
        (by rw [equal])

/-- The document of the sample trigger. -/
def sampleDocument : Yaml.Value :=
  .mapping [
    (.string "name", .string "nightly"),
    (.string "env", .mapping []),
    (.string "components", .sequence [
      .mapping [(.string "name", .string "core-api"), (.string "org", .string "org"),
        (.string "branch", .string "main"), (.string "mavenOpts", .string "-DskipTests")],
      .mapping [(.string "name", .string "app"), (.string "org", .string "org"),
        (.string "branch", .string "main"), (.string "dependencies", .sequence [
          .mapping [(.string "name", .string "core-api"),
            (.string "property", .string "version.core.api")]])]])]

theorem versions_of_sample_reach_dependents :
    Config.Trigger.read sampleDocument = .ok sampleTrigger ∧ sampleTemplates.load.ReadsTexts ∧
    ∃ result, workflow sampleTrigger .default sampleTemplates.load (.ofBranch "side" 1) = .ok result ∧
      (∀ component ∈ sampleTrigger.components, ∀ dependency ∈ component.dependencies,
        ∃ producer ∈ sampleTrigger.components, producer.name = dependency.name ∧
          Workflow.Provides result (buildJobId sampleTemplates.load producer) dependency.name ∧
          ∀ run ∈ buildRuns sampleTemplates.load component, ∃ job,
            result.jobs.get? run.id = some job ∧
              Receives job run dependency (buildJobId sampleTemplates.load producer)) ∧
      ∀ left ∈ sampleTrigger.components, ∀ right ∈ sampleTrigger.components,
        versionVariable left.name = versionVariable right.name → left = right := by
  have accepted : Config.Trigger.read sampleDocument = .ok sampleTrigger :=
    except_eq_ok (by decide +kernel)
  have reads := MemoryTemplates.readsTexts sampleTemplates
  obtain ⟨result, done⟩ := sample_compiles
  exact ⟨accepted, reads, result, done, versions_reach_dependents accepted reads done⟩

end CrossBuild.Compile
