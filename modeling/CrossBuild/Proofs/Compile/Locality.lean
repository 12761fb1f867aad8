/-
The jobs of a component in different workflows.

What a compilation makes of a component depends on the component, its template, and the build jobs
of the components it depends on. Two workflows that agree on these hold the same block of jobs for
it, however different the other components are, and whatever stands before and behind the block.
Nothing is said about the jobs that end a workflow, which do depend on all components.
-/

import CrossBuild.Proofs.Compile.Versions

namespace CrossBuild.Compile

open Config (Component)
open Runs

/-- The template of a component, wherever it was found. -/
def loadedTemplate? (templates : TemplateSource) (component : Component) : Option Config.Template :=
  match templates component.name with
  | .ok found => found.map LoadedTemplate.config
  | .error _ => none

/-- The identifiers of the jobs made for a component, in order. -/
def blockIds (templates : TemplateSource) (component : Component) : List String :=
  match loadedTemplate? templates component with
  | none => [component.name ++ "-build"]
  | some template =>
      if component.debug then
        (template.jobs.filter Config.TemplateJob.isBuildJob).map Config.TemplateJob.name
      else
        template.jobs.map Config.TemplateJob.name ++
          template.endJob.toList.map Config.TemplateEndJob.name

/-- The build jobs that are known behind these components. -/
def knownBuildJobs (templates : TemplateSource) (components : List Component) : BuildJobs :=
  .ofList (components.map fun component => (component.name, buildJobId templates component))

/-- Both workflows hold the same jobs for the component, one behind the other. -/
def SameBlock (templates : TemplateSource) (component : Component) (left right : Workflow) : Prop :=
  ∃ jobs : List (String × Job), jobs.map Prod.fst = blockIds templates component ∧
    jobs <:+: left.jobs.entries ∧ jobs <:+: right.jobs.entries

variable {first second : Config.Trigger} {repository : Config.Repository}
  {templates otherTemplates : TemplateSource} {options : Options} {result other : Workflow}
  {settings : Settings} {components front back : List Component} {component : Component}
  {members before : List Member} {member : Member} {known : BuildJobs} {name build : String}
  {planned : List PlannedJob} {items : List (String × Job)}

/-! ### Blocks of planned jobs -/

theorem makes_rightUnique : Relator.RightUnique PlannedJob.Makes := by
  intro planned item other makes alsoMakes
  apply Prod.ext
  · exact makes.1.symm.trans alsoMakes.1
  · exact Except.ok.inj (makes.2.symm.trans alsoMakes.2)

/-! ### What a block depends on -/

theorem loadedTemplate?_of_loads (loads : member.Loads templates component) :
    loadedTemplate? templates component = member.template.map LoadedTemplate.config := by
  unfold loadedTemplate?
  rw [loads.loaded]

theorem blockIds_of_loads (loads : member.Loads templates component) :
    member.jobIds = blockIds templates component := by
  unfold Member.jobIds blockIds Member.templateJobs Member.templateEndJob?
  rw [loadedTemplate?_of_loads loads, loads.own]
  cases member.template with
  | none => rfl
  | some loaded =>
      cases component.debug with
      | true => simp
      | false => simp

/-- The places where templates were found make no difference. -/
theorem memberPlan_congr {otherMember : Member} {otherKnown : BuildJobs}
    (own : member.component = otherMember.component)
    (template : member.template.map LoadedTemplate.config =
      otherMember.template.map LoadedTemplate.config)
    (bindings : bindingsFor known member.component = bindingsFor otherKnown otherMember.component) :
    settings.memberPlan known member = settings.memberPlan otherKnown otherMember := by
  unfold Settings.memberPlan
  rw [bindings, own]
  cases mine : member.template with
  | none =>
      rw [mine] at template
      rw [Option.map_eq_none_iff.mp template.symm]
  | some loaded =>
      rw [mine] at template
      obtain ⟨otherLoaded, theirs, same⟩ := Option.map_eq_some_iff.mp template.symm
      rw [theirs]
      dsimp only
      rw [same]

theorem bindingsFor_congr {otherKnown : BuildJobs}
    (agree : ∀ dependency ∈ component.dependencies,
      known.get? dependency.name = otherKnown.get? dependency.name) :
    bindingsFor known component = bindingsFor otherKnown component := by
  unfold bindingsFor
  apply List.filterMap_congr
  intro dependency listed
  rw [agree dependency listed]

theorem memberEntries_of_loads
    (all : List.Forall₂ (Member.Loads templates) components members) :
    OrderedMap.insertAll .empty (memberEntries members) = knownBuildJobs templates components := by
  have entries : memberEntries members =
      components.map fun component => (component.name, buildJobId templates component) := by
    induction all with
    | nil => rfl
    | cons loads _ ih =>
        rw [List.map_cons, ← ih, ← buildJob_of_loads loads, ← loads.own]
        rfl
  rw [entries]
  rfl

/-- The block of a component in a workflow, as it is planned behind the components before it. -/
theorem block_of_workflow
    (done : workflow first repository templates options = .ok result)
    (whole : first.components = front ++ component :: back) :
    ∃ member jobs, member.Loads templates component ∧
      List.Forall₂ PlannedJob.Makes
        (({ workflowName := first.name, repository, options } : Settings).memberPlan
          (knownBuildJobs templates front) member).jobs jobs ∧
      jobs <:+: result.jobs.entries := by
  obtain ⟨members, all, made⟩ := workflow_ok done
  rw [whole] at all
  obtain ⟨before, member, after, rfl, earlier, loads⟩ := split_of_loads all
  unfold Settings.plannedJobs at made
  rw [Settings.memberJobs_append, Settings.memberJobs, memberEntries_of_loads earlier] at made
  obtain ⟨inner, trailing, whole, made, -⟩ := forall₂_append_left made
  obtain ⟨start, inner, rfl, -, made⟩ := forall₂_append_left made
  obtain ⟨earlierJobs, inner, rfl, -, made⟩ := forall₂_append_left made
  obtain ⟨jobs, laterJobs, rfl, block, -⟩ := forall₂_append_left made
  refine ⟨member, jobs, loads, block, start ++ earlierJobs, laterJobs ++ trailing, ?_⟩
  rw [whole]
  simp only [List.append_assoc]

theorem knownBuildJobs_of_order (order : Config.ComponentsInOrder components)
    (whole : components = front ++ component :: back) {dependency : Config.Dependency}
    (listed : dependency ∈ component.dependencies) :
    ∃ producer ∈ components, producer.name = dependency.name ∧
      (knownBuildJobs templates front).get? dependency.name =
        some (buildJobId templates producer) := by
  have named := order.dependsEarlier front component back whole dependency listed
  have key : dependency.name ∈ (knownBuildJobs templates front).keys := by
    apply OrderedMap.mem_keys_insertAll.mpr
    rw [List.map_map]
    exact .inr named
  obtain ⟨build, found⟩ := OrderedMap.mem_keys_iff.mp key
  have entry := (OrderedMap.mem_of_get?_insertAll found).resolve_right fun absent => nomatch absent
  obtain ⟨producer, inside, same⟩ := List.mem_map.mp entry
  obtain ⟨own, rfl⟩ := Prod.mk.inj same
  refine ⟨producer, ?_, own, found⟩
  rw [whole]
  exact List.mem_append_left _ inside

theorem sameBlock_of_known {left right : List Component} (sameName : first.name = second.name)
    (done : workflow first repository templates options = .ok result)
    (again : workflow second repository otherTemplates options = .ok other)
    (whole : first.components = front ++ component :: back)
    (otherWhole : second.components = left ++ component :: right)
    (template : loadedTemplate? templates component = loadedTemplate? otherTemplates component)
    (known : ∀ dependency ∈ component.dependencies,
      (knownBuildJobs templates front).get? dependency.name =
        (knownBuildJobs otherTemplates left).get? dependency.name) :
    SameBlock templates component result other := by
  obtain ⟨member, jobs, loads, made, inResult⟩ := block_of_workflow done whole
  obtain ⟨otherMember, otherJobs, otherLoads, otherMade, inOther⟩ :=
    block_of_workflow again otherWhole
  have plans : ∀ settings : Settings, settings.memberPlan (knownBuildJobs templates front) member =
      settings.memberPlan (knownBuildJobs otherTemplates left) otherMember := by
    intro settings
    apply memberPlan_congr
    · rw [loads.own, otherLoads.own]
    · rw [← loadedTemplate?_of_loads loads, ← loadedTemplate?_of_loads otherLoads, template]
    · rw [loads.own, otherLoads.own]
      exact bindingsFor_congr known
  rw [← sameName, ← plans] at otherMade
  have same : jobs = otherJobs := List.right_unique_forall₂' makes_rightUnique made otherMade
  refine ⟨jobs, ?_, inResult, ?_⟩
  · rw [ids_of_makes made, Settings.ids_memberPlan, blockIds_of_loads loads]
  · rw [same]
    exact inOther

/-- The jobs of a component are the same in any two workflows that agree on its template and on the
build jobs known for its dependencies. In workflows of accepted triggers these are the build jobs of
the components it depends on, wherever they are listed. -/
theorem component_compiles_locally (sameName : first.name = second.name)
    (done : workflow first repository templates options = .ok result)
    (again : workflow second repository otherTemplates options = .ok other) :
    (∀ component front back left right, first.components = front ++ component :: back →
      second.components = left ++ component :: right →
      loadedTemplate? templates component = loadedTemplate? otherTemplates component →
      (∀ dependency ∈ component.dependencies,
        (knownBuildJobs templates front).get? dependency.name =
          (knownBuildJobs otherTemplates left).get? dependency.name) →
      SameBlock templates component result other) ∧
    ∀ document otherDocument, Config.Trigger.read document = .ok first →
      Config.Trigger.read otherDocument = .ok second →
      ∀ component ∈ first.components, component ∈ second.components →
        loadedTemplate? templates component = loadedTemplate? otherTemplates component →
        (∀ dependency ∈ component.dependencies, ∀ producer ∈ first.components,
          ∀ otherProducer ∈ second.components, producer.name = dependency.name →
            otherProducer.name = dependency.name →
            buildJobId templates producer = buildJobId otherTemplates otherProducer) →
        SameBlock templates component result other := by
  constructor
  · intro component front back left right whole otherWhole template known
    exact sameBlock_of_known sameName done again whole otherWhole template known
  · intro document otherDocument read otherRead component inFirst inSecond template builds
    obtain ⟨front, back, whole⟩ := List.append_of_mem inFirst
    obtain ⟨left, right, otherWhole⟩ := List.append_of_mem inSecond
    apply sameBlock_of_known sameName done again whole otherWhole template
    intro dependency listed
    obtain ⟨producer, there, named, found⟩ :=
      knownBuildJobs_of_order (Config.Trigger.read_ok read) whole listed
    obtain ⟨otherProducer, alsoThere, alsoNamed, alsoFound⟩ :=
      knownBuildJobs_of_order (Config.Trigger.read_ok otherRead) otherWhole listed
    rw [found, alsoFound,
      builds dependency listed producer there otherProducer alsoThere named alsoNamed]

/-- The document of the sample trigger with an environment, one more component, and other settings
of the component that the last one depends on. -/
def busyDocument : Yaml.Value :=
  .mapping [
    (.string "name", .string "nightly"),
    (.string "env", .mapping [(.string "TZ", .string "UTC")]),
    (.string "components", .sequence [
      .mapping [(.string "name", .string "docs"), (.string "org", .string "org"),
        (.string "branch", .string "main")],
      .mapping [(.string "name", .string "core-api"), (.string "org", .string "fork"),
        (.string "branch", .string "main"), (.string "debug", .bool true),
        (.string "dependencies", .sequence [
          .mapping [(.string "name", .string "docs"), (.string "property", .string "docs")]])],
      .mapping [(.string "name", .string "app"), (.string "org", .string "org"),
        (.string "branch", .string "main"), (.string "dependencies", .sequence [
          .mapping [(.string "name", .string "core-api"),
            (.string "property", .string "version.core.api")]])]])]

def busyTrigger : Config.Trigger :=
  { name := "nightly"
    env := .ofList [("TZ", "UTC")]
    components := [
      { name := "docs", org := "org", branch := "main", mavenOpts := none
        debug := false, javaVersion := none, dependencies := [] },
      { name := "core-api", org := "fork", branch := "main", mavenOpts := none
        debug := true, javaVersion := none
        dependencies := [{ name := "docs", property := "docs" }] },
      { name := "app", org := "org", branch := "main", mavenOpts := none
        debug := false, javaVersion := none
        dependencies := [{ name := "core-api", property := "version.core.api" }] }] }

def installJob (key : String) (isBuildJob : Bool) (needs : List String) : Config.TemplateJob :=
  { key := key
    name := "app-" ++ key
    isBuildJob := isBuildJob
    env := .empty
    javaVersion := none
    runsOn := none
    needs := needs
    run := [.maven "install"] }

def appTemplates (origin : String) : TemplateSource := fun name =>
  .ok (if name = "app" then
    some {
      origin := origin
      config := {
        component := "app"
        buildJob := "app-jar"
        jobs := [installJob "jar" true [], installJob "test" false ["app-jar"]]
        endJob := none } }
  else none)

theorem app_compiles_locally :
    ∃ result other,
      workflow sampleTrigger .default (appTemplates "here") (.ofBranch "side" 1) = .ok result ∧
      workflow busyTrigger .default (appTemplates "there") (.ofBranch "side" 1) = .ok other ∧
      ∀ component ∈ sampleTrigger.components, component ∈ busyTrigger.components →
        SameBlock (appTemplates "here") component result other := by
  obtain ⟨result, done⟩ : ∃ result,
      workflow sampleTrigger .default (appTemplates "here") (.ofBranch "side" 1) = .ok result :=
    except_exists_ok (by decide +kernel)
  obtain ⟨other, again⟩ : ∃ other,
      workflow busyTrigger .default (appTemplates "there") (.ofBranch "side" 1) = .ok other :=
    except_exists_ok (by decide +kernel)
  have read : Config.Trigger.read sampleDocument = .ok sampleTrigger :=
    except_eq_ok (by decide +kernel)
  have otherRead : Config.Trigger.read busyDocument = .ok busyTrigger :=
    except_eq_ok (by decide +kernel)
  have sameName : sampleTrigger.name = busyTrigger.name := rfl
  have template : ∀ component, loadedTemplate? (appTemplates "here") component =
      loadedTemplate? (appTemplates "there") component := by
    intro component
    unfold loadedTemplate? appTemplates
    by_cases own : component.name = "app"
    · rw [own]
      rfl
    · simp [own]
  refine ⟨result, other, done, again, fun component listed alsoListed => ?_⟩
  apply (component_compiles_locally sameName done again).2 _ _ read otherRead component listed
    alsoListed (template component)
  intro dependency _ producer _ otherProducer _ named otherNamed
  unfold buildJobId appTemplates
  rw [named, otherNamed]
  by_cases own : dependency.name = "app"
  · rw [own]
    rfl
  · simp [own]

end CrossBuild.Compile
