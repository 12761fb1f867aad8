/-
Jobs that need another job twice.

What a job of a component needs is put together from three lists: the job that cancels earlier runs,
the build jobs of the dependencies, and the siblings that its template lists. The three never meet,
but the last two are taken as they are given: a component may list a dependency twice, with different
properties, and a job a sibling. Here it is said that nothing else leads to a need that comes twice.
In which order needs put the jobs is a matter of the graph, and does not depend on repetitions.
-/

import CrossBuild.Proofs.Compile.Commits
import CrossBuild.Proofs.Compile.Precedence

namespace CrossBuild.Compile

open Config (Component Dependency)
open Runs

/-- The jobs that run the build of a component, each with the siblings it needs. In debug mode there
are no siblings. -/
def runNeeds (templates : TemplateSource) (component : Component) : List (String × List String) :=
  match loadedTemplate? templates component with
  | none => [(component.name ++ "-build", [])]
  | some template =>
      if component.debug then
        (template.jobs.filter Config.TemplateJob.isBuildJob).map fun job => (job.name, [])
      else template.jobs.map fun job => (job.name, job.needs)

variable {trigger : Config.Trigger} {repository : Config.Repository} {templates : TemplateSource}
  {options : Options} {result : Workflow} {settings : Settings} {member : Member}
  {components front back : List Component} {component : Component} {known : BuildJobs}
  {id : String} {job : Job} {siblings : List String}

/-! ### Lists without repetitions -/

theorem nodup_append_iff_of_subset {front back left right : List String}
    (distinct : (front ++ back).Nodup) (inFront : left ⊆ front) (inBack : right ⊆ back) :
    (left ++ right).Nodup ↔ left.Nodup ∧ right.Nodup := by
  rw [List.nodup_append]
  constructor
  · intro ⟨one, other, _⟩
    exact ⟨one, other⟩
  · intro ⟨one, other⟩
    refine ⟨one, other, fun need inLeft another inRight => ?_⟩
    exact (List.nodup_append.mp distinct).2.2 need (inFront inLeft) another (inBack inRight)

/-- Names that are added are new. -/
theorem nodup_addNeeds {needs : List String} (names : List String) (distinct : needs.Nodup) :
    (Settings.addNeeds needs names).Nodup := by
  unfold Settings.addNeeds
  induction names generalizing needs with
  | nil => exact distinct
  | cons name rest ih =>
      rw [List.foldl_cons]
      apply ih
      split
      · exact distinct
      · rename_i absent
        rw [List.contains_iff_mem] at absent
        exact List.Nodup.append distinct (List.nodup_singleton name)
          (List.disjoint_singleton.mpr absent)

/-! ### The needs of one component -/

theorem runNeeds_of_default (loads : member.Loads templates component)
    (found : member.template = none) :
    runNeeds templates component = [(component.name ++ "-build", [])] := by
  unfold runNeeds
  rw [loadedTemplate?_of_loads loads, found]
  rfl

theorem runNeeds_of_template (loads : member.Loads templates component) {loaded : LoadedTemplate}
    (found : member.template = some loaded) :
    runNeeds templates component = (member.templateJobs loaded).map fun job =>
      (job.name, if component.debug then [] else job.needs) := by
  unfold runNeeds Member.templateJobs
  rw [loadedTemplate?_of_loads loads, found, loads.own]
  cases component.debug with
  | true => rfl
  | false => rfl

/-- Siblings are jobs of the same component. -/
theorem siblings_subset_blockIds (reads : templates.ReadsTexts)
    (loads : member.Loads templates component)
    (listed : (id, siblings) ∈ runNeeds templates component) :
    siblings ⊆ blockIds templates component := by
  rw [← blockIds_of_loads loads]
  unfold Member.jobIds
  cases found : member.template with
  | none =>
      rw [runNeeds_of_default loads found] at listed
      cases List.mem_singleton.mp listed
      exact List.nil_subset _
  | some loaded =>
      rw [runNeeds_of_template loads found] at listed
      obtain ⟨own, inside, same⟩ := List.mem_map.mp listed
      cases same
      obtain ⟨-, buildKey, wellFormed⟩ := loads.sound reads loaded found
      obtain ⟨before, after, whole⟩ := List.append_of_mem (Settings.mem_templateJobs.mp inside).1
      unfold Member.templateJobs
      rw [loads.own]
      cases component.debug with
      | true => exact List.nil_subset _
      | false =>
          intro need needed
          have earlier := wellFormed.jobs.needsEarlier before own after whole need needed
          apply List.mem_append_left
          rw [if_neg Bool.false_ne_true, whole, List.map_append]
          exact List.mem_append_left _ earlier

/-- A job that runs a build needs nothing but the first job, build jobs and siblings, in this order. -/
theorem needs_of_runNeeds (loads : member.Loads templates component)
    (placed : ∀ planned ∈ (settings.memberPlan known member).jobs, planned.PlacedIn result)
    (listed : (id, siblings) ∈ runNeeds templates component)
    (there : result.jobs.get? id = some job) :
    ∃ start, start.Sublist [cancelJobId] ∧
      job.needs = start ++ (bindingsFor known component).map Binding.buildJob ++ siblings := by
  unfold Settings.memberPlan at placed
  rw [loads.own] at placed
  cases found : member.template with
  | none =>
      rw [runNeeds_of_default loads found] at listed
      rw [found] at placed
      obtain ⟨own, made, stands⟩ := placed _ (List.mem_singleton_self _)
      cases List.mem_singleton.mp listed
      cases made
      cases there.symm.trans stands
      exact ⟨[cancelJobId], List.Sublist.refl _, (List.append_nil _).symm⟩
  | some loaded =>
      rw [runNeeds_of_template loads found] at listed
      rw [found] at placed
      obtain ⟨own, inside, same⟩ := List.mem_map.mp listed
      cases same
      unfold Member.templateJobs at inside
      rw [loads.own] at inside
      obtain ⟨made, same, stands⟩ :=
        placed _ (List.mem_append_left _ (List.mem_map.mpr ⟨own, inside, rfl⟩))
      cases same
      cases there.symm.trans stands
      refine ⟨if own.isBuildJob then [cancelJobId] else [], ?_, rfl⟩
      cases own.isBuildJob with
      | true => exact List.Sublist.refl _
      | false => exact List.nil_sublist _

/-- The one other job of a component is the end job of its template, which needs nothing twice. -/
theorem nodup_needs_of_endJob (reads : templates.ReadsTexts)
    (loads : member.Loads templates component)
    (placed : ∀ planned ∈ (settings.memberPlan known member).jobs, planned.PlacedIn result)
    (inBlock : id ∈ blockIds templates component)
    (runsNothing : ∀ siblings, (id, siblings) ∉ runNeeds templates component)
    (there : result.jobs.get? id = some job) : job.needs.Nodup := by
  unfold Settings.memberPlan at placed
  rw [loads.own] at placed
  rw [← blockIds_of_loads loads] at inBlock
  unfold Member.jobIds at inBlock
  cases found : member.template with
  | none =>
      rw [found, loads.own] at inBlock
      rw [runNeeds_of_default loads found] at runsNothing
      cases List.mem_singleton.mp inBlock
      exact absurd (List.mem_singleton_self _) (runsNothing [])
  | some loaded =>
      rw [found] at inBlock placed
      rw [runNeeds_of_template loads found] at runsNothing
      rcases List.mem_append.mp inBlock with asJob | asEnd
      · obtain ⟨own, inside, rfl⟩ := List.mem_map.mp asJob
        exact absurd (List.mem_map.mpr ⟨own, inside, rfl⟩) (runsNothing _)
      · obtain ⟨endJob, last, rfl⟩ := List.mem_map.mp asEnd
        unfold Member.templateEndJob? at last
        rw [loads.own] at last
        obtain ⟨made, own, stands⟩ :=
          placed _ (List.mem_append_right _ (List.mem_map.mpr ⟨endJob, last, rfl⟩))
        cases there.symm.trans stands
        obtain ⟨-, -, needs, -⟩ := Settings.templateEndJob_ok own
        obtain ⟨-, buildKey, wellFormed⟩ := loads.sound reads loaded found
        have isLast : loaded.config.endJob = some endJob := by
          split at last
          · cases last
          · exact Option.mem_toList.mp last
        rw [needs, (wellFormed.endJob endJob isLast).2]
        exact nodup_addNeeds _ wellFormed.namesDistinct

/-! ### The build jobs of dependencies -/

theorem buildJobs_of_order (order : Config.ComponentsInOrder components)
    (whole : components = front ++ component :: back) :
    (bindingsFor (knownBuildJobs templates front) component).map Binding.buildJob =
      (component.dependencies.map Dependency.name).map (buildJobNamed templates) := by
  rw [bindings_of_order order whole, List.map_map, List.map_map]
  rfl

/-- A dependency is a component listed before. -/
theorem exists_producer {name : String} (order : Config.ComponentsInOrder components)
    (whole : components = front ++ component :: back)
    (named : name ∈ component.dependencies.map Dependency.name) :
    ∃ producer ∈ front, producer ∈ components ∧ producer.name = name := by
  obtain ⟨dependency, listed, rfl⟩ := List.mem_map.mp named
  have earlier := order.dependsEarlier front component back whole dependency listed
  obtain ⟨producer, inFront, same⟩ := List.mem_map.mp earlier
  have inside : producer ∈ components := by
    rw [whole]
    exact List.mem_append_left _ inFront
  exact ⟨producer, inFront, inside, same⟩

/-- Different dependencies have different build jobs. -/
theorem nodup_buildJobs_iff (order : Config.ComponentsInOrder components)
    (whole : components = front ++ component :: back)
    (distinct : (components.map (buildJobId templates)).Nodup) :
    ((bindingsFor (knownBuildJobs templates front) component).map Binding.buildJob).Nodup ↔
      (component.dependencies.map Dependency.name).Nodup := by
  rw [buildJobs_of_order order whole]
  constructor
  · exact List.Nodup.of_map _
  · apply List.Nodup.map_on
    intro one listed other alsoListed same
    obtain ⟨left, -, inLeft, rfl⟩ := exists_producer order whole listed
    obtain ⟨right, -, inRight, rfl⟩ := exists_producer order whole alsoListed
    rw [List.inj_on_of_nodup_map distinct inLeft inRight same]

/-- The build jobs of dependencies belong to components listed before. -/
theorem buildJobs_subset (order : Config.ComponentsInOrder components)
    (whole : components = front ++ component :: back)
    (inside : ∀ producer ∈ components,
      buildJobId templates producer ∈ blockIds templates producer) :
    (bindingsFor (knownBuildJobs templates front) component).map Binding.buildJob ⊆
      front.flatMap (blockIds templates) := by
  rw [buildJobs_of_order order whole]
  intro need bound
  obtain ⟨name, named, rfl⟩ := List.mem_map.mp bound
  obtain ⟨producer, inFront, listed, rfl⟩ := exists_producer order whole named
  exact List.mem_flatMap.mpr ⟨producer, inFront, inside producer listed⟩

/-! ### The first and the last jobs -/

theorem nodup_needs_of_prefix {earlier later : List (String × Job)} {own : Job}
    (entries : result.jobs.entries = earlier ++ (id, own) :: later)
    (needs : own.needs <+: earlier.map Prod.fst) (there : result.jobs.get? id = some job) :
    job.needs.Nodup := by
  have stands : result.jobs.get? id = some own := by
    rw [OrderedMap.get?_eq_some_iff, entries]
    exact List.mem_append_right _ List.mem_cons_self
  cases there.symm.trans stands
  have distinct := result.jobs.keys_nodup
  unfold OrderedMap.keys at distinct
  rw [entries, List.map_append] at distinct
  exact (List.nodup_append.mp distinct).1.sublist needs.sublist

/-- The job that cancels earlier runs needs nothing. -/
theorem needs_cancelJob (done : workflow trigger repository templates options = .ok result)
    (there : result.jobs.get? cancelJobId = some job) : job.needs = [] := by
  obtain ⟨members, -, made⟩ := workflow_ok done
  obtain ⟨own, same, stands⟩ := placed_of_makes made _ List.mem_cons_self
  cases same
  cases there.symm.trans stands
  rfl

/-- A job of no component needs nothing twice. -/
theorem nodup_needs_of_outside (done : workflow trigger repository templates options = .ok result)
    (there : result.jobs.get? id = some job)
    (outside : id ∉ trigger.components.flatMap (blockIds templates)) : job.needs.Nodup := by
  obtain ⟨front, ended, reported, ids, laid⟩ := laidOut_of_workflow done
  have key : id ∈ result.jobs.keys := OrderedMap.mem_keys_iff.mpr ⟨job, there⟩
  rw [laid.keys, ids] at key
  simp only [List.mem_append, or_assoc] at key
  rcases key with inFront | isEnd | isStatus | isReport | isCleanup
  · rcases List.mem_cons.mp inFront with rfl | inBlock
    · rw [needs_cancelJob done there]
      exact List.nodup_nil
    · exact absurd inBlock outside
  · split at isEnd
    · rename_i given
      obtain ⟨configured, given⟩ := Option.isSome_iff_exists.mp given
      obtain ⟨own, -, earlier, later, entries, needs⟩ := laid.endJob given
      cases List.mem_singleton.mp isEnd
      exact nodup_needs_of_prefix entries (needs ▸ List.prefix_rfl) there
    · cases isEnd
  · obtain ⟨own, ⟨earlier, later, entries, needs⟩, -⟩ := laid.statusRead
    cases List.mem_singleton.mp isStatus
    exact nodup_needs_of_prefix entries (needs ▸ List.prefix_rfl) there
  · split at isReport
    · rename_i enabled
      obtain ⟨earlier, later, entries⟩ := laid.reportEntries enabled
      simp only [List.mem_cons, List.not_mem_nil, or_false] at isReport
      rcases isReport with rfl | rfl
      · exact nodup_needs_of_prefix entries List.prefix_rfl there
      · -- the first report stands before the second one, which does not need it
        rw [List.append_cons] at entries
        apply nodup_needs_of_prefix entries _ there
        rw [List.map_append]
        exact List.prefix_append _ _
    · cases isReport
  · obtain ⟨earlier, own, entries, needs, -⟩ := laid.cleanup
    cases List.mem_singleton.mp isCleanup
    exact nodup_needs_of_prefix entries (needs ▸ List.prefix_rfl) there

/-! ### Whole workflows -/

/-- The lists that the needs of a job are put together from do not meet. -/
theorem nodup_needs_iff {start : List String} (order : Config.ComponentsInOrder components)
    (whole : components = front ++ component :: back)
    (fresh : (frontIds templates components).Nodup)
    (builds : (components.map (buildJobId templates)).Nodup)
    (inside : ∀ producer ∈ components,
      buildJobId templates producer ∈ blockIds templates producer)
    (isFirst : start.Sublist [cancelJobId]) (own : siblings ⊆ blockIds templates component) :
    (start ++ (bindingsFor (knownBuildJobs templates front) component).map Binding.buildJob ++
        siblings).Nodup ↔
      (component.dependencies.map Dependency.name).Nodup ∧ siblings.Nodup := by
  have bound := buildJobs_subset order whole inside
  unfold frontIds at fresh
  rw [whole, List.flatMap_append, List.flatMap_cons, ← List.cons_append, ← List.append_assoc]
    at fresh
  have upTo : (cancelJobId :: front.flatMap (blockIds templates) ++
      blockIds templates component).Nodup := (List.nodup_append.mp fresh).1
  have before : ([cancelJobId] ++ front.flatMap (blockIds templates)).Nodup :=
    (List.nodup_append.mp upTo).1
  have first : start ++ (bindingsFor (knownBuildJobs templates front) component).map
      Binding.buildJob ⊆ cancelJobId :: front.flatMap (blockIds templates) :=
    List.append_subset.mpr ⟨fun need isStart => List.mem_cons.mpr
      (.inl (List.mem_singleton.mp (isFirst.subset isStart))), List.subset_cons_of_subset _ bound⟩
  have single : start.Nodup := (List.nodup_singleton cancelJobId).sublist isFirst
  rw [nodup_append_iff_of_subset upTo first own,
    nodup_append_iff_of_subset before isFirst.subset bound, and_iff_right single,
    nodup_buildJobs_iff order whole builds]

theorem buildJobId_mem_of_workflow (reads : templates.ReadsTexts)
    (done : workflow trigger repository templates options = .ok result)
    (listed : component ∈ trigger.components) :
    buildJobId templates component ∈ blockIds templates component := by
  obtain ⟨members, all, -⟩ := workflow_ok done
  obtain ⟨member, -, loads⟩ := exists_of_mem_left all component listed
  exact buildJobId_mem_blockIds reads loads

theorem nodup_needs_iff_of_run {document : Yaml.Value}
    (accepted : Config.Trigger.read document = .ok trigger) (reads : templates.ReadsTexts)
    (done : workflow trigger repository templates options = .ok result)
    (listed : component ∈ trigger.components) (own : (id, siblings) ∈ runNeeds templates component)
    (there : result.jobs.get? id = some job) :
    job.needs.Nodup ↔ (component.dependencies.map Dependency.name).Nodup ∧ siblings.Nodup := by
  obtain ⟨front, back, whole⟩ := List.append_of_mem listed
  obtain ⟨member, loads, placed⟩ := placed_of_workflow done whole
  obtain ⟨start, isFirst, needs⟩ := needs_of_runNeeds loads placed own there
  rw [needs]
  exact nodup_needs_iff (Config.Trigger.read_ok accepted) whole (frontIds_nodup done)
    (buildJobs_nodup reads done) (fun _ listed => buildJobId_mem_of_workflow reads done listed)
    isFirst (siblings_subset_blockIds reads loads own)

/-- The end job of a component and the jobs of the workflow itself need nothing twice. -/
theorem nodup_needs_of_apart (reads : templates.ReadsTexts)
    (done : workflow trigger repository templates options = .ok result)
    (apart : ∀ component ∈ trigger.components, ∀ siblings,
      (id, siblings) ∉ runNeeds templates component)
    (there : result.jobs.get? id = some job) : job.needs.Nodup := by
  by_cases inBlock : id ∈ trigger.components.flatMap (blockIds templates)
  · obtain ⟨component, listed, ofComponent⟩ := List.mem_flatMap.mp inBlock
    obtain ⟨front, back, whole⟩ := List.append_of_mem listed
    obtain ⟨member, loads, placed⟩ := placed_of_workflow done whole
    exact nodup_needs_of_endJob reads loads placed ofComponent (apart component listed) there
  · exact nodup_needs_of_outside done there inBlock

/-- A job of a compiled workflow needs nothing twice exactly if it runs no build, or neither its
component lists a dependency twice nor the job a sibling. -/
theorem needs_distinct_iff {document : Yaml.Value}
    (accepted : Config.Trigger.read document = .ok trigger) (reads : templates.ReadsTexts)
    (done : workflow trigger repository templates options = .ok result) :
    ∀ id job, result.jobs.get? id = some job →
      (job.needs.Nodup ↔
        ∀ component ∈ trigger.components, ∀ siblings, (id, siblings) ∈ runNeeds templates component →
          (component.dependencies.map Dependency.name).Nodup ∧ siblings.Nodup) := by
  intro id job there
  constructor
  · intro distinct component listed siblings own
    exact (nodup_needs_iff_of_run accepted reads done listed own there).mp distinct
  · intro each
    by_cases runs : ∃ component ∈ trigger.components, ∃ siblings,
        (id, siblings) ∈ runNeeds templates component
    · obtain ⟨component, listed, siblings, own⟩ := runs
      exact (nodup_needs_iff_of_run accepted reads done listed own there).mpr
        (each component listed siblings own)
    · apply nodup_needs_of_apart reads done _ there
      intro component listed siblings own
      exact runs ⟨component, listed, siblings, own⟩

/-- One component lists a dependency twice, with different properties; the other has a template. -/
def twiceDocument : Yaml.Value :=
  .mapping [
    (.string "name", .string "nightly"),
    (.string "components", .sequence [
      .mapping [(.string "name", .string "core"), (.string "org", .string "org"),
        (.string "branch", .string "main")],
      .mapping [(.string "name", .string "app"), (.string "org", .string "org"),
        (.string "branch", .string "main"), (.string "dependencies", .sequence [
          .mapping [(.string "name", .string "core"), (.string "property", .string "one")],
          .mapping [(.string "name", .string "core"), (.string "property", .string "two")]])],
      .mapping [(.string "name", .string "tool"), (.string "org", .string "org"),
        (.string "branch", .string "main"), (.string "dependencies", .sequence [
          .mapping [(.string "name", .string "core"), (.string "property", .string "one")]])]])]

/-- A job lists a sibling twice. -/
def twiceTemplates : MemoryTemplates :=
  .ofList [("tool",
    "build-job: jar\njobs:\n  jar:\n    run:\n    - mvn: install\n" ++
    "  test:\n    needs: [jar, jar]\n    run:\n    - mvn: verify\n")]

theorem needs_of_twice_distinct_iff : ∃ trigger result,
    Config.Trigger.read twiceDocument = .ok trigger ∧ twiceTemplates.load.ReadsTexts ∧
    workflow trigger .default twiceTemplates.load (.ofBranch "side" 1) = .ok result ∧
      ∀ id job, result.jobs.get? id = some job →
        (job.needs.Nodup ↔
          ∀ component ∈ trigger.components, ∀ siblings,
            (id, siblings) ∈ runNeeds twiceTemplates.load component →
              (component.dependencies.map Dependency.name).Nodup ∧ siblings.Nodup) := by
  have compiled : ((Config.Trigger.read twiceDocument).toOption.bind fun trigger =>
      (workflow trigger .default twiceTemplates.load (.ofBranch "side" 1)).toOption).isSome = true := by
    decide +kernel
  obtain ⟨result, compiled⟩ := Option.isSome_iff_exists.mp compiled
  obtain ⟨trigger, read, done⟩ := Option.bind_eq_some_iff.mp compiled
  have accepted := except_eq_ok read
  have reads := MemoryTemplates.readsTexts twiceTemplates
  have compiles := except_eq_ok done
  exact ⟨trigger, result, accepted, reads, compiles, needs_distinct_iff accepted reads compiles⟩

/-- The build job of a dependency that is listed twice is needed twice, and so is a sibling. -/
theorem dependency_listed_twice_is_needed_twice : ∃ trigger result build test,
    Config.Trigger.read twiceDocument = .ok trigger ∧
    workflow trigger .default twiceTemplates.load (.ofBranch "side" 1) = .ok result ∧
      result.jobs.get? "app-build" = some build ∧
      build.needs = ["cancel-previous-runs", "core-build", "core-build"] ∧ ¬ build.needs.Nodup ∧
      result.jobs.get? "tool-test" = some test ∧
      test.needs = ["core-build", "tool-jar", "tool-jar"] ∧ ¬ test.needs.Nodup := by
  have compiled : ((Config.Trigger.read twiceDocument).toOption.bind fun trigger =>
      (workflow trigger .default twiceTemplates.load (.ofBranch "side" 1)).toOption).map
        (fun result => ((result.jobs.get? "app-build").map Job.needs,
          (result.jobs.get? "tool-test").map Job.needs)) =
      some (some ["cancel-previous-runs", "core-build", "core-build"],
        some ["core-build", "tool-jar", "tool-jar"]) := by
    decide +kernel
  obtain ⟨result, compiled, same⟩ := Option.map_eq_some_iff.mp compiled
  obtain ⟨trigger, read, done⟩ := Option.bind_eq_some_iff.mp compiled
  obtain ⟨ofBuild, ofTest⟩ := Prod.mk.inj same
  obtain ⟨build, buildThere, buildNeeds⟩ := Option.map_eq_some_iff.mp ofBuild
  obtain ⟨test, testThere, testNeeds⟩ := Option.map_eq_some_iff.mp ofTest
  refine ⟨trigger, result, build, test, except_eq_ok read, except_eq_ok done, buildThere, buildNeeds,
    ?_, testThere, testNeeds, ?_⟩
  · rw [buildNeeds]
    decide
  · rw [testNeeds]
    decide

end CrossBuild.Compile
