/-
Reading a workflow back from its tree.

The tree leaves out what is empty or absent, and a step's other keys stand in the same mapping as
its known ones. Nothing is lost by this: a workflow can be read back from its tree, as long as no
step holds a known key among its other ones. The reader is made for trees that were written; what it
makes of other trees is of no interest here, and neither is the text of a tree.
-/

import CrossBuild.Proofs.Workflow.UserSteps

namespace CrossBuild

open Yaml (Value)

variable {α β : Type}

/-! ### Reading parts of a tree -/

/-- The entries of a mapping with string keys. -/
def pairsOf? : Value → Option (List (String × Value))
  | .mapping entries => Step.readEntries? entries
  | _ => none

def textOf? : Value → Option String
  | .string text => some text
  | _ => none

def sequenceOf? (read : Value → Option α) : Value → Option (List α)
  | .sequence items => items.mapM read
  | _ => none

def mapOf? (read : Value → Option β) (value : Value) : Option (OrderedMap β) := do
  let pairs ← pairsOf? value
  let entries ← pairs.mapM fun pair => (read pair.2).map fun content => (pair.1, content)
  return .ofList entries

/-- Read what stands under a key, where nothing stands for `absent`. -/
def partOr? (absent : α) (read : Value → Option α) (pairs : List (String × Value)) (key : String) :
    Option α :=
  match pairs.lookup key with
  | some value => read value
  | none => some absent

def textPart? (pairs : List (String × Value)) (key : String) : Option (Option String) :=
  partOr? none (fun value => (textOf? value).map some) pairs key

def envPart? (pairs : List (String × Value)) (key : String) : Option Env :=
  partOr? .empty (mapOf? textOf?) pairs key

/-- The known keys are read as those of a document; the values of the others may be anything. -/
def Step.ofTree? (tree : Value) : Option Step := do
  let pairs ← pairsOf? tree
  let known := pairs.filter fun pair => !isOther pair
  let step ← Step.ofValue? (.mapping (known.map fun pair => entry pair.1 pair.2))
  return { step with extra := .ofList (pairs.filter isOther) }

def RunsOn.ofTree? : Value → Option RunsOn
  | .string name => some (.label name)
  | value => (sequenceOf? textOf? value).map .labels

def Job.ofTree? (tree : Value) : Option Job := do
  let pairs ← pairsOf? tree
  return {
    name := ← textPart? pairs "name"
    runsOn := ← (pairs.lookup "runs-on").bind RunsOn.ofTree?
    needs := ← partOr? [] (sequenceOf? textOf?) pairs "needs"
    condition := ← textPart? pairs "if"
    env := ← envPart? pairs "env"
    outputs := ← envPart? pairs "outputs"
    steps := ← (pairs.lookup "steps").bind (sequenceOf? Step.ofTree?) }

/-- The branches of a trigger, if pushes count at all. -/
def branchesOfTree? (tree : Value) : Option (Option (List String)) := do
  let pairs ← pairsOf? tree
  partOr? none (fun push => do
    let inner ← pairsOf? push
    (partOr? [] (sequenceOf? textOf?) inner "branches").map some) pairs "push"

def Workflow.ofTree? (tree : Value) : Option Workflow := do
  let pairs ← pairsOf? tree
  return {
    name := ← (pairs.lookup "name").bind textOf?
    pushBranches := ← (pairs.lookup "on").bind branchesOfTree?
    env := ← envPart? pairs "env"
    jobs := ← (pairs.lookup "jobs").bind (mapOf? Job.ofTree?) }

/-- No step has a known key among its other ones. -/
def Workflow.KnownKeysApart (workflow : Workflow) : Prop :=
  ∀ item ∈ workflow.jobs.entries, ∀ step ∈ item.2.steps, ∀ key : Step.Key,
    key.text ∉ step.extra.keys

/-! ### What is read is what was written -/

theorem mapM_map_eq_some {read : β → Option α} {write : α → β} {items : List α}
    (again : ∀ item ∈ items, read (write item) = some item) :
    (items.map write).mapM read = some items := by
  induction items with
  | nil => rfl
  | cons first rest ih =>
      rw [List.forall_mem_cons] at again
      rw [List.map_cons, List.mapM_cons, again.1, ih again.2]
      rfl

theorem sequenceOf?_sequence {read : Value → Option α} {write : α → Value} {items : List α}
    (again : ∀ item ∈ items, read (write item) = some item) :
    sequenceOf? read (.sequence (items.map write)) = some items :=
  mapM_map_eq_some again

theorem textsOf?_sequence (texts : List String) :
    sequenceOf? textOf? (.sequence (texts.map .string)) = some texts :=
  sequenceOf?_sequence fun _ _ => rfl

theorem mapOf?_mapping {read : Value → Option β} {write : β → Value} {map : OrderedMap β}
    (again : ∀ item ∈ map.entries, read (write item.2) = some item.2) :
    mapOf? read (.mapping (map.entries.map fun item => entry item.1 (write item.2))) = some map := by
  have entries : (map.entries.map fun item => entry item.1 (write item.2)) =
      (map.entries.map fun item => (item.1, write item.2)).map fun pair => entry pair.1 pair.2 := by
    rw [List.map_map]
    rfl
  have items : (map.entries.map fun item => (item.1, write item.2)).mapM
      (fun pair => (read pair.2).map fun content => (pair.1, content)) = some map.entries := by
    apply mapM_map_eq_some
    intro item listed
    simp only [again item listed, Option.map_some]
  unfold mapOf? pairsOf?
  rw [entries]
  simp only [Step.readEntries?_entries, Option.bind_eq_bind, Option.bind_some, items]
  exact congrArg some map.ofList_entries

/-! ### Entries that may be left out -/

/-- Keys with the values that stand under them, if any does. -/
abbrev Parts := List (String × Option Value)

namespace Parts

variable {parts : Parts} {key : String} {value : Option Value}

/-- The pairs of the keys that have a value. -/
def pairs (parts : Parts) : List (String × Value) :=
  parts.flatMap fun part => (part.2.map fun value => (part.1, value)).toList

def toValue (parts : Parts) : Value :=
  .mapping (parts.pairs.map fun pair => entry pair.1 pair.2)

theorem pairsOf?_toValue (parts : Parts) : pairsOf? parts.toValue = some parts.pairs :=
  Step.readEntries?_entries parts.pairs

theorem lookup_pairs_of_notMem (absent : key ∉ parts.map Prod.fst) :
    parts.pairs.lookup key = none := by
  rw [List.lookup_eq_none_iff]
  intro pair listed
  obtain ⟨part, own, inside⟩ := List.mem_flatMap.mp listed
  obtain ⟨value, -, rfl⟩ := Option.map_eq_some_iff.mp (Option.mem_toList.mp inside)
  have apart : key ≠ part.1 := fun same => absent (same ▸ List.mem_map_of_mem own)
  simpa using apart

/-- Under a key stands what was put there, if the keys are different. -/
theorem lookup_pairs (distinct : (parts.map Prod.fst).Nodup) (listed : (key, value) ∈ parts) :
    parts.pairs.lookup key = value := by
  induction parts with
  | nil => cases listed
  | cons part rest ih =>
      obtain ⟨fresh, distinct⟩ := List.nodup_cons.mp distinct
      have front : pairs (part :: rest) =
          (part.2.map fun value => (part.1, value)).toList ++ pairs rest := List.flatMap_cons
      rcases List.mem_cons.mp listed with rfl | later
      · rw [front]
        cases value with
        | none => exact lookup_pairs_of_notMem fresh
        | some content => exact List.lookup_cons_self
      · have apart : (key == part.1) = false := by
          rw [beq_eq_false_iff_ne]
          exact fun same => fresh (same ▸ List.mem_map_of_mem later)
        rw [front, List.lookup_append, ih distinct later]
        cases part.2 with
        | none => rfl
        | some content => simp [List.lookup_cons, apart]

end Parts

def listValue? : List String → Option Value
  | [] => none
  | items => some (.sequence (items.map .string))

def envValue? (env : Env) : Option Value :=
  if env.isEmpty then none
  else some (.mapping (env.entries.map fun item => entry item.1 (.string item.2)))

theorem listEntry_eq (key : String) (items : List String) :
    listEntry key items = (Parts.pairs [(key, listValue? items)]).map
      fun pair => entry pair.1 pair.2 := by
  cases items <;> rfl

theorem envEntry_eq (key : String) (env : Env) :
    mapEntry .string key env = (Parts.pairs [(key, envValue? env)]).map
      fun pair => entry pair.1 pair.2 := by
  unfold mapEntry envValue?
  split <;> rfl

section Part

variable {pairs : List (String × Value)} {key : String}

theorem textPart?_eq {text : Option String} (found : pairs.lookup key = text.map .string) :
    textPart? pairs key = some text := by
  unfold textPart? partOr?
  rw [found]
  cases text <;> rfl

theorem listPart?_eq {items : List String} (found : pairs.lookup key = listValue? items) :
    partOr? [] (sequenceOf? textOf?) pairs key = some items := by
  unfold partOr?
  rw [found]
  cases items with
  | nil => rfl
  | cons first rest => exact textsOf?_sequence (first :: rest)

theorem envPart?_eq {env : Env} (found : pairs.lookup key = envValue? env) :
    envPart? pairs key = some env := by
  unfold envPart? partOr?
  rw [found]
  unfold envValue?
  split
  · rename_i isEmpty
    split at isEmpty
    · cases isEmpty
    · cases isEmpty
      exact mapOf?_mapping fun _ _ => rfl
  · rename_i isEmpty
    split at isEmpty
    · rename_i none
      exact congrArg some (OrderedMap.eq_of_entries (List.isEmpty_iff.mp none).symm)
    · cases isEmpty

end Part

/-! ### Steps -/

namespace Step

theorem ofTree?_toValue {step : Step} (apart : ∀ key : Key, key.text ∉ step.extra.keys) :
    ofTree? step.toValue = some step := by
  have others : ∀ pair ∈ step.extra.entries, isOther pair = true := by
    intro pair listed
    rw [isOther_iff]
    exact fun key same => apart key (same ▸ List.mem_map_of_mem listed)
  have known : ∀ pair ∈ step.knownPairs, isOther pair = false :=
    fun _ listed => isOther_of_mem_knownPairs listed
  have knownOnly : (step.allPairs.filter fun pair => !isOther pair) = step.knownPairs := by
    unfold allPairs
    rw [List.filter_append, List.filter_eq_self.mpr, List.filter_eq_nil_iff.mpr, List.append_nil]
    · intro pair listed
      simp [others pair listed]
    · intro pair listed
      simp [known pair listed]
  have othersOnly : step.allPairs.filter isOther = step.extra.entries := by
    unfold allPairs
    rw [List.filter_append, List.filter_eq_nil_iff.mpr, List.filter_eq_self.mpr others,
      List.nil_append]
    intro pair listed
    simp [known pair listed]
  -- without its other entries the step is written as its known pairs, and read again
  have bare : ofValue? (.mapping (step.knownPairs.map fun pair => entry pair.1 pair.2)) =
      some { step with extra := .empty } := by
    have written : ({ step with extra := .empty } : Step).toValue =
        .mapping (step.knownPairs.map fun pair => entry pair.1 pair.2) := by
      rw [toValue_eq]
      exact congrArg (fun pairs => Value.mapping (pairs.map fun pair => entry pair.1 pair.2))
        (List.append_nil step.knownPairs)
    rw [← written]
    exact ofValue?_toValue (fun _ absent => nomatch absent) fun _ absent => nomatch absent
  rw [toValue_eq]
  unfold ofTree? pairsOf?
  simp only [readEntries?_entries, Option.bind_eq_bind, Option.bind_some, knownOnly, othersOnly, bare]
  exact congrArg (fun extra => some { step with extra }) step.extra.ofList_entries

end Step

/-! ### Jobs and workflows -/

theorem RunsOn.ofTree?_toValue (machines : RunsOn) : ofTree? machines.toValue = some machines := by
  cases machines with
  | label name => rfl
  | labels names =>
      change (sequenceOf? textOf? (.sequence (names.map .string))).map RunsOn.labels = _
      rw [textsOf?_sequence, Option.map_some]

namespace Job

def parts (job : Job) : Parts :=
  [("name", job.name.map .string), ("runs-on", some job.runsOn.toValue),
   ("needs", listValue? job.needs), ("if", job.condition.map .string), ("env", envValue? job.env),
   ("outputs", envValue? job.outputs), ("steps", some (.sequence (job.steps.map Step.toValue)))]

theorem toValue_eq (job : Job) : job.toValue = job.parts.toValue := by
  unfold toValue Parts.toValue parts
  simp only [Step.textEntry_eq, listEntry_eq, envEntry_eq, Parts.pairs, List.flatMap_cons,
    List.flatMap_nil, List.map_append, List.append_assoc, List.append_nil]
  rfl

theorem nodup_keys (job : Job) : (job.parts.map Prod.fst).Nodup := by
  change ["name", "runs-on", "needs", "if", "env", "outputs", "steps"].Nodup
  decide

theorem ofTree?_toValue {job : Job}
    (apart : ∀ step ∈ job.steps, ∀ key : Step.Key, key.text ∉ step.extra.keys) :
    ofTree? job.toValue = some job := by
  have found : job.parts.Forall fun part => job.parts.pairs.lookup part.1 = part.2 := by
    rw [List.forall_iff_forall_mem]
    exact fun _ listed => Parts.lookup_pairs job.nodup_keys listed
  obtain ⟨name, machines, needs, condition, env, outputs,
    (steps : job.parts.pairs.lookup "steps" = _)⟩ := found
  have stepsAgain : sequenceOf? Step.ofTree? (.sequence (job.steps.map Step.toValue)) =
      some job.steps :=
    sequenceOf?_sequence fun step listed => Step.ofTree?_toValue (apart step listed)
  unfold ofTree?
  rw [toValue_eq, Parts.pairsOf?_toValue]
  simp only [Option.bind_eq_bind, Option.bind_some, textPart?_eq name, machines,
    RunsOn.ofTree?_toValue, listPart?_eq needs, textPart?_eq condition, envPart?_eq env,
    envPart?_eq outputs, steps, stepsAgain]
  rfl

end Job

theorem branchesOfTree?_triggerValue (branches : Option (List String)) :
    branchesOfTree? (triggerValue branches) = some branches := by
  cases branches with
  | none => rfl
  | some branches =>
      have written : triggerValue (some branches) =
          Parts.toValue [("push", some (Parts.toValue [("branches", listValue? branches)]))] := by
        change Value.mapping [entry "push" (.mapping (listEntry "branches" branches))] = _
        rw [listEntry_eq]
        rfl
      have inner : (Parts.pairs [("branches", listValue? branches)]).lookup "branches" =
          listValue? branches := Parts.lookup_pairs (by simp) List.mem_cons_self
      unfold branchesOfTree?
      rw [written, Parts.pairsOf?_toValue, Option.bind_eq_bind, Option.bind_some]
      unfold partOr?
      rw [Parts.lookup_pairs (by simp) List.mem_cons_self]
      dsimp only
      rw [Parts.pairsOf?_toValue, Option.bind_some]
      exact congrArg (Option.map some) (listPart?_eq inner)

namespace Workflow

def parts (workflow : Workflow) : Parts :=
  [("name", some (.string workflow.name)), ("on", some (triggerValue workflow.pushBranches)),
   ("env", envValue? workflow.env),
   ("jobs", some (.mapping (workflow.jobs.entries.map fun item => entry item.1 item.2.toValue)))]

theorem toValue_eq (workflow : Workflow) : workflow.toValue = workflow.parts.toValue := by
  unfold toValue Parts.toValue parts
  simp only [envEntry_eq, Parts.pairs, List.flatMap_cons, List.flatMap_nil, List.map_append,
    List.append_assoc, List.append_nil]
  rfl

theorem nodup_keys (workflow : Workflow) : (workflow.parts.map Prod.fst).Nodup := by
  change ["name", "on", "env", "jobs"].Nodup
  decide

theorem ofTree?_toValue {workflow : Workflow} (apart : workflow.KnownKeysApart) :
    ofTree? workflow.toValue = some workflow := by
  have found : workflow.parts.Forall fun part =>
      workflow.parts.pairs.lookup part.1 = part.2 := by
    rw [List.forall_iff_forall_mem]
    exact fun _ listed => Parts.lookup_pairs workflow.nodup_keys listed
  obtain ⟨name, trigger, env, (jobs : workflow.parts.pairs.lookup "jobs" = _)⟩ := found
  have jobsAgain : mapOf? Job.ofTree?
      (.mapping (workflow.jobs.entries.map fun item => entry item.1 item.2.toValue)) =
        some workflow.jobs :=
    mapOf?_mapping fun item listed => Job.ofTree?_toValue (apart item listed)
  unfold ofTree?
  rw [toValue_eq, Parts.pairsOf?_toValue]
  simp only [Option.bind_eq_bind, Option.bind_some, name, trigger, branchesOfTree?_triggerValue,
    envPart?_eq env, jobs, jobsAgain]
  rfl

/-- A workflow can be read back from its tree, so different workflows have different trees. -/
theorem tree_determines_workflow :
    (∀ workflow : Workflow, workflow.KnownKeysApart →
      ofTree? workflow.toValue = some workflow) ∧
    ∀ left right : Workflow, left.KnownKeysApart → right.KnownKeysApart →
      left.toValue = right.toValue → left = right := by
  constructor
  · intro workflow apart
    exact ofTree?_toValue apart
  · intro left right leftApart rightApart same
    apply Option.some.inj
    calc some left = ofTree? left.toValue := (ofTree?_toValue leftApart).symm
      _ = ofTree? right.toValue := by rw [same]
      _ = some right := ofTree?_toValue rightApart

/-- A workflow whose parts are as empty as they can be: pushes to any branch count, the only label
of a machine is in a list, and the step has nothing but a tagged entry of its own. -/
def bare : Workflow :=
  { name := ""
    pushBranches := some []
    env := .empty
    jobs := .ofList [("build", {
      Job.onMachine (.labels ["linux"]) with
        steps := [{ Step.empty with extra := .ofList [("timeout", .tagged "after" .null)] }] })] }

theorem bare_is_read_back :
    bare.KnownKeysApart ∧ { bare with pushBranches := none }.KnownKeysApart ∧
      ofTree? bare.toValue = some bare ∧
      { bare with pushBranches := none }.toValue ≠ bare.toValue := by
  have apart : bare.KnownKeysApart := by
    intro item listed step inside key
    cases List.mem_singleton.mp listed
    cases List.mem_singleton.mp inside
    cases key <;> decide
  have other : { bare with pushBranches := none }.KnownKeysApart := apart
  refine ⟨apart, other, tree_determines_workflow.1 bare apart, ?_⟩
  intro same
  have equal := tree_determines_workflow.2 _ _ other apart same
  exact absurd (congrArg pushBranches equal) (by decide)

end Workflow

end CrossBuild
