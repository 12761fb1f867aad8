/-
Invocations of the build tool as the shell reads them.

The build commands of a job are put together from texts that users write: goals, options, the names
of properties and the keys of jobs. A line break in one of them ends the command of the shell, unless
a backslash stands before it. Here it is said exactly when an invocation with its options for all
versions is one command, and what is left of it otherwise. Quotes of the shell are not looked at.
-/

import CrossBuild.Proofs.Compile.Versions

namespace CrossBuild.Compile

open Config (Component RunElement)
open Runs

/-! ### Lines of the shell -/

/-- Before each line break of the text stands a backslash, so none of them ends a command. -/
def OneLine (text : String) : Prop :=
  ∀ front back, text.toList = front ++ '\n' :: back → front.getLast? = some '\\'

/-- What is read as one command, behind a backslash or not: all up to the first line break that ends
it. -/
def lineFrom (escaped : Bool) : List Char → List Char
  | [] => []
  | char :: rest =>
      if char = '\n' && !escaped then [] else char :: lineFrom (char = '\\') rest

def commandLine (text : String) : String :=
  String.ofList (lineFrom false text.toList)

/-- A backslash stands at the end, or before the text where that is empty. -/
def endsEscaped (escaped : Bool) (chars : List Char) : Bool :=
  (chars.getLast?.map fun char => decide (char = '\\')).getD escaped

variable {escaped : Bool} {front back : List Char} {text other : String}

theorem endsEscaped_cons (char : Char) (rest : List Char) :
    endsEscaped escaped (char :: rest) = endsEscaped (char = '\\') rest := by
  unfold endsEscaped
  rw [List.getLast?_cons]
  cases rest.getLast? <;> rfl

/-- A command takes the whole text when each line break stands behind a backslash. -/
theorem lineFrom_eq_self_iff {chars : List Char} : lineFrom escaped chars = chars ↔
    ∀ front back, chars = front ++ '\n' :: back → endsEscaped escaped front = true := by
  induction chars generalizing escaped with
  | nil => simp [lineFrom]
  | cons char rest ih =>
      by_cases ends : char = '\n' ∧ escaped = false
      · obtain ⟨rfl, rfl⟩ := ends
        constructor
        · intro same
          cases same
        · intro all
          cases all [] rest rfl
      · have goesOn : ¬ (decide (char = '\n') && !escaped) = true := by simpa using ends
        rw [lineFrom, if_neg goesOn, List.cons.injEq, ih]
        constructor
        · intro ⟨_, later⟩ front back whole
          cases front with
          | nil =>
              cases whole
              simpa [endsEscaped] using ends
          | cons first front =>
              cases whole
              rw [endsEscaped_cons]
              exact later front back rfl
        · intro all
          constructor
          · rfl
          · intro front back whole
            rw [← endsEscaped_cons]
            exact all (char :: front) back (by rw [whole, List.cons_append])

theorem endsEscaped_false_iff {chars : List Char} :
    endsEscaped false chars = true ↔ chars.getLast? = some '\\' := by
  unfold endsEscaped
  cases chars.getLast? with
  | none => simp
  | some char => simp

theorem oneLine_iff : OneLine text ↔ lineFrom false text.toList = text.toList := by
  unfold OneLine
  simp only [lineFrom_eq_self_iff, endsEscaped_false_iff]

instance (text : String) : Decidable (OneLine text) :=
  decidable_of_iff _ oneLine_iff.symm

/-- Behind a text without an end of the command the command goes on. -/
theorem lineFrom_append (whole : lineFrom escaped front = front) :
    lineFrom escaped (front ++ back) = front ++ lineFrom (endsEscaped escaped front) back := by
  induction front generalizing escaped with
  | nil => rfl
  | cons char rest ih =>
      rw [lineFrom] at whole
      split at whole
      · cases whole
      · rename_i goesOn
        rw [List.cons.injEq] at whole
        rw [List.cons_append, lineFrom, if_neg goesOn, ih whole.2, endsEscaped_cons,
          List.cons_append]

/-- What stands behind the end of the command is not read with it. -/
theorem lineFrom_append_of_ne (broken : lineFrom escaped front ≠ front) :
    lineFrom escaped (front ++ back) = lineFrom escaped front := by
  induction front generalizing escaped with
  | nil => exact absurd rfl broken
  | cons char rest ih =>
      rw [lineFrom] at broken
      rw [List.cons_append, lineFrom, lineFrom]
      split
      · rfl
      · rename_i goesOn
        rw [if_neg goesOn] at broken
        rw [ih fun same => broken (by rw [same])]

/-! ### Texts put together -/

theorem lineFrom_of_head? {chars : List Char} (start : chars.head? ≠ some '\n') :
    lineFrom escaped chars = lineFrom false chars := by
  cases chars with
  | nil => rfl
  | cons char rest =>
      have apart : char ≠ '\n' := by simpa using start
      simp [lineFrom, apart]

theorem OneLine.shorter (whole : OneLine (text ++ other)) : OneLine text := by
  intro front back same
  apply whole front (back ++ other.toList)
  rw [String.toList_append, same, List.append_assoc, List.cons_append]

/-- Texts that do not meet in a line break behind a backslash have the lines that each of them has. -/
theorem oneLine_append (apart : text.toList.getLast? ≠ some '\\' ∨ other.toList.head? ≠ some '\n') :
    OneLine (text ++ other) ↔ OneLine text ∧ OneLine other := by
  have later : OneLine text → (OneLine (text ++ other) ↔ OneLine other) := by
    intro first
    rw [oneLine_iff] at first
    have behind : lineFrom (endsEscaped false text.toList) other.toList =
        lineFrom false other.toList := by
      rcases apart with ended | start
      · rw [ne_eq, ← endsEscaped_false_iff, Bool.not_eq_true] at ended
        rw [ended]
      · exact lineFrom_of_head? start
    rw [oneLine_iff, oneLine_iff, String.toList_append, lineFrom_append first, behind,
      List.append_cancel_left_eq]
  constructor
  · intro whole
    exact ⟨whole.shorter, (later whole.shorter).mp whole⟩
  · intro ⟨first, second⟩
    exact (later first).mpr second

/-- A text that can stand between others without touching their lines. -/
structure IsMark (mark : String) : Prop where
  plain : '\n' ∉ mark.toList
  present : mark.toList.getLast? ≠ none
  closed : mark.toList.getLast? ≠ some '\\'

theorem IsMark.oneLine {mark : String} (own : IsMark mark) : OneLine mark := by
  intro front back same
  have inside : '\n' ∈ mark.toList := by
    rw [same]
    exact List.mem_append_right _ List.mem_cons_self
  exact absurd inside own.plain

theorem oneLine_append_mark {mark : String} (own : IsMark mark) :
    OneLine (text ++ mark) ↔ OneLine text := by
  have start : mark.toList.head? ≠ some '\n' := fun same => own.plain (List.mem_of_head? same)
  rw [oneLine_append (.inr start)]
  exact and_iff_left own.oneLine

theorem oneLine_around {mark : String} (own : IsMark mark) :
    OneLine (text ++ mark ++ other) ↔ OneLine text ∧ OneLine other := by
  have ended : (text ++ mark).toList.getLast? ≠ some '\\' := by
    rw [String.toList_append, List.getLast?_append]
    cases last : mark.toList.getLast? with
    | none => exact absurd last own.present
    | some char =>
        have apart := own.closed
        rw [last] at apart
        exact apart
  rw [oneLine_append (.inl ended), oneLine_append_mark own]

theorem oneLine_join {texts : List String} (starts : ∀ text ∈ texts, text.toList.head? = some ' ') :
    OneLine (String.join texts) ↔ ∀ text ∈ texts, OneLine text := by
  induction texts with
  | nil =>
      rw [String.join_nil]
      exact iff_of_true (by decide) fun _ absent => nomatch absent
  | cons first others ih =>
      rw [List.forall_mem_cons] at starts
      have start : (String.join others).toList.head? ≠ some '\n' := by
        cases others with
        | nil => decide
        | cons next _ =>
            rw [String.join_cons, String.toList_append, List.head?_append,
              starts.2 next List.mem_cons_self, Option.some_or]
            decide
      rw [String.join_cons, oneLine_append (.inr start), ih starts.2, List.forall_mem_cons]

/-- Dashes and underscores make no difference to lines. -/
theorem oneLine_underscored {name : String} : OneLine (underscored name) ↔ OneLine name := by
  have breaks : ∀ char : Char, (if char = '-' then '_' else char) = '\n' ↔ char = '\n' := by
    intro char
    by_cases dash : char = '-'
    · simp [dash]
    · simp [dash]
  have escapes : ∀ char : Char, (if char = '-' then '_' else char) = '\\' ↔ char = '\\' := by
    intro char
    by_cases dash : char = '-'
    · simp [dash]
    · simp [dash]
  unfold OneLine underscored
  rw [String.toList_map]
  constructor
  · intro all front back whole
    have last := all (front.map _) (back.map _) (by rw [whole, List.map_append, List.map_cons,
      (breaks '\n').mpr rfl])
    rw [List.getLast?_map, Option.map_eq_some_iff] at last
    obtain ⟨char, ended, same⟩ := last
    rw [ended, (escapes char).mp same]
  · intro all front back whole
    obtain ⟨before, rest, same, rfl, further⟩ := List.map_eq_append_iff.mp whole
    obtain ⟨char, after, rfl, own, rfl⟩ := List.map_eq_cons_iff.mp further
    rw [(breaks char).mp own] at same
    rw [List.getLast?_map, all before after same, Option.map_some, (escapes '\\').mpr rfl]

/-! ### Invocations -/

/-- The option that passes the version of a dependency on. -/
def versionOption (binding : Binding) : String :=
  " -D" ++ binding.property ++ "=\"$\x7b\x7b needs." ++ binding.buildJob ++ ".outputs.version_" ++
    underscored binding.component ++ " \x7d\x7d\""

/-- An invocation of the build tool: what is asked of it, and the options for all bindings. -/
def invocation (goals : String) (bindings : List Binding) : String :=
  "mvn -B " ++ goals ++ String.join (bindings.map versionOption)

/-- What stands in the option of a binding does not break the line. -/
structure Binding.OneLine (binding : Binding) : Prop where
  property : Compile.OneLine binding.property
  buildJob : Compile.OneLine binding.buildJob
  component : Compile.OneLine binding.component

/-- At this place of a script the build tool is invoked. The invocation is one line exactly if nothing
that was put into it breaks one, and then it is read as one command; if the goals break the line,
nothing behind them is read with it. -/
structure InvokesAt (script front back goals : String) (bindings : List Binding) : Prop where
  text : script = front ++ invocation goals bindings ++ back
  whole : OneLine (invocation goals bindings) ↔
    OneLine goals ∧ ∀ binding ∈ bindings, binding.OneLine
  read : bindings ≠ [] → (commandLine (invocation goals bindings ++ back) =
    invocation goals bindings ↔ OneLine (invocation goals bindings))
  lost : ¬ OneLine goals →
    commandLine (invocation goals bindings ++ back) = commandLine ("mvn -B " ++ goals)

variable {binding : Binding} {bindings : List Binding} {goals script : String}

theorem oneLine_versionOption : OneLine (versionOption binding) ↔ binding.OneLine := by
  have start : IsMark " -D" := by constructor <;> decide
  have equals : IsMark "=\"$\x7b\x7b needs." := by constructor <;> decide
  have output : IsMark ".outputs.version_" := by constructor <;> decide
  have ended : IsMark " \x7d\x7d\"" := by constructor <;> decide
  have property : OneLine (" -D" ++ binding.property) ↔ OneLine binding.property := by
    rw [oneLine_append (.inl start.closed)]
    exact and_iff_right start.oneLine
  unfold versionOption
  rw [oneLine_append_mark ended, oneLine_around output, oneLine_around equals, property,
    oneLine_underscored]
  constructor
  · intro ⟨⟨named, built⟩, depended⟩
    exact ⟨named, built, depended⟩
  · intro own
    exact ⟨⟨own.property, own.buildJob⟩, own.component⟩

theorem versionOption_eq (binding : Binding) : " " ++ binding.mavenProperty = versionOption binding := by
  unfold Binding.mavenProperty Binding.outputReference Binding.versionVariable versionVariable
    expression neededOutput versionOption
  apply String.toList_inj.mp
  simp

theorem head?_options : (String.join (bindings.map versionOption)).toList.head? ≠ some '\n' := by
  cases bindings with
  | nil => decide
  | cons binding rest => simp [versionOption, String.join_cons]

theorem head?_versionOption : (versionOption binding).toList.head? = some ' ' := by
  simp [versionOption]

theorem oneLine_invocation : OneLine (invocation goals bindings) ↔
    OneLine goals ∧ ∀ binding ∈ bindings, binding.OneLine := by
  have start : IsMark "mvn -B " := by constructor <;> decide
  unfold invocation
  rw [oneLine_append (.inr head?_options), oneLine_append (.inl start.closed), oneLine_join,
    and_iff_right start.oneLine, List.forall_mem_map]
  · simp only [oneLine_versionOption]
  · rw [List.forall_mem_map]
    exact fun binding _ => head?_versionOption

theorem getLast?_versionOption : (versionOption binding).toList.getLast? = some '"' := by
  unfold versionOption
  rw [String.toList_append, List.getLast?_append]
  rfl

theorem getLast?_invocation (present : bindings ≠ []) :
    (invocation goals bindings).toList.getLast? = some '"' := by
  obtain ⟨front, last, rfl⟩ := (List.eq_nil_or_concat bindings).resolve_left present
  unfold invocation
  rw [List.concat_eq_append, List.map_append, String.join_append, List.map_singleton,
    String.join_cons, String.join_nil, String.append_empty, ← String.append_assoc,
    String.toList_append, List.getLast?_append, getLast?_versionOption, Option.some_or]

/-! ### What is read of them -/

/-- A text that ends a command is read whole exactly if it is one line. -/
theorem commandLine_append {back : String} (ended : text.toList.getLast? ≠ some '\\')
    (stops : back = "" ∨ back.toList.head? = some '\n') :
    commandLine (text ++ back) = text ↔ OneLine text := by
  have nothing : lineFrom false back.toList = [] := by
    rcases stops with rfl | start
    · rfl
    · obtain ⟨rest, whole⟩ := List.head?_eq_some_iff.mp start
      rw [whole]
      rfl
  rw [ne_eq, ← endsEscaped_false_iff, Bool.not_eq_true] at ended
  unfold commandLine
  rw [oneLine_iff, ← String.toList_inj, String.toList_ofList, String.toList_append]
  constructor
  · intro same
    by_contra broken
    rw [lineFrom_append_of_ne broken] at same
    exact broken same
  · intro whole
    rw [lineFrom_append whole, ended, nothing, List.append_nil]

theorem commandLine_append_of_not {back : String} (broken : ¬ OneLine text) :
    commandLine (text ++ back) = commandLine text := by
  rw [oneLine_iff] at broken
  unfold commandLine
  rw [String.toList_append, lineFrom_append_of_ne broken]

theorem invokesAt {front back : String} (whole : script = front ++ invocation goals bindings ++ back)
    (stops : back = "" ∨ back.toList.head? = some '\n') :
    InvokesAt script front back goals bindings := by
  constructor
  case text => exact whole
  case whole => exact oneLine_invocation
  case read =>
    intro present
    have ended : (invocation goals bindings).toList.getLast? ≠ some '\\' := by
      rw [getLast?_invocation present]
      decide
    exact commandLine_append ended stops
  case lost =>
    intro broken
    have start : IsMark "mvn -B " := by constructor <;> decide
    have first : ¬ OneLine ("mvn -B " ++ goals) := by
      intro whole
      exact broken ((oneLine_append (.inl start.closed)).mp whole).2
    unfold invocation
    rw [String.append_assoc, commandLine_append_of_not first]

theorem mavenProperties_eq (bindings : List Binding) :
    mavenProperties bindings = String.join (bindings.map versionOption) := by
  unfold mavenProperties
  exact congrArg String.join (List.map_congr_left fun binding _ => versionOption_eq binding)

theorem templateBuildCommand_append (before after : List RunElement) :
    templateBuildCommand (before ++ .maven goals :: after) bindings =
      templateBuildCommand before bindings ++ invocation goals bindings ++
        ("\n" ++ templateBuildCommand after bindings) := by
  unfold templateBuildCommand Compile.script
  rw [List.map_append, List.map_append, List.map_cons, List.map_cons, String.join_append,
    String.join_cons, runLine, mavenProperties_eq]
  unfold invocation
  simp only [String.append_assoc]

/-- What is asked of the build tool for a component without a template. -/
def ownGoals (component : Component) : String :=
  match component.mavenOpts with
  | some options => "install " ++ options
  | none => "install"

theorem defaultBuildCommand_eq (component : Component) (bindings : List Binding) :
    defaultBuildCommand component bindings = invocation (ownGoals component) bindings := by
  unfold defaultBuildCommand invocation ownGoals
  rw [mavenProperties_eq]
  cases component.mavenOpts with
  | none => rfl
  | some options =>
      apply String.toList_inj.mp
      simp

theorem oneLine_ownGoals (component : Component) :
    OneLine (ownGoals component) ↔ ∀ options, component.mavenOpts = some options → OneLine options := by
  unfold ownGoals
  cases component.mavenOpts with
  | none => exact iff_of_true (by decide) fun _ absent => nomatch absent
  | some options =>
      have start : IsMark "install " := by constructor <;> decide
      dsimp only
      rw [oneLine_append (.inl start.closed), and_iff_right start.oneLine]
      simp

/-- The names of components never break a line. -/
theorem oneLine_of_isComponentName {name : String} (accepted : Config.isComponentName name = true) :
    OneLine name := by
  intro front back whole
  have inside : '\n' ∈ name.toList := by
    rw [whole]
    exact List.mem_append_right _ List.mem_cons_self
  rcases (Config.isComponentName_iff.mp accepted).2 _ inside with letter | dash
  · exact absurd letter (by decide +kernel)
  · cases dash

/-- In the build commands of every component and every template, each invocation of the build tool is
one line, and so reaches the option of its last binding, exactly if no text of a user breaks it: the
goals or options, the names of the properties, and the build jobs and components they refer to. -/
theorem invocations_are_one_line_iff (component : Component) (run : List RunElement)
    (bindings : List Binding) :
    InvokesAt (defaultBuildCommand component bindings) "" "" (ownGoals component) bindings ∧
    (OneLine (ownGoals component) ↔
      ∀ options, component.mavenOpts = some options → OneLine options) ∧
    (∀ before goals after, run = before ++ .maven goals :: after →
      InvokesAt (templateBuildCommand run bindings) (templateBuildCommand before bindings)
        ("\n" ++ templateBuildCommand after bindings) goals bindings) ∧
    ∀ name, Config.isComponentName name = true → OneLine name := by
  constructor
  · apply invokesAt _ (.inl rfl)
    rw [defaultBuildCommand_eq, String.empty_append, String.append_empty]
  constructor
  · exact oneLine_ownGoals component
  constructor
  · intro before goals after whole
    have start : ("\n" ++ templateBuildCommand after bindings).toList.head? = some '\n' := by
      rw [String.toList_append]
      rfl
    apply invokesAt _ (.inr start)
    rw [whole, templateBuildCommand_append]
  · intro name accepted
    exact oneLine_of_isComponentName accepted

def coreBinding : Binding :=
  ⟨"core", "core.version", "core-build"⟩

def optionsComponent : Component :=
  { name := "app", org := "org", branch := "main", mavenOpts := some "-DskipTests"
    debug := false, javaVersion := none
    dependencies := [{ name := "core", property := "core.version" }] }

/-- Both build commands of a component are read up to the option of its binding. -/
theorem invocations_of_sample_are_one_line :
    commandLine (defaultBuildCommand optionsComponent [coreBinding]) =
      invocation "install -DskipTests" [coreBinding] ∧
    InvokesAt (templateBuildCommand [.shell "ls", .maven "verify"] [coreBinding])
      (templateBuildCommand [.shell "ls"] [coreBinding]) "\n" "verify" [coreBinding] ∧
    commandLine (invocation "verify" [coreBinding] ++ "\n") = invocation "verify" [coreBinding] := by
  obtain ⟨own, options, runs, names⟩ := invocations_are_one_line_iff optionsComponent
    [.shell "ls", .maven "verify"] [coreBinding]
  have binding : ∀ binding ∈ [coreBinding], binding.OneLine := by
    rw [List.forall_mem_singleton]
    exact ⟨by decide, by decide, names "core" (by decide +kernel)⟩
  have given : OneLine (ownGoals optionsComponent) := by
    rw [options]
    intro text same
    cases same
    decide
  have invokes := runs [.shell "ls"] "verify" [] rfl
  refine ⟨?_, invokes, ?_⟩
  · have read := (own.read (List.cons_ne_nil _ _)).mpr (own.whole.mpr ⟨given, binding⟩)
    rw [String.append_empty] at read
    rw [defaultBuildCommand_eq]
    exact read
  · exact (invokes.read (List.cons_ne_nil _ _)).mpr (invokes.whole.mpr ⟨by decide, binding⟩)

def brokenTrigger : Config.Trigger :=
  { name := "nightly"
    env := .empty
    components := [
      { name := "core", org := "org", branch := "main", mavenOpts := none
        debug := false, javaVersion := none, dependencies := [] },
      { name := "app", org := "org", branch := "main", mavenOpts := none
        debug := false, javaVersion := none
        dependencies := [{ name := "core", property := "core.version" }] }] }

/-- The goals are written as a block, which ends with a line break. -/
def brokenTemplates : MemoryTemplates :=
  .ofList [("app", "build-job: b\njobs:\n  b:\n    run:\n    - mvn: |\n        install\n")]

def brokenScript : String :=
  "mvn -B install\n -Dcore.version=\"" ++ expression "needs.core-build.outputs.version_core" ++ "\"\n"

/-- The option with the version is left to a line of its own, and the command does without it. -/
theorem version_behind_line_break_is_lost : ∃ result job step,
    workflow brokenTrigger .default brokenTemplates.load (.ofBranch "side" 1) = .ok result ∧
      result.jobs.get? "app-b" = some job ∧ step ∈ job.steps ∧
      step.name = some "Maven Build" ∧ step.run = some brokenScript ∧
      ¬ OneLine (invocation "install\n" [⟨"core", "core.version", "core-build"⟩]) ∧
      commandLine brokenScript = "mvn -B install" := by
  have compiled : ((workflow brokenTrigger .default brokenTemplates.load
      (.ofBranch "side" 1)).toOption.bind fun result => result.jobs.get? "app-b").map
        (fun job => job.steps.any fun step =>
          step.name = some "Maven Build" && step.run = some brokenScript) = some true := by
    decide +kernel
  obtain ⟨job, found, runs⟩ := Option.map_eq_some_iff.mp compiled
  obtain ⟨result, done, there⟩ := Option.bind_eq_some_iff.mp found
  obtain ⟨step, listed, own⟩ := List.any_eq_true.mp runs
  rw [Bool.and_eq_true, decide_eq_true_eq, decide_eq_true_eq] at own
  refine ⟨result, job, step, except_eq_ok done, there, listed, own.1, own.2, ?_, ?_⟩
  · decide +kernel
  · decide +kernel

end CrossBuild.Compile
