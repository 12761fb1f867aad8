/-
Command lines of a command and its operands.

Words that begin with something other than a dash are no options. As many of them as a command
declares, put behind its name, are read as its operands in the order in which they are declared, and
all settings of the log keep their defaults. Options are not looked at here.
-/

import CrossBuild.CommandLine.Invocation
import CrossBuild.Proofs.Files.Spelling
import CrossBuild.Proofs.Maps
import CrossBuild.Proofs.Runs

namespace CrossBuild

namespace Text

variable {separator : Char} {first : String} {rest : List String}

/-- Words that stand behind each other with one separator between them are the pieces of the text. -/
theorem split_join (apart : ∀ word ∈ first :: rest, separator ∉ word.toList) :
    split separator
      (first ++ String.join (rest.map fun word => String.singleton separator ++ word)) =
        first :: rest := by
  induction rest generalizing first with
  | nil =>
      rw [List.map_nil, String.join_nil, String.append_empty]
      exact split_of_not_mem (apart first List.mem_cons_self)
  | cons next others ih =>
      obtain ⟨own, later⟩ := List.forall_mem_cons.mp apart
      have further := ih later
      have chars := splitChars_of_not_mem own
      unfold split at further ⊢
      rw [List.map_cons, String.join_cons, String.toList_append, String.append_assoc,
        String.toList_append, String.toList_singleton, List.singleton_append, splitChars_append,
        List.map_append, further, chars, List.map_singleton, String.ofList_toList]
      rfl

end Text

namespace CommandLine

open Runs

/-- The word is neither empty nor an option. -/
def IsOperand (word : String) : Prop :=
  ∃ char rest, word.toList = char :: rest ∧ char ≠ '-'

variable {grammar : Grammar} {reading resolved : Reading} {parameter : Parameter}
  {operands : List (Parameter × String)} {word : String}

theorem IsOperand.ne_empty (operand : IsOperand word) : word ≠ "" := by
  obtain ⟨char, rest, whole, -⟩ := operand
  rintro rfl
  cases whole

/-! ### Reading one part -/

/-- What can be looked at does not wait for a value, and leaves nothing pending. -/
theorem resolve_ok (done : reading.resolve = .ok resolved) :
    reading.awaitsValue = false ∧ resolved.pending = none ∧
      resolved.positionals = reading.positionals := by
  unfold Reading.resolve at done
  unfold Reading.awaitsValue
  split at done
  · rename_i nothing
    cases done
    exact ⟨by rw [nothing], nothing, rfl⟩
  · cases done
  · rename_i given
    split at done
    · cases done
    · split at done
      · cases done
        exact ⟨by rw [given], rfl, rfl⟩
      · cases done

theorem resolve_supplied (fresh : parameter.name ∉ reading.found.keys)
    (fits : parameter.kind.check word = .ok ()) (pending : reading.pending = some (parameter, some word)) :
    reading.resolve =
      .ok { reading with found := reading.found.insert parameter.name word, pending := none } := by
  have absent : reading.found.contains parameter.name = false := by
    rw [← Bool.not_eq_true, OrderedMap.contains_iff]
    exact fresh
  unfold Reading.resolve
  rw [pending]
  dsimp only
  rw [absent, fits]
  rfl

/-- In a part without commands, an operand is taken for the next positional argument. -/
theorem readArguments_operand {rest : List String} (bare : grammar.commands = [])
    (operand : IsOperand word) (ready : reading.awaitsValue = false) :
    readArguments grammar reading (word :: rest) =
      (readPositional grammar false reading word >>= fun next => readArguments grammar next rest) := by
  obtain ⟨char, chars, whole, noDash⟩ := operand
  rw [readArguments, bare, whole]
  simp only [List.isEmpty_nil, Bool.not_true, Bool.false_and, Bool.false_eq_true, if_false, ready]
  split
  · rename_i same
    cases same
    exact absurd rfl noDash
  · rename_i same
    cases same
    exact absurd rfl noDash
  · rename_i same
    cases same
    exact absurd rfl noDash
  · rfl

/-- Operands that fit the positional arguments are found under their names. -/
theorem readArguments_operands (bare : grammar.commands = [])
    (plain : ∀ pair ∈ operands, IsOperand pair.2 ∧ pair.1.kind.check pair.2 = .ok ())
    (settled : reading.resolve = .ok resolved) (declared : reading.positionals = operands.map Prod.fst)
    (distinct : (resolved.found.keys ++ operands.map fun pair => pair.1.name).Nodup) :
    ∃ final, readArguments grammar reading (operands.map Prod.snd) = .ok (final, none) ∧
      final.resolve = .ok {
        found := resolved.found.insertAll (operands.map fun pair => (pair.1.name, pair.2))
        pending := none
        positionals := [] } := by
  -- an operand stays pending until the argument behind it is read, so the reading and what it
  -- resolves to go through the induction together
  induction operands generalizing reading resolved with
  | nil =>
      obtain ⟨-, nothing, same⟩ := resolve_ok settled
      refine ⟨reading, rfl, ?_⟩
      obtain ⟨found, pending, positionals⟩ := resolved
      dsimp only at nothing same
      rw [settled, nothing, same, declared]
      rfl
  | cons first others ih =>
      obtain ⟨ready, nothing, same⟩ := resolve_ok settled
      obtain ⟨⟨operand, fits⟩, later⟩ := List.forall_mem_cons.mp plain
      rw [List.map_cons, List.append_cons] at distinct
      have fresh : first.1.name ∉ resolved.found.keys := by
        have front := (List.nodup_append.mp distinct).1
        intro inside
        exact (List.nodup_append.mp front).2.2 _ inside _ (List.mem_singleton.mpr rfl) rfl
      let next : Reading :=
        { resolved with pending := some (first.1, some first.2), positionals := others.map Prod.fst }
      have looked : next.resolve = .ok {
          found := resolved.found.insert first.1.name first.2
          pending := none
          positionals := others.map Prod.fst } := @resolve_supplied next _ _ fresh fits rfl
      have taken : readPositional grammar false reading first.2 = .ok next := by
        unfold readPositional
        rw [declared, List.map_cons]
        dsimp only
        rw [settled]
        rfl
      rw [List.map_cons, readArguments_operand bare operand ready, taken]
      apply ih later looked rfl
      have keys : (resolved.found.insert first.1.name first.2).keys =
          resolved.found.keys ++ [first.1.name] := by
        rw [OrderedMap.keys_insert, if_neg fresh]
      rw [keys]
      exact distinct

/-! ### Whole command lines -/

/-- The command without any setting of the log. -/
def Invocation.plain (command : Command) : Invocation :=
  { command
    level := .warn
    logFormat := .compact
    logFilter := none }

/-- What the table of the commands has to say of each of them: it is found under its name, which is
one unbroken word, and its positional arguments are paths with names of their own. -/
structure CommandForm.Regular (form : CommandForm) : Prop where
  found : commandForms.find? (fun other => decide (other.name = form.name)) = some form
  named : form.name ≠ "help" ∧ toolGrammar.commands.contains form.name = true
  unbroken : ' ' ∉ form.name.toList ∧ '\n' ∉ form.name.toList
  paths : ∀ parameter ∈ form.positionals, parameter.kind = .path
  distinct : (form.positionals.map Parameter.name).Nodup
  noSetting : ∀ parameter ∈ form.positionals,
    parameter.name ∉ ["level", "log-format", "log-filter"]

theorem regular_of_mem {form : CommandForm} (listed : form ∈ commandForms) : form.Regular := by
  unfold commandForms at listed
  simp only [List.mem_cons, List.not_mem_nil, or_false] at listed
  rcases listed with rfl | rfl | rfl | rfl | rfl | rfl
  all_goals
    refine ⟨rfl, by decide, by decide, ?_, by decide, ?_⟩
    · simp [generateForm, backupForm, overlayForm, splitForm, mergeForm, copyLogsForm]
    · simp [generateForm, backupForm, overlayForm, splitForm, mergeForm, copyLogsForm]

variable {form : CommandForm} {words : List String} {command : Command}

/-- What is found for operands under the names of the positional arguments. -/
def foundOperands (form : CommandForm) (words : List String) : OrderedMap String :=
  .ofList ((form.positionals.map Parameter.name).zip words)

theorem readCommand_operands (regular : form.Regular)
    (count : words.length = form.positionals.length) (plain : ∀ word ∈ words, IsOperand word)
    (built : form.build (foundOperands form words) = .ok command) :
    readCommand form words = .ok (foundOperands form words, command) := by
  have names : (form.positionals.zip words).map Prod.fst = form.positionals :=
    List.map_fst_zip (Nat.le_of_eq count.symm)
  have texts : (form.positionals.zip words).map Prod.snd = words :=
    List.map_snd_zip (Nat.le_of_eq count)
  have pairs : ((form.positionals.zip words).map fun pair => (pair.1.name, pair.2)) =
      (form.positionals.map Parameter.name).zip words := by
    rw [List.zip_map_left]
    rfl
  have distinct : ((form.positionals.zip words).map fun pair => pair.1.name).Nodup := by
    have whole : ((form.positionals.zip words).map fun pair => pair.1.name) =
        ((form.positionals.zip words).map Prod.fst).map Parameter.name := by
      rw [List.map_map]
      rfl
    rw [whole, names]
    exact regular.distinct
  have fits : ∀ pair ∈ form.positionals.zip words,
      IsOperand pair.2 ∧ pair.1.kind.check pair.2 = .ok () := by
    rintro ⟨parameter, word⟩ inside
    obtain ⟨declared, given⟩ := List.of_mem_zip inside
    have operand := plain word given
    rw [regular.paths parameter declared]
    exact ⟨operand, if_neg operand.ne_empty⟩
  obtain ⟨final, read, settled⟩ :=
    @readArguments_operands form.grammar (.start form.grammar) (.start form.grammar) _ rfl fits rfl
      names.symm distinct
  rw [texts] at read
  rw [pairs] at settled
  unfold readCommand
  simp only [read, bind, Except.bind]
  rw [settled]
  change (form.build (foundOperands form words) >>= _) = _
  rw [built]
  rfl

/-- The name of a command with as many operands as it declares is read as the command they make up. -/
theorem ofArguments_operands (listed : form ∈ commandForms)
    (count : words.length = form.positionals.length) (plain : ∀ word ∈ words, IsOperand word)
    (built : form.build (foundOperands form words) = .ok command) :
    Invocation.ofArguments (form.name :: words) = .ok (.plain command) := by
  have regular := regular_of_mem listed
  have front : readArguments toolGrammar (.start toolGrammar) (form.name :: words) =
      .ok (.start toolGrammar, some (form.name, words)) := by
    have mayName : (!toolGrammar.commands.isEmpty &&
        !(Reading.start toolGrammar).awaitsValue) = true := by decide
    have noHelp : decide (form.name = "help") = false := decide_eq_false regular.named.1
    rw [readArguments, mayName, noHelp, regular.named.2]
    rfl
  have unset : ∀ name ∈ ["level", "log-format", "log-filter"],
      settingOf .empty (foundOperands form words) name = none := by
    intro name setting
    have absent : (foundOperands form words).get? name = none := by
      apply OrderedMap.get?_insertAll_of_notMem
      rintro ⟨key, word⟩ inside rfl
      obtain ⟨parameter, declared, rfl⟩ := List.mem_map.mp (List.of_mem_zip inside).1
      exact regular.noSetting parameter declared setting
    unfold settingOf
    rw [absent]
    rfl
  unfold Invocation.ofArguments
  rw [front]
  simp only [bind, Except.bind, Option.bind_some, regular.found, Option.map_some]
  rw [readCommand_operands regular count plain built]
  change Except.ok (invocationOf .empty (foundOperands form words) command) = _
  unfold invocationOf
  rw [unset "level" (by decide), unset "log-format" (by decide), unset "log-filter" (by decide)]
  rfl

end CommandLine

end CrossBuild
