/-
What a run went through.

A run that ends well passed through every action it is made of, each of which ended well too. The
statements here take such a run apart, one for each way of putting actions together; what a single
action does to the state is said where the action is described. Runs that may fail are described by
what holds at either end, and two of them by what relates the ends that they come to.
-/

import CrossBuild.Proofs.Lists

namespace CrossBuild.Runs

variable {ε ε' σ α β : Type}

theorem bind_ok_iff {first : EStateM ε σ α} {next : α → EStateM ε σ β} {start final : σ} {result : β} :
    (first >>= next) start = .ok result final ↔
      ∃ value middle, first start = .ok value middle ∧ next value middle = .ok result final := by
  change EStateM.bind first next start = .ok result final ↔ _
  unfold EStateM.bind
  cases first start with
  | ok value middle =>
      constructor
      · intro after
        exact ⟨value, middle, rfl, after⟩
      · rintro ⟨_, _, same, after⟩
        cases same
        exact after
  | error cause middle => simp

theorem pure_ok_iff {value result : α} {start final : σ} :
    (pure value : EStateM ε σ α) start = .ok result final ↔ value = result ∧ start = final := by
  change EStateM.Result.ok value start = .ok result final ↔ _
  simp

theorem get_ok_iff {value start final : σ} :
    (get : EStateM ε σ σ) start = .ok value final ↔ start = value ∧ start = final := by
  change EStateM.Result.ok start start = .ok value final ↔ _
  simp

theorem get_bind {next : σ → EStateM ε σ α} {start : σ} :
    (get >>= next) start = next start start := rfl

theorem set_ok_iff {value start final : σ} {result : PUnit} :
    (set value : EStateM ε σ PUnit) start = .ok result final ↔ value = final := by
  change EStateM.Result.ok PUnit.unit value = .ok result final ↔ _
  simp

theorem throw_ok_iff {cause : ε} {start final : σ} {result : α} :
    (throw cause : EStateM ε σ α) start = .ok result final ↔ False := by
  change EStateM.Result.error cause start = .ok result final ↔ _
  simp

theorem adaptExcept_ok_iff {wrap : ε → ε'} {action : EStateM ε σ α} {start final : σ} {result : α} :
    (action.adaptExcept wrap) start = .ok result final ↔ action start = .ok result final := by
  unfold EStateM.adaptExcept
  cases action start with
  | ok value middle => simp
  | error cause middle => simp

theorem discard_ok_iff {action : EStateM ε σ α} {start final : σ} {result : PUnit} :
    (discard action : EStateM ε σ PUnit) start = .ok result final ↔
      ∃ value, action start = .ok value final := by
  change EStateM.map _ action start = .ok result final ↔ _
  unfold EStateM.map
  cases action start with
  | ok value middle => simp
  | error cause middle => simp

theorem forM_nil_ok_iff {action : α → EStateM ε σ PUnit} {start final : σ} {result : PUnit} :
    ([].forM action) start = .ok result final ↔ start = final := by
  change (pure PUnit.unit : EStateM ε σ PUnit) start = .ok result final ↔ _
  rw [pure_ok_iff]
  simp

theorem forM_cons_ok_iff {action : α → EStateM ε σ PUnit} {item : α} {rest : List α}
    {start final : σ} {result : PUnit} :
    ((item :: rest).forM action) start = .ok result final ↔
      ∃ middle, action item start = .ok .unit middle ∧ rest.forM action middle = .ok result final := by
  change (action item >>= fun _ => rest.forM action) start = .ok result final ↔ _
  rw [bind_ok_iff]
  constructor
  · rintro ⟨_, middle, first, others⟩
    exact ⟨middle, first, others⟩
  · rintro ⟨middle, first, others⟩
    exact ⟨_, middle, first, others⟩

/-- What holds before the first item and is kept by each of them holds after the last one. -/
theorem forM_ok {action : α → EStateM ε σ PUnit} {items : List α} {start final : σ}
    {result : PUnit} (invariant : List α → σ → Prop) (first : invariant [] start)
    (step : ∀ before item rest state next, items = before ++ item :: rest → invariant before state →
      action item state = .ok .unit next → invariant (before ++ [item]) next)
    (done : items.forM action start = .ok result final) : invariant items final := by
  have later : ∀ rest before state, items = before ++ rest → invariant before state →
      rest.forM action state = .ok result final → invariant items final := by
    intro rest
    induction rest with
    | nil =>
        intro before state whole kept done
        rw [forM_nil_ok_iff] at done
        rw [whole, List.append_nil, ← done]
        exact kept
    | cons item others ih =>
        intro before state whole kept done
        rw [forM_cons_ok_iff] at done
        obtain ⟨next, moved, done⟩ := done
        refine ih (before ++ [item]) next ?_ (step before item others state next whole kept moved) done
        rw [whole, List.append_assoc, List.singleton_append]
  exact later items [] start rfl first done

/-- The same for different items, where each is also found to have a property. -/
theorem forM_distinct_ok {action : α → EStateM ε σ PUnit} {items : List α} {start final : σ}
    {result : PUnit} (distinct : items.Nodup) (invariant : List α → σ → Prop) (fact : α → Prop)
    (first : invariant [] start)
    (step : ∀ before item state next, (∀ other ∈ before, other ∈ items) → item ∈ items →
      item ∉ before → invariant before state → action item state = .ok .unit next →
        invariant (before ++ [item]) next ∧ fact item)
    (done : items.forM action start = .ok result final) :
    invariant items final ∧ ∀ item ∈ items, fact item := by
  refine forM_ok (fun before state => invariant before state ∧ ∀ item ∈ before, fact item)
    ⟨first, fun _ absent => nomatch absent⟩ ?_ done
  intro before item rest state next whole kept moved
  have member : item ∈ items := by
    rw [whole]
    exact List.mem_append_right _ List.mem_cons_self
  have fresh : item ∉ before := by
    rw [whole, List.nodup_append] at distinct
    exact fun inside => distinct.2.2 item inside item List.mem_cons_self rfl
  have earlier : ∀ other ∈ before, other ∈ items := by
    intro other inside
    rw [whole]
    exact List.mem_append_left _ inside
  obtain ⟨extended, holds⟩ := step before item state next earlier member fresh kept.1 moved
  refine ⟨extended, fun other inside => ?_⟩
  rcases List.mem_append.mp inside with earlier | own
  · exact kept.2 other earlier
  · rw [List.mem_singleton.mp own]
    exact holds

/-- What is known of the items so far and of their results is known at the end of all of them. -/
theorem mapM_ok {action : α → EStateM ε σ β} {items : List α} {results : List β} {start final : σ}
    (invariant : List α → List β → σ → Prop) (first : invariant [] [] start)
    (step : ∀ before item rest earlier state result next, items = before ++ item :: rest →
      invariant before earlier state → action item state = .ok result next →
        invariant (before ++ [item]) (earlier ++ [result]) next)
    (done : items.mapM action start = .ok results final) : invariant items results final := by
  have later : ∀ rest before earlier state others, items = before ++ rest →
      invariant before earlier state → rest.mapM action state = .ok others final →
        invariant items (earlier ++ others) final := by
    intro rest
    induction rest with
    | nil =>
        intro before earlier state others whole kept done
        rw [List.mapM_nil, pure_ok_iff] at done
        obtain ⟨rfl, rfl⟩ := done
        rw [whole, List.append_nil, List.append_nil]
        exact kept
    | cons item rest ih =>
        intro before earlier state others whole kept run
        rw [List.mapM_cons, bind_ok_iff] at run
        obtain ⟨result, next, acted, rested⟩ := run
        rw [bind_ok_iff] at rested
        obtain ⟨further, last, behind, own⟩ := rested
        obtain ⟨rfl, rfl⟩ := pure_ok_iff.mp own
        rw [List.append_cons]
        refine ih (before ++ [item]) _ next further ?_
          (step before item rest earlier state result next whole kept acted) behind
        rw [whole, List.append_assoc, List.singleton_append]
  exact later items [] [] start results rfl first done

/-! ### Runs that may fail -/

/-- One thing holds if the run ends well, and another if it fails. -/
def Ends (good : α → σ → Prop) (bad : ε → σ → Prop) : EStateM.Result ε σ α → Prop
  | .ok value state => good value state
  | .error cause state => bad cause state

section Ends

variable {good : β → σ → Prop} {bad : ε → σ → Prop} {start : σ}

theorem ends_bind_iff {first : EStateM ε σ α} {next : α → EStateM ε σ β} :
    Ends good bad ((first >>= next) start) ↔
      Ends (fun value middle => Ends good bad (next value middle)) bad (first start) := by
  change Ends good bad (EStateM.bind first next start) ↔ _
  unfold EStateM.bind
  cases first start with
  | ok value middle => rfl
  | error cause middle => rfl

theorem ends_ok_iff {value : β} : Ends good bad (.ok value start) ↔ good value start := .rfl

theorem ends_pure_iff {value : β} :
    Ends good bad ((pure value : EStateM ε σ β) start) ↔ good value start := .rfl

theorem ends_get_iff {good : σ → σ → Prop} :
    Ends good bad ((get : EStateM ε σ σ) start) ↔ good start start := .rfl

theorem ends_set_iff {good : PUnit → σ → Prop} {value : σ} :
    Ends good bad ((set value : EStateM ε σ PUnit) start) ↔ good .unit value := .rfl

theorem ends_discard_iff {action : EStateM ε σ α} {good : PUnit → σ → Prop} :
    Ends good bad ((discard action : EStateM ε σ PUnit) start) ↔
      Ends (fun _ after => good .unit after) bad (action start) := by
  change Ends good bad (EStateM.map _ action start) ↔ _
  unfold EStateM.map
  cases action start with
  | ok value middle => rfl
  | error cause middle => rfl

theorem ends_adaptExcept_iff {wrap : ε' → ε} {action : EStateM ε' σ β} :
    Ends good bad ((action.adaptExcept wrap) start) ↔
      Ends good (fun cause => bad (wrap cause)) (action start) := by
  unfold EStateM.adaptExcept
  cases action start with
  | ok value middle => rfl
  | error cause middle => rfl

theorem Ends.mono {better : β → σ → Prop} {worse : ε → σ → Prop} {result : EStateM.Result ε σ β}
    (ends : Ends good bad result) (onGood : ∀ value state, good value state → better value state)
    (onBad : ∀ cause state, bad cause state → worse cause state) : Ends better worse result := by
  cases result with
  | ok value state => exact onGood value state ends
  | error cause state => exact onBad cause state ends

theorem Ends.of_results {result : EStateM.Result ε σ β}
    (onOk : ∀ value state, result = .ok value state → good value state)
    (onError : ∀ cause state, result = .error cause state → bad cause state) :
    Ends good bad result := by
  cases result with
  | ok value state => exact onOk value state rfl
  | error cause state => exact onError cause state rfl

theorem Ends.ok {result : EStateM.Result ε σ β} {value : β} {after : σ} (ends : Ends good bad result)
    (done : result = .ok value after) : good value after := by
  rw [done] at ends
  exact ends

theorem Ends.error {result : EStateM.Result ε σ β} {cause : ε} {after : σ}
    (ends : Ends good bad result) (failed : result = .error cause after) : bad cause after := by
  rw [failed] at ends
  exact ends

/-- What is known of the ends of a run in two ways holds of them together. -/
theorem Ends.and {better : β → σ → Prop} {worse : ε → σ → Prop} {result : EStateM.Result ε σ β}
    (one : Ends good bad result) (two : Ends better worse result) :
    Ends (fun value state => good value state ∧ better value state)
      (fun cause state => bad cause state ∧ worse cause state) result := by
  cases result with
  | ok value state => exact ⟨one, two⟩
  | error cause state => exact ⟨one, two⟩

/-- What holds before the first item and is kept by each of them holds after the last one. -/
theorem ends_forM {action : α → EStateM ε σ PUnit} {items : List α}
    (invariant : List α → σ → Prop) (first : invariant [] start)
    (step : ∀ before item rest state, items = before ++ item :: rest → invariant before state →
      Ends (fun _ => invariant (before ++ [item])) bad (action item state)) :
    Ends (fun _ => invariant items) bad (items.forM action start) := by
  have later : ∀ rest before state, items = before ++ rest → invariant before state →
      Ends (fun _ => invariant items) bad (rest.forM action state) := by
    intro rest
    induction rest with
    | nil =>
        intro before state whole kept
        change Ends _ _ ((pure PUnit.unit : EStateM ε σ PUnit) state)
        rw [ends_pure_iff, whole, List.append_nil]
        exact kept
    | cons item others ih =>
        intro before state whole kept
        change Ends _ _ ((action item >>= fun _ => others.forM action) state)
        rw [ends_bind_iff]
        refine (step before item others state whole kept).mono (fun _ next moved => ?_)
          fun _ _ failed => failed
        refine ih (before ++ [item]) next ?_ moved
        rw [whole, List.append_assoc, List.singleton_append]
  exact later items [] start rfl first

end Ends

/-! ### Runs that are evaluated -/

/-- A run ends well, with something that passes a check. -/
def endsWell (outcome : EStateM.Result ε σ α) (check : α → σ → Bool) : Bool :=
  match outcome with
  | .ok result final => check result final
  | .error _ _ => false

theorem exists_of_endsWell {outcome : EStateM.Result ε σ α} {check : α → σ → Bool}
    (well : endsWell outcome check = true) :
    ∃ result final, outcome = .ok result final ∧ check result final = true := by
  cases outcome with
  | ok result final => exact ⟨result, final, rfl, well⟩
  | error cause final => cases well

/-! ### Two runs -/

/-- Two runs end well, in states that are alike, or both fail. -/
def Together {τ : Type} (alike : σ → τ → Prop) :
    EStateM.Result ε σ α → EStateM.Result ε τ β → Prop
  | .ok _ left, .ok _ right => alike left right
  | .error _ _, .error _ _ => True
  | _, _ => False

section Together

variable {τ α' β' : Type} {alike further : σ → τ → Prop} {left : σ} {right : τ}

theorem Together.mono {first : EStateM.Result ε σ α} {second : EStateM.Result ε τ β}
    (together : Together alike first second)
    (weaker : ∀ left right, alike left right → further left right) :
    Together further first second := by
  cases first with
  | ok value left =>
      cases second with
      | ok other right => exact weaker left right together
      | error cause right => exact together
  | error cause left =>
      cases second with
      | ok other right => exact together
      | error cause right => trivial

theorem together_bind {first : EStateM ε σ α} {second : EStateM ε τ β} {next : α → EStateM ε σ α'}
    {after : β → EStateM ε τ β'} (together : Together alike (first left) (second right))
    (on : ∀ value left other right, alike left right →
      Together further (next value left) (after other right)) :
    Together further ((first >>= next) left) ((second >>= after) right) := by
  change Together further (EStateM.bind first next left) (EStateM.bind second after right)
  unfold EStateM.bind
  cases ran : first left with
  | ok value middle =>
      rw [ran] at together
      cases also : second right with
      | ok other half =>
          rw [also] at together
          exact on value middle other half together
      | error cause half =>
          rw [also] at together
          exact together.elim
  | error cause middle =>
      rw [ran] at together
      cases also : second right with
      | ok other half =>
          rw [also] at together
          exact together.elim
      | error cause half => trivial

theorem together_discard {action : EStateM ε σ α} {second : EStateM.Result ε τ β}
    (together : Together alike (action left) second) :
    Together alike ((discard action : EStateM ε σ PUnit) left) second := by
  change Together alike (EStateM.map _ action left) second
  unfold EStateM.map
  generalize action left = first at together
  cases first with
  | ok value middle =>
      cases second with
      | ok other right => exact together
      | error cause right => exact together
  | error cause middle =>
      cases second with
      | ok other right => exact together
      | error cause right => trivial

/-- What relates the states before the first item and is kept by each of them relates the states after
the last one. -/
theorem together_forM {action : α → EStateM ε σ PUnit} {other : α → EStateM ε τ PUnit}
    {items : List α} (alike : List α → σ → τ → Prop) (first : alike [] left right)
    (step : ∀ before item rest left right, items = before ++ item :: rest → alike before left right →
      Together (alike (before ++ [item])) (action item left) (other item right)) :
    Together (alike items) (items.forM action left) (items.forM other right) := by
  have later : ∀ rest before left right, items = before ++ rest → alike before left right →
      Together (alike items) (rest.forM action left) (rest.forM other right) := by
    intro rest
    induction rest with
    | nil =>
        intro before left right whole kept
        rw [List.append_nil] at whole
        rw [whole]
        exact kept
    | cons item others ih =>
        intro before left right whole kept
        change Together _ ((action item >>= fun _ => others.forM action) left)
          ((other item >>= fun _ => others.forM other) right)
        refine together_bind (step before item others left right whole kept)
          fun _ left _ right moved => ih (before ++ [item]) left right ?_ moved
        rw [whole, List.append_assoc, List.singleton_append]
  exact later items [] left right rfl first

/-- Two runs that end well in the same circumstances end alike. -/
theorem together_of_ends {first : EStateM.Result ε σ α} {second : EStateM.Result ε τ β} {able : Prop}
    {good : σ → Prop} {fine : τ → Prop}
    (one : Ends (fun _ state => able ∧ good state) (fun _ _ => ¬ able) first)
    (two : Ends (fun _ state => able ∧ fine state) (fun _ _ => ¬ able) second)
    (both : ∀ left right, good left → fine right → alike left right) :
    Together alike first second := by
  cases first with
  | ok value left =>
      cases second with
      | ok other right => exact both left right one.2 two.2
      | error cause right => exact two one.1
  | error cause left =>
      cases second with
      | ok other right => exact one two.1
      | error cause right => trivial

end Together

/-! ### Runs without a state -/

theorem except_bind_ok_iff {first : Except ε α} {next : α → Except ε β} {result : β} :
    (first >>= next) = .ok result ↔ ∃ value, first = .ok value ∧ next value = .ok result := by
  cases first with
  | ok value => simp [bind, Except.bind]
  | error cause => simp [bind, Except.bind]

theorem except_bind_error_iff {first : Except ε α} {next : α → Except ε β} {cause : ε} :
    (first >>= next) = .error cause ↔
      first = .error cause ∨ ∃ value, first = .ok value ∧ next value = .error cause := by
  cases first with
  | ok value => simp [bind, Except.bind]
  | error cause => simp [bind, Except.bind]

theorem except_map_ok_iff {first : Except ε α} {change : α → β} {result : β} :
    first.map change = .ok result ↔ ∃ value, first = .ok value ∧ change value = result := by
  cases first with
  | ok value => simp [Except.map]
  | error cause => simp [Except.map]

theorem except_map_error_iff {first : Except ε α} {change : α → β} {cause : ε} :
    first.map change = .error cause ↔ first = .error cause := by
  cases first with
  | ok value => simp [Except.map]
  | error cause => simp [Except.map]

theorem except_exists_ok {first : Except ε α} (succeeds : first.isOk = true) :
    ∃ value, first = .ok value := by
  cases first with
  | ok value => exact ⟨value, rfl⟩
  | error cause => cases succeeds

theorem except_eq_ok {first : Except ε α} {value : α} (gives : first.toOption = some value) :
    first = .ok value := by
  cases first with
  | ok other =>
      cases gives
      rfl
  | error cause => cases gives

/-- A run over a list that ends well gives one result for each item. -/
theorem mapM_each {action : α → Except ε β} {items : List α} {results : List β}
    (done : items.mapM action = .ok results) :
    List.Forall₂ (fun item result => action item = .ok result) items results := by
  induction items generalizing results with
  | nil =>
      cases done
      exact .nil
  | cons item rest ih =>
      rw [List.mapM_cons] at done
      simp only [except_bind_ok_iff] at done
      obtain ⟨first, acted, others, further, same⟩ := done
      cases same
      exact .cons acted (ih further)

/-- A run over a list ends well exactly if it does so for every item. -/
theorem mapM_exists_iff {action : α → Except ε β} {items : List α} :
    (∃ results, items.mapM action = .ok results) ↔ ∀ item ∈ items, ∃ result, action item = .ok result := by
  constructor
  · rintro ⟨results, done⟩ item listed
    obtain ⟨result, -, acted⟩ := exists_of_mem_left (mapM_each done) item listed
    exact ⟨result, acted⟩
  · intro all
    induction items with
    | nil => exact ⟨[], rfl⟩
    | cons item rest ih =>
        rw [List.forall_mem_cons] at all
        obtain ⟨⟨first, acted⟩, others⟩ := all
        obtain ⟨results, done⟩ := ih others
        exact ⟨first :: results, by rw [List.mapM_cons, acted, done]; rfl⟩

/-- It fails with the cause of the first item that does. -/
theorem mapM_error_iff {action : α → Except ε β} {items : List α} {cause : ε} :
    items.mapM action = .error cause ↔ ∃ before item after, items = before ++ item :: after ∧
      (∀ other ∈ before, ∃ result, action other = .ok result) ∧ action item = .error cause := by
  induction items with
  | nil =>
      constructor
      · intro failed
        cases failed
      · rintro ⟨before, item, after, whole, -⟩
        exact absurd whole.symm (by simp)
  | cons first rest ih =>
      rw [List.mapM_cons, except_bind_error_iff]
      simp only [except_bind_error_iff, ih]
      constructor
      · rintro (failed | ⟨value, acted, later | ⟨_, _, done⟩⟩)
        · exact ⟨[], first, rest, rfl, (fun _ absent => nomatch absent), failed⟩
        · obtain ⟨before, item, after, rfl, fine, failed⟩ := later
          exact ⟨first :: before, item, after, rfl, List.forall_mem_cons.mpr ⟨⟨value, acted⟩, fine⟩, failed⟩
        · cases done
      · rintro ⟨before, item, after, whole, fine, failed⟩
        cases before with
        | nil =>
            cases whole
            exact .inl failed
        | cons other before =>
            cases whole
            obtain ⟨⟨value, acted⟩, fine⟩ := List.forall_mem_cons.mp fine
            exact .inr ⟨value, acted, .inl ⟨before, item, after, rfl, fine, failed⟩⟩

theorem option_mapM_ok {action : α → Except ε β} {item : α} {result : Option β}
    (done : (some item).mapM action = .ok result) :
    ∃ value, action item = .ok value ∧ result = some value := by
  change (some <$> action item) = _ at done
  cases acted : action item with
  | error cause =>
      rw [acted] at done
      cases done
  | ok value =>
      rw [acted] at done
      cases done
      exact ⟨value, rfl, rfl⟩

/-! ### Two runs without a state -/

section Agree

variable {α' β' : Type} {results : α → β → Prop} {further : α' → β' → Prop}
  {causes : ε → ε' → Prop}

/-- Two runs end well, with related results, or both fail, for related causes. -/
inductive Agree (results : α → β → Prop) (causes : ε → ε' → Prop) :
    Except ε α → Except ε' β → Prop where
  | ok {value : α} {other : β} (related : results value other) :
      Agree results causes (.ok value) (.ok other)
  | error {cause : ε} {another : ε'} (related : causes cause another) :
      Agree results causes (.error cause) (.error another)

theorem agree_bind {first : Except ε α} {second : Except ε' β} {next : α → Except ε α'}
    {after : β → Except ε' β'} (agree : Agree results causes first second)
    (on : ∀ value other, results value other → Agree further causes (next value) (after other)) :
    Agree further causes (first >>= next) (second >>= after) := by
  cases agree with
  | ok related => exact on _ _ related
  | error related => exact .error related

variable {alike : ε → ε → Prop} (refl : ∀ cause, alike cause cause)
include refl

theorem agree_self (run : Except ε α) : Agree Eq alike run run := by
  cases run with
  | ok value => exact .ok rfl
  | error cause => exact .error (refl cause)

/-- Behind the same start, runs agree when they agree on whatever it gives. -/
theorem agree_after {first second : Except ε α} {next after : α → Except ε α'}
    {outcomes : α' → α' → Prop} (same : first = second)
    (on : ∀ value, Agree outcomes alike (next value) (after value)) :
    Agree outcomes alike (first >>= next) (second >>= after) := by
  subst same
  apply agree_bind (agree_self refl first)
  intro value _ equal
  subst equal
  exact on value

/-- Reading items one by one agrees when reading each of them does. -/
theorem agree_mapM {items others : List β} {read : β → Except ε α}
    (each : List.Forall₂ (fun item other => Agree Eq alike (read item) (read other)) items others) :
    Agree Eq alike (items.mapM read) (others.mapM read) := by
  induction each with
  | nil => exact agree_self refl _
  | cons first _ ih =>
      rw [List.mapM_cons, List.mapM_cons]
      apply agree_bind first
      intro value _ equal
      subst equal
      apply agree_bind ih
      intro rest _ equal
      subst equal
      exact .ok rfl

end Agree

end CrossBuild.Runs
