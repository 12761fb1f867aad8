/-
What a visitor is told, and in which order.

As long as the visitor leaves the disk alone, the order is that of the tree: a directory, what it
holds in the order of names, the directory once more. The visitor only decides which directories are
left out, and a failure cuts the order off. A directory whose path is beyond the limits cannot be
entered and counts as an entry like a file. To speak about what is told, a visitor is made to write
down each callback and its answer; that changes nothing for the visitor.
-/

import CrossBuild.Proofs.Artifacts.SplitTree

namespace CrossBuild.Artifacts

open Files Files.Disk Runs

/-! ### The order of a tree -/

/-- What a visitor is told of a place below the root. -/
inductive Callback where
  | before (place : Location)
  | file (place : Location)
  | after (place : Location)
  deriving DecidableEq

def Callback.place : Callback → Location
  | .before place => place
  | .file place => place
  | .after place => place

/-- At the place stands a directory, and its path keeps to the limits. -/
def canEnter (root : Path) (disk : Disk) (place : Location) : Bool :=
  treeBelow root disk place = some .directory && disk.permits (Spot.path ⟨root, place⟩)

theorem canEnter_iff {root : Path} {disk : Disk} {place : Location} :
    canEnter root disk place = true ↔
      treeBelow root disk place = some .directory ∧ disk.permits (Spot.path ⟨root, place⟩) := by
  unfold canEnter
  rw [Bool.and_eq_true, decide_eq_true_iff, decide_eq_true_iff]

theorem lt_height_of_canEnter {root : Path} {disk : Disk} {place : Location} {name : String}
    (enters : canEnter root disk (place ++ [name]) = true) :
    (disk.leadsTo root ++ place).length < disk.height := by
  have there := (canEnter_iff.mp enters).1
  have fits := @length_le_height disk (disk.leadsTo root ++ (place ++ [name])) (by
    unfold treeBelow at there
    rw [there]
    simp)
  simp only [List.length_append, List.length_singleton] at fits ⊢
  omega

/-- The order of what stands at a place and below it, where some directories are left out: the
directory, each of its children in the order of their names, and the directory again. -/
def callbacks (root : Path) (disk : Disk) (skips : Location → Bool) (place : Location) :
    List Callback :=
  .before place ::
    if skips place then []
    else ((disk.childNames (disk.leadsTo root ++ place)).flatMap fun name =>
      if enters : canEnter root disk (place ++ [name]) = true then
        callbacks root disk skips (place ++ [name])
      else [.file (place ++ [name])]) ++ [.after place]
termination_by disk.height - (disk.leadsTo root ++ place).length
decreasing_by
  have deeper := lt_height_of_canEnter enters
  simp only [List.length_append, List.length_singleton] at deeper ⊢
  omega

/-- What is told of one child. -/
def childCallbacks (root : Path) (disk : Disk) (skips : Location → Bool) (place : Location) :
    List Callback :=
  if canEnter root disk place then callbacks root disk skips place else [.file place]

theorem callbacks_eq (root : Path) (disk : Disk) (skips : Location → Bool) (place : Location) :
    callbacks root disk skips place = .before place ::
      if skips place then []
      else ((disk.childNames (disk.leadsTo root ++ place)).flatMap fun name =>
        childCallbacks root disk skips (place ++ [name])) ++ [.after place] := by
  rw [callbacks]
  simp only [childCallbacks, dite_eq_ite]

/-! ### Writing down -/

/-- A callback and its answer. Only that of a directory on entry can ask to leave it out. -/
structure Call where
  callback : Callback
  answer : Except Error Descent
  deriving DecidableEq

/-- The state of a visitor, and what it was told so far. -/
structure Record (σ : Type) where
  state : σ
  calls : List Call

/-- Do something for the visitor, and write it down. -/
def note {σ : Type} (callback : Callback) (action : EStateM Error σ Descent) :
    EStateM Error (Record σ) Descent := fun record =>
  match action record.state with
  | .ok answer after =>
      .ok answer { state := after, calls := record.calls ++ [⟨callback, .ok answer⟩] }
  | .error cause after =>
      .error cause { state := after, calls := record.calls ++ [⟨callback, .error cause⟩] }

/-- The same visitor, which writes down what it is told. -/
def Visitor.recording {σ : Type} (visitor : Visitor σ) : Visitor (Record σ) :=
  { before := fun spot => note (.before spot.names) (visitor.before spot)
    file := fun spot => discard (note (.file spot.names) do
      visitor.file spot
      return .enter)
    after := fun spot => discard (note (.after spot.names) do
      visitor.after spot
      return .enter) }

/-- The directories whose callback on entry asked to leave them out. -/
def skipped (calls : List Call) (place : Location) : Bool :=
  calls.contains ⟨.before place, .ok .skip⟩

/-! ### Recording changes nothing -/

/-- The same result, without what was written down. -/
def forget {σ α : Type} : EStateM.Result Error (Record σ) α → EStateM.Result Error σ α
  | .ok value after => .ok value after.state
  | .error cause after => .error cause after.state

/-- An action that may write down what it does, and otherwise does the same as another. -/
def Mirrors {σ α : Type} (recorded : EStateM Error (Record σ) α) (plain : EStateM Error σ α) : Prop :=
  ∀ record, forget (recorded record) = plain record.state

section Mirrors

variable {σ α β : Type} {recorded : EStateM Error (Record σ) α} {plain : EStateM Error σ α}

theorem Mirrors.bind {next : α → EStateM Error (Record σ) β} {also : α → EStateM Error σ β}
    (first : Mirrors recorded plain) (then_ : ∀ value, Mirrors (next value) (also value)) :
    Mirrors (recorded >>= next) (plain >>= also) := by
  intro record
  change forget (EStateM.bind recorded next record) = EStateM.bind plain also record.state
  unfold EStateM.bind
  rw [← first record]
  cases recorded record with
  | ok value after => exact then_ value after
  | error cause after => rfl

theorem Mirrors.pure (value : α) :
    Mirrors (Pure.pure value : EStateM Error (Record σ) α) (Pure.pure value) :=
  fun _ => rfl

theorem Mirrors.throw (cause : Error) :
    Mirrors (throw cause : EStateM Error (Record σ) α) (MonadExcept.throw cause) :=
  fun _ => rfl

/-- What depends on the state depends on the part that the plain action has. -/
theorem Mirrors.get {next : Record σ → EStateM Error (Record σ) β} {also : σ → EStateM Error σ β}
    (same : ∀ record, Mirrors (next record) (also record.state)) :
    Mirrors (MonadState.get >>= next) (MonadState.get >>= also) :=
  fun record => same record record

theorem Mirrors.forM {items : List α} {action : α → EStateM Error (Record σ) PUnit}
    {also : α → EStateM Error σ PUnit} (each : ∀ item, Mirrors (action item) (also item)) :
    Mirrors (items.forM action) (items.forM also) := by
  induction items with
  | nil => exact .pure _
  | cons item rest ih => exact .bind (each item) fun _ => ih

theorem mirrors_note (callback : Callback) (action : EStateM Error σ Descent) :
    Mirrors (note callback action) action := by
  intro record
  unfold note
  cases action record.state with
  | ok answer after => rfl
  | error cause after => rfl

theorem mirrors_noted (callback : Callback) (action : EStateM Error σ Unit) :
    Mirrors (discard (note callback do action; return .enter)) action := by
  intro record
  change forget (EStateM.map _ (note callback (EStateM.bind action fun _ => EStateM.pure .enter))
    record) = _
  unfold EStateM.map note EStateM.bind
  cases action record.state with
  | ok value after => rfl
  | error cause after => rfl

theorem mirrors_walkWithin (visitor : Visitor σ) (view : σ → Disk) (levels : Nat) (spot : Spot) :
    Mirrors (visitor.recording.walkWithin (fun record => view record.state) levels spot)
      (visitor.walkWithin view levels spot) := by
  induction levels generalizing spot with
  | zero => exact .throw _
  | succ below ih =>
      unfold Visitor.walkWithin
      refine .bind (mirrors_note _ _) fun descent => ?_
      cases descent with
      | skip => exact .pure _
      | enter =>
          refine .get fun record => ?_
          cases (view record.state).list? spot.path with
          | none => exact .throw _
          | some names =>
              refine .bind (.forM fun name => .get fun inside => ?_) fun _ => mirrors_noted _ _
              split
              · exact ih _
              · exact mirrors_noted _ _

end Mirrors

/-! ### Trees that stay -/

/-- Paths lead where they did, and at the root stands the same tree. -/
structure KeepsTree (root : Path) (start disk : Disk) : Prop where
  setting : start.SameSetting disk
  there : disk.isDirectory root = true
  tree : ∀ place, treeBelow root disk place = treeBelow root start place

section KeepsTree

variable {root : Path} {start disk : Disk} {names : Location}

theorem KeepsTree.refl (there : start.isDirectory root = true) : KeepsTree root start start :=
  ⟨.refl start, there, fun _ => rfl⟩

variable (kept : KeepsTree root start disk) (valid : names.all isEntryName = true)

include kept valid

theorem KeepsTree.isDirectory_iff :
    disk.isDirectory (Spot.path ⟨root, names⟩) = true ↔ canEnter root start names = true := by
  rw [isDirectory_spot_iff (Disk.isDirectory_iff.mp kept.there).2 valid, canEnter_iff, kept.tree,
    kept.setting.permits, and_comm]

theorem KeepsTree.childNames : disk.childNames (disk.leadsTo (Spot.path ⟨root, names⟩)) =
    start.childNames (start.leadsTo root ++ names) := by
  have aim : disk.leadsTo (Spot.path ⟨root, names⟩) = start.leadsTo root ++ names := by
    rw [leadsTo_spot disk valid, kept.setting.leadsTo]
  rw [aim]
  refine childNames_congr fun name => ?_
  have same := kept.tree (names ++ [name])
  unfold treeBelow at same
  rw [kept.setting.leadsTo] at same
  rw [List.append_assoc]
  exact same

end KeepsTree

/-! ### Calls in order -/

/-- The directories that asked to be left out are those that are skipped. -/
def Answers (skips : Location → Bool) (calls : List Call) : Prop :=
  ∀ place answer, ⟨.before place, .ok answer⟩ ∈ calls → (skips place = true ↔ answer = .skip)

/-- None of the calls failed. -/
def allFine (calls : List Call) : Prop :=
  ∀ call ∈ calls, call.answer.isOk = true

/-- The calls are about different things, all in a region. -/
structure Distinct (region : Callback → Prop) (calls : List Call) : Prop where
  within : ∀ call ∈ calls, region call.callback
  once : (calls.map Call.callback).Nodup

/-- The calls are all that an order asks for, and none failed. -/
structure Complete (region : Callback → Prop) (order : (Location → Bool) → List Callback)
    (calls : List Call) : Prop where
  distinct : Distinct region calls
  fine : allFine calls
  ordered : ∀ skips, Answers skips calls → calls.map Call.callback = order skips

/-- The calls are those that an order asks for, up to one that failed. -/
structure Broken (region : Callback → Prop) (order : (Location → Bool) → List Callback)
    (cause : Error) (calls : List Call) : Prop where
  distinct : Distinct region calls
  failed : ∃ front callback, calls = front ++ [⟨callback, .error cause⟩] ∧ allFine front
  ordered : ∀ skips, Answers skips calls → calls.map Call.callback <+: order skips

section Calls

variable {region other wider : Callback → Prop} {order later : (Location → Bool) → List Callback}
  {calls more : List Call} {cause : Error} {skips : Location → Bool}

theorem Answers.left (answers : Answers skips (calls ++ more)) : Answers skips calls :=
  fun place answer member => answers place answer (List.mem_append_left _ member)

theorem Answers.right (answers : Answers skips (calls ++ more)) : Answers skips more :=
  fun place answer member => answers place answer (List.mem_append_right _ member)

theorem allFine.append (first : allFine calls) (second : allFine more) : allFine (calls ++ more) := by
  intro call member
  rcases List.mem_append.mp member with early | late
  · exact first call early
  · exact second call late

theorem Distinct.append (first : Distinct region calls) (second : Distinct other more)
    (apart : ∀ callback, region callback → ¬ other callback)
    (covers : ∀ callback, region callback ∨ other callback → wider callback) :
    Distinct wider (calls ++ more) where
  within := by
    intro call member
    rcases List.mem_append.mp member with early | late
    · exact covers _ (.inl (first.within call early))
    · exact covers _ (.inr (second.within call late))
  once := by
    rw [List.map_append, List.nodup_append]
    refine ⟨first.once, second.once, ?_⟩
    rintro _ early _ late rfl
    obtain ⟨one, inside, same⟩ := List.mem_map.mp early
    obtain ⟨two, behind, equal⟩ := List.mem_map.mp late
    have here := first.within one inside
    have there := second.within two behind
    rw [same] at here
    rw [equal] at there
    exact apart _ here there

theorem Complete.append (first : Complete region order calls) (second : Complete other later more)
    (apart : ∀ callback, region callback → ¬ other callback)
    (covers : ∀ callback, region callback ∨ other callback → wider callback) :
    Complete wider (fun skips => order skips ++ later skips) (calls ++ more) where
  distinct := first.distinct.append second.distinct apart covers
  fine := first.fine.append second.fine
  ordered := by
    intro skips answers
    rw [List.map_append, first.ordered skips answers.left, second.ordered skips answers.right]

theorem Complete.broken (first : Complete region order calls) (second : Broken other later cause more)
    (apart : ∀ callback, region callback → ¬ other callback)
    (covers : ∀ callback, region callback ∨ other callback → wider callback) :
    Broken wider (fun skips => order skips ++ later skips) cause (calls ++ more) where
  distinct := first.distinct.append second.distinct apart covers
  failed := by
    obtain ⟨front, callback, rfl, fine⟩ := second.failed
    exact ⟨calls ++ front, callback, (List.append_assoc _ _ _).symm, first.fine.append fine⟩
  ordered := by
    intro skips answers
    rw [List.map_append, first.ordered skips answers.left, List.prefix_append_right_inj]
    exact second.ordered skips answers.right

theorem Broken.mono (broken : Broken region order cause calls)
    (covers : ∀ callback, region callback → wider callback)
    (longer : ∀ skips, Answers skips calls → order skips <+: later skips) :
    Broken wider later cause calls where
  distinct := ⟨fun call member => covers _ (broken.distinct.within call member), broken.distinct.once⟩
  failed := broken.failed
  ordered := fun skips answers => (broken.ordered skips answers).trans (longer skips answers)

theorem Complete.mono (complete : Complete region order calls)
    (covers : ∀ callback, region callback → wider callback)
    (same : ∀ skips, Answers skips calls → order skips = later skips) :
    Complete wider later calls where
  distinct := ⟨fun call member => covers _ (complete.distinct.within call member),
    complete.distinct.once⟩
  fine := complete.fine
  ordered := fun skips answers => (complete.ordered skips answers).trans (same skips answers)

/-- As nothing is told twice, what was left out can be read off the calls. -/
theorem Distinct.answers (distinct : Distinct region calls) : Answers (skipped calls) calls := by
  intro place answer member
  unfold skipped
  rw [List.contains_iff_mem]
  constructor
  · intro asked
    have same := List.inj_on_of_nodup_map distinct.once asked member rfl
    injection same with _ equal
    injection equal with equal
    exact equal.symm
  · rintro rfl
    exact member

end Calls

/-! ### What a walk tells -/

section Tells

variable {σ : Type} {visitor : Visitor σ} {view : σ → Disk} {root : Path} {start : Disk}
  {names : Location} {levels : Nat} {record : Record σ} {region other wider : Callback → Prop}
  {order later : (Location → Bool) → List Callback} {calls : List Call} {cause : Error}

theorem complete_single (callback : Callback) (answer : Descent) :
    Complete (· = callback) (fun _ => [callback]) [⟨callback, .ok answer⟩] where
  distinct := ⟨fun call member => by rw [List.mem_singleton.mp member], List.nodup_singleton _⟩
  fine := fun call member => by
    rw [List.mem_singleton.mp member]
    rfl
  ordered := fun _ _ => rfl

theorem broken_single (callback : Callback) (cause : Error) :
    Broken (· = callback) (fun _ => [callback]) cause [⟨callback, .error cause⟩] where
  distinct := ⟨fun call member => by rw [List.mem_singleton.mp member], List.nodup_singleton _⟩
  failed := ⟨[], callback, rfl, fun _ absent => nomatch absent⟩
  ordered := fun _ _ => List.prefix_rfl

/-- A run that starts after some calls keeps the tree and makes all the calls of an order, or it fails
with the last of those that it makes. -/
def Tells (root : Path) (start : Disk) (view : σ → Disk) (region : Callback → Prop)
    (order : (Location → Bool) → List Callback) (calls : List Call)
    (run : EStateM.Result Error (Record σ) Unit) : Prop :=
  Ends (fun _ after => KeepsTree root start (view after.state) ∧
      ∃ made, after.calls = calls ++ made ∧ Complete region order made)
    (fun cause after => ∃ made, after.calls = calls ++ made ∧ Broken region order cause made) run

theorem Tells.mono {run : EStateM.Result Error (Record σ) Unit}
    (tells : Tells root start view region order calls run)
    (covers : ∀ callback, region callback → wider callback)
    (same : ∀ skips, order skips = later skips) : Tells root start view wider later calls run := by
  refine Ends.mono tells ?_ ?_
  · rintro _ after ⟨kept, made, written, complete⟩
    exact ⟨kept, made, written, complete.mono covers fun skips _ => same skips⟩
  · rintro cause after ⟨made, written, broken⟩
    exact ⟨made, written, broken.mono covers fun skips _ => (same skips).symm ▸ List.prefix_rfl⟩

/-- One run after another makes the calls of the one order and then those of the other. -/
theorem tells_bind {first next : EStateM Error (Record σ) Unit}
    (tells : Tells root start view region order record.calls (first record))
    (then_ : ∀ after, KeepsTree root start (view after.state) →
      Tells root start view other later after.calls (next after))
    (apart : ∀ callback, region callback → ¬ other callback)
    (covers : ∀ callback, region callback ∨ other callback → wider callback) :
    Tells root start view wider (fun skips => order skips ++ later skips) record.calls
      ((first >>= fun _ => next) record) := by
  unfold Tells
  rw [ends_bind_iff]
  refine Ends.mono tells ?_ ?_
  · rintro _ middle ⟨kept, made, written, complete⟩
    refine Ends.mono (then_ middle kept) ?_ ?_
    · rintro _ after ⟨still, more, further, rest⟩
      refine ⟨still, made ++ more, ?_, complete.append rest apart covers⟩
      rw [further, written, List.append_assoc]
    · rintro cause after ⟨more, further, rest⟩
      refine ⟨made ++ more, ?_, complete.broken rest apart covers⟩
      rw [further, written, List.append_assoc]
  · rintro cause after ⟨made, written, broken⟩
    exact ⟨made, written, broken.mono (fun callback inside => covers callback (.inl inside))
      fun skips _ => List.prefix_append _ _⟩

/-- What is told behind a call that went well is told with it. -/
theorem Tells.behind {run : EStateM.Result Error (Record σ) Unit} {callback : Callback}
    {answer : Descent} (tells : Tells root start view region order
      (calls ++ [⟨callback, .ok answer⟩]) run)
    (apart : ¬ region callback) (own : wider callback)
    (covers : ∀ callback, region callback → wider callback)
    (same : ∀ skips, Answers skips [⟨callback, .ok answer⟩] → [callback] ++ order skips = later skips) :
    Tells root start view wider later calls run := by
  have first := complete_single callback answer
  have away : ∀ other, other = callback → ¬ region other := by
    rintro _ rfl
    exact apart
  have all : ∀ other, other = callback ∨ region other → wider other := by
    rintro other (rfl | inside)
    · exact own
    · exact covers other inside
  refine Ends.mono tells ?_ ?_
  · rintro _ after ⟨kept, made, written, complete⟩
    refine ⟨kept, [⟨callback, .ok answer⟩] ++ made, by rw [written, List.append_assoc], ?_⟩
    exact (first.append complete away all).mono (fun _ => id) fun skips answers => same skips answers.left
  · rintro cause after ⟨made, written, broken⟩
    refine ⟨[⟨callback, .ok answer⟩] ++ made, by rw [written, List.append_assoc], ?_⟩
    refine (first.broken broken away all).mono (fun _ => id) fun skips answers => ?_
    exact same skips answers.left ▸ List.prefix_rfl

/-- Going through different items makes the calls of each in turn. -/
theorem tells_forM {items : List String} {action : String → EStateM Error (Record σ) PUnit}
    {regions : String → Callback → Prop} {orders : (Location → Bool) → String → List Callback}
    (distinct : items.Nodup) (kept : KeepsTree root start (view record.state))
    (apart : ∀ one two callback, regions one callback → regions two callback → one = two)
    (each : ∀ item ∈ items, ∀ record, KeepsTree root start (view record.state) →
      Tells root start view (regions item) (orders · item) record.calls (action item record)) :
    Tells root start view (fun callback => ∃ item ∈ items, regions item callback)
      (fun skips => items.flatMap (orders skips)) record.calls (items.forM action record) := by
  induction items generalizing record with
  | nil =>
      refine ⟨kept, [], (List.append_nil _).symm, ⟨?_, List.nodup_nil⟩, ?_, fun _ _ => rfl⟩
      · exact fun _ absent => nomatch absent
      · exact fun _ absent => nomatch absent
  | cons item rest ih =>
      obtain ⟨fresh, others⟩ := List.nodup_cons.mp distinct
      obtain ⟨first, remaining⟩ := List.forall_mem_cons.mp each
      change Tells _ _ _ _ _ _ ((action item >>= fun _ => rest.forM action) record)
      refine tells_bind (first record kept) (fun after still => ih others still remaining) ?_ ?_
      · rintro callback here ⟨one, member, there⟩
        rw [apart item one callback here there] at fresh
        exact fresh member
      · rintro callback (here | ⟨one, member, there⟩)
        · exact ⟨item, List.mem_cons_self, here⟩
        · exact ⟨one, List.mem_cons_of_mem _ member, there⟩

/-! ### One callback -/

/-- A callback that keeps something is written down with its answer. -/
theorem note_ends {kept : σ → Prop} {action : EStateM Error σ Descent} (callback : Callback)
    (keeps : Ends (fun _ => kept) (fun _ => kept) (action record.state)) :
    Ends (fun answer after => kept after.state ∧
        after.calls = record.calls ++ [⟨callback, .ok answer⟩])
      (fun cause after => after.calls = record.calls ++ [⟨callback, .error cause⟩])
      (note callback action record) := by
  unfold note
  cases ran : action record.state with
  | ok answer after => exact ⟨keeps.ok ran, rfl⟩
  | error cause after => exact rfl

theorem noted_tells {action : EStateM Error σ Unit} (callback : Callback)
    (keeps : Ends (fun _ after => KeepsTree root start (view after))
      (fun _ after => KeepsTree root start (view after)) (action record.state)) :
    Tells root start view (· = callback) (fun _ => [callback]) record.calls
      ((discard (note callback do action; return .enter) : EStateM Error (Record σ) Unit) record) := by
  unfold Tells
  rw [ends_discard_iff]
  have noted := @note_ends σ record (fun after => KeepsTree root start (view after))
    (do action; return .enter) callback (by
      rw [ends_bind_iff]
      exact keeps)
  refine noted.mono ?_ ?_
  · rintro answer after ⟨kept, written⟩
    exact ⟨kept, _, written, complete_single callback answer⟩
  · intro cause after written
    exact ⟨_, written, broken_single callback cause⟩

/-! ### A directory -/

theorem callbacks_of_skip {skips : Location → Bool} (leaves : skips names = true) :
    callbacks root start skips names = [.before names] := by
  rw [callbacks_eq, if_pos leaves]

theorem callbacks_of_enter {skips : Location → Bool} (stays : skips names = false) :
    callbacks root start skips names = [.before names] ++
      ((start.childNames (start.leadsTo root ++ names)).flatMap (fun name =>
        childCallbacks root start skips (names ++ [name])) ++ [.after names]) := by
  rw [callbacks_eq, if_neg (by simp [stays]), List.singleton_append]

theorem before_prefix_callbacks {skips : Location → Bool} :
    [.before names] <+: callbacks root start skips names := by
  rw [callbacks_eq]
  exact List.cons_prefix_cons.mpr ⟨rfl, List.nil_prefix⟩

theorem eq_of_below_both {place : Location} {one two : String} (first : names ++ [one] <+: place)
    (second : names ++ [two] <+: place) : one = two := by
  have same := List.prefix_of_prefix_length_le first second (by simp)
  rw [List.prefix_append_right_inj, List.cons_prefix_cons] at same
  exact same.1

/-- A child is walked through if it can be entered, and told like a file if not. -/
theorem childWalk_tells (keeps : visitor.Keeps root fun state => KeepsTree root start (view state))
    (valid : names.all isEntryName = true)
    (walks : ∀ {name record}, canEnter root start (names ++ [name]) = true →
      KeepsTree root start (view record.state) →
        Tells root start view (names ++ [name] <+: ·.place) (callbacks root start · (names ++ [name]))
          record.calls (visitor.recording.walkWithin (fun record => view record.state) levels
            ⟨root, names ++ [name]⟩ record)) :
    ∀ name ∈ start.childNames (start.leadsTo root ++ names), ∀ record : Record σ,
      KeepsTree root start (view record.state) →
        Tells root start view (names ++ [name] <+: ·.place)
          (fun skips => childCallbacks root start skips (names ++ [name])) record.calls
          ((do
            if (view (← get).state).isDirectory (Spot.child ⟨root, names⟩ name).path then
              visitor.recording.walkWithin (fun record => view record.state) levels
                (Spot.child ⟨root, names⟩ name)
            else visitor.recording.file (Spot.child ⟨root, names⟩ name) :
              EStateM Error (Record σ) Unit) record) := by
  intro name member record kept
  obtain ⟨entry, there⟩ := mem_childNames.mp member
  have all : (names ++ [name]).all isEntryName = true :=
    all_isEntryName_concat.mpr ⟨valid, isEntryName_of_entryAt? there⟩
  have asks := kept.isDirectory_iff all
  rw [get_bind]
  unfold Spot.child childCallbacks
  by_cases enters : canEnter root start (names ++ [name]) = true
  · rw [if_pos (asks.mpr enters)]
    exact (walks enters kept).mono (fun _ => id) fun _ => (if_pos enters).symm
  · rw [if_neg (fun open_ => enters (asks.mp open_))]
    refine (noted_tells (.file (names ++ [name]))
      (keeps.file _ record.state all (by simp) kept)).mono ?_ fun _ => (if_neg enters).symm
    rintro _ rfl
    exact List.prefix_rfl

theorem children_ne_after {items : List String} (callback : Callback)
    (inside : ∃ item ∈ items, names ++ [item] <+: callback.place) : ¬ callback = .after names := by
  rintro rfl
  obtain ⟨item, -, below⟩ := inside
  exact not_concat_prefix_self names item below

/-- What is told between the two callbacks of a directory, or by the second, is not the first. -/
theorem children_or_after {items : List String} (callback : Callback)
    (inside : (∃ item ∈ items, names ++ [item] <+: callback.place) ∨ callback = .after names) :
    callback ≠ .before names ∧ names <+: callback.place := by
  rcases inside with ⟨item, -, below⟩ | rfl
  · refine ⟨?_, (List.prefix_append _ _).trans below⟩
    rintro rfl
    exact not_concat_prefix_self names item below
  · exact ⟨nofun, List.prefix_rfl⟩

theorem stays_of_answers {skips : Location → Bool}
    (answers : Answers skips [⟨.before names, .ok .enter⟩]) : skips names = false := by
  rw [← Bool.not_eq_true]
  intro leaves
  cases (answers names .enter (List.mem_singleton.mpr rfl)).mp leaves

theorem shorter_below {name : String} {rest : Location}
    (deep : ∀ rest, canEnter root start (names ++ rest) = true → rest.length < levels + 1)
    (enters : canEnter root start (names ++ [name] ++ rest) = true) : rest.length < levels := by
  rw [List.append_assoc] at enters
  have bound := deep _ enters
  simp only [List.length_append, List.length_singleton] at bound
  omega

/-- As long as the visitor keeps the tree, a walk tells it what the tree and its answers call for. -/
theorem recordedWalk_tells
    (keeps : visitor.Keeps root fun state => KeepsTree root start (view state))
    (enters : canEnter root start names = true)
    (deep : ∀ rest, canEnter root start (names ++ rest) = true → rest.length < levels)
    (kept : KeepsTree root start (view record.state)) :
    Tells root start view (names <+: ·.place) (callbacks root start · names) record.calls
      (visitor.recording.walkWithin (fun record => view record.state) levels ⟨root, names⟩ record) := by
  induction levels generalizing names record with
  | zero =>
      have impossible := deep [] (by rwa [List.append_nil])
      exact absurd impossible (Nat.not_lt_zero _)
  | succ below ih =>
      have valid : names.all isEntryName = true := valid_of_treeBelow (by
        rw [(canEnter_iff.mp enters).1]
        simp)
      have noted := note_ends (.before names) (keeps.before names record.state valid kept)
      have about : ∀ callback : Callback, callback = .before names → names <+: callback.place := by
        rintro _ rfl
        exact List.prefix_rfl
      cases told : visitor.recording.before ⟨root, names⟩ record with
      | error cause after =>
          have written := noted.error told
          unfold Tells Visitor.walkWithin
          rw [ends_bind_iff, told]
          exact ⟨_, written, (broken_single _ _).mono about fun _ _ => before_prefix_callbacks⟩
      | ok descent entered =>
          obtain ⟨still, written⟩ := noted.ok told
          cases descent with
          | skip =>
              unfold Tells Visitor.walkWithin
              rw [ends_bind_iff, told]
              refine ⟨still, _, written, (complete_single _ _).mono about fun skips answers => ?_⟩
              have leaves := (answers names .skip (List.mem_singleton.mpr rfl)).mpr rfl
              exact (callbacks_of_skip leaves).symm
          | enter =>
              have open_ := (still.isDirectory_iff valid).mpr enters
              rw [walkWithin_entered told open_, still.childNames valid]
              have children := tells_forM (nodup_childNames start (start.leadsTo root ++ names)) still
                (fun one two callback here there =>
                  @eq_of_below_both names callback.place one two here there)
                (childWalk_tells keeps valid fun enters =>
                  ih enters fun rest further => shorter_below deep further)
              have rest : ∀ after, KeepsTree root start (view after.state) →
                  Tells root start view (· = .after names) (fun _ => [.after names]) after.calls
                    (visitor.recording.after ⟨root, names⟩ after) := fun after also =>
                noted_tells (.after names) (keeps.after names after.state valid also)
              have inside := tells_bind children rest children_ne_after children_or_after
              rw [written] at inside
              refine inside.behind (fun own => own.1 rfl) List.prefix_rfl (fun _ => And.right)
                fun skips answers => (callbacks_of_enter ?_).symm
              exact stays_of_answers answers

end Tells

/-! ### What an order consists of -/

/-- The directories above a place, from a top on, are all walked through. -/
def walksDownTo (root : Path) (disk : Disk) (skips : Location → Bool) (top place : Location) : Prop :=
  ∀ front, top <+: front → front <+: place → front ≠ place →
    canEnter root disk front = true ∧ skips front = false

/-- The callback is one for what stands at its place: two for a directory that is not left out, and
one for anything else. -/
def Callback.isDue (root : Path) (disk : Disk) (skips : Location → Bool) : Callback → Prop
  | .before place => canEnter root disk place = true
  | .file place => treeBelow root disk place ≠ none ∧ canEnter root disk place = false
  | .after place => canEnter root disk place = true ∧ skips place = false

section Order

variable {root : Path} {disk : Disk} {skips : Location → Bool} {place : Location} {callback : Callback}

theorem treeBelow_of_isDue (due : callback.isDue root disk skips) :
    treeBelow root disk callback.place ≠ none := by
  have directory : ∀ {place}, canEnter root disk place = true → treeBelow root disk place ≠ none := by
    intro place enters
    rw [(canEnter_iff.mp enters).1]
    simp
  cases callback with
  | before place => exact directory due
  | file place => exact due.1
  | after place => exact directory due.1

theorem walksDownTo_self (place : Location) : walksDownTo root disk skips place place := by
  intro front behind below different
  exact absurd (behind.eq_of_length_le below.length_le).symm different

/-- What is due at a directory itself. -/
theorem isDue_here_iff (enters : canEnter root disk place = true) (here : callback.place = place) :
    callback.isDue root disk skips ↔
      callback = .before place ∨ skips place = false ∧ callback = .after place := by
  cases callback with
  | before other =>
      cases here
      exact ⟨fun _ => .inl rfl, fun _ => enters⟩
  | file other =>
      cases here
      constructor
      · rintro ⟨-, shut⟩
        exact absurd (enters.symm.trans shut) (by simp)
      · rintro (same | ⟨-, same⟩) <;> cases same
  | after other =>
      cases here
      constructor
      · exact fun due => .inr ⟨due.2, rfl⟩
      · rintro (same | ⟨stays, -⟩)
        · cases same
        · exact ⟨enters, stays⟩

/-- Below a directory that is walked through, a place is come to through one of its children. -/
theorem exists_child_walked (different : callback.place ≠ place) (below : place <+: callback.place)
    (due : callback.isDue root disk skips)
    (walks : walksDownTo root disk skips place callback.place) :
    ∃ name, name ∈ disk.childNames (disk.leadsTo root ++ place) ∧
      place ++ [name] <+: callback.place ∧
        walksDownTo root disk skips (place ++ [name]) callback.place := by
  obtain ⟨rest, whole⟩ := below
  have some : rest ≠ [] := by
    rintro rfl
    exact different (by rw [← whole, List.append_nil])
  obtain ⟨name, further, rfl⟩ := List.exists_cons_of_ne_nil some
  have within : place ++ [name] <+: callback.place := ⟨further, by rw [← whole]; simp⟩
  refine ⟨name, ?_, within, fun front behind => walks front ((List.prefix_append _ _).trans behind)⟩
  have present := treeBelow_of_isDue due
  rw [← whole] at present
  obtain ⟨other, there, behind⟩ := exists_child some present
  rw [concat_prefix_iff.mp behind] at there
  unfold treeBelow at there
  rw [mem_childNames, List.append_assoc]
  exact Option.ne_none_iff_exists'.mp there

theorem mem_childCallbacks_iff {child : Location}
    (inside : canEnter root disk child = true → (callback ∈ callbacks root disk skips child ↔
      child <+: callback.place ∧ callback.isDue root disk skips ∧
        walksDownTo root disk skips child callback.place))
    (there : treeBelow root disk child ≠ none) :
    callback ∈ childCallbacks root disk skips child ↔ child <+: callback.place ∧
      callback.isDue root disk skips ∧ walksDownTo root disk skips child callback.place := by
  unfold childCallbacks
  by_cases enters : canEnter root disk child = true
  · rw [if_pos enters]
    exact inside enters
  · rw [if_neg enters, List.mem_singleton]
    rw [Bool.not_eq_true] at enters
    constructor
    · rintro rfl
      exact ⟨List.prefix_rfl, ⟨there, enters⟩, walksDownTo_self child⟩
    · rintro ⟨below, due, walks⟩
      have atTop : callback.place = child := by
        by_contra different
        have walked := (walks child List.prefix_rfl below (Ne.symm different)).1
        rw [enters] at walked
        cases walked
      cases callback with
      | file place =>
          cases atTop
          rfl
      | before place =>
          cases atTop
          exact absurd (enters.symm.trans due) (by simp)
      | after place =>
          cases atTop
          exact absurd (enters.symm.trans due.1) (by simp)

theorem mem_callbacks_iff_child : callback ∈ callbacks root disk skips place ↔
    callback = .before place ∨ skips place = false ∧
      ((∃ name ∈ disk.childNames (disk.leadsTo root ++ place),
        callback ∈ childCallbacks root disk skips (place ++ [name])) ∨ callback = .after place) := by
  rw [callbacks_eq, List.mem_cons]
  apply or_congr_right
  cases skips place with
  | true => simp
  | false => simp

/-- What an order calls for: everything that is come to, and nothing else. -/
theorem mem_callbacks_iff (enters : canEnter root disk place = true) :
    callback ∈ callbacks root disk skips place ↔ place <+: callback.place ∧
      callback.isDue root disk skips ∧ walksDownTo root disk skips place callback.place := by
  induction place using callbacks.induct root disk with
  | case1 place ih =>
      have children : ∀ name, name ∈ disk.childNames (disk.leadsTo root ++ place) →
          (callback ∈ childCallbacks root disk skips (place ++ [name]) ↔
            place ++ [name] <+: callback.place ∧ callback.isDue root disk skips ∧
              walksDownTo root disk skips (place ++ [name]) callback.place) := by
        intro name member
        refine mem_childCallbacks_iff (fun inside => ih name inside inside) ?_
        rw [mem_childNames, List.append_assoc] at member
        exact Option.ne_none_iff_exists'.mpr member
      rw [mem_callbacks_iff_child]
      by_cases here : callback.place = place
      · have own : ¬ ∃ name ∈ disk.childNames (disk.leadsTo root ++ place),
            callback ∈ childCallbacks root disk skips (place ++ [name]) := by
          rintro ⟨name, member, told⟩
          have below := ((children name member).mp told).1
          rw [here] at below
          exact not_concat_prefix_self place name below
        rw [or_iff_right own, isDue_here_iff enters here, here]
        exact ⟨fun due => ⟨List.prefix_rfl, due, walksDownTo_self place⟩, fun due => due.2.1⟩
      · constructor
        · rintro (rfl | ⟨stays, ⟨name, member, told⟩ | rfl⟩)
          · exact absurd rfl here
          · obtain ⟨below, due, walks⟩ := (children name member).mp told
            refine ⟨(List.prefix_append _ _).trans below, due, fun front behind within different => ?_⟩
            by_cases first : front = place
            · rw [first]
              exact ⟨enters, stays⟩
            · refine walks front (List.prefix_of_prefix_length_le below within ?_) within different
              rw [List.length_append, List.length_singleton]
              exact lt_of_le_of_ne behind.length_le fun same => first (behind.eq_of_length same).symm
          · exact absurd rfl here
        · rintro ⟨below, due, walks⟩
          obtain ⟨name, member, within, further⟩ := exists_child_walked here below due walks
          exact .inr ⟨(walks place List.prefix_rfl below (Ne.symm here)).2,
            .inl ⟨name, member, (children name member).mpr ⟨within, due, further⟩⟩⟩

theorem canEnter_top (there : disk.isDirectory root = true) : canEnter root disk [] = true := by
  have standing := Disk.isDirectory_iff.mp there
  rw [canEnter_iff, treeBelow, List.append_nil]
  exact ⟨entryAt?_leadsTo_of_stands standing.2, standing.1⟩

end Order

/-! ### Limits -/

/-- The disk, where names and paths may be of any length. -/
def unlimited (disk : Disk) : Disk :=
  { disk with limits := none }

/-- The path of every directory in the tree keeps to the limits. -/
def keepsToLimits (root : Path) (disk : Disk) : Prop :=
  ∀ place, treeBelow root disk place = some .directory → disk.permits (Spot.path ⟨root, place⟩)

theorem permits_unlimited {disk : Disk} {path : Path} (permitted : disk.permits path) :
    (unlimited disk).permits path := by
  obtain ⟨admitted, -⟩ := permitted
  refine ⟨?_, fun segment _ => .inr (.inr rfl)⟩
  unfold admits at admitted ⊢
  rw [Bool.and_eq_true] at admitted ⊢
  exact ⟨admitted.1, rfl⟩

/-- Limits that nothing in the tree comes up to do not matter. -/
theorem callbacks_unlimited {root : Path} {disk : Disk} (skips : Location → Bool)
    (fits : keepsToLimits root disk) (place : Location) :
    callbacks root (unlimited disk) skips place = callbacks root disk skips place := by
  have enters : ∀ place, canEnter root (unlimited disk) place = canEnter root disk place := by
    intro place
    rw [Bool.eq_iff_iff, canEnter_iff, canEnter_iff]
    constructor
    · rintro ⟨directory, -⟩
      exact ⟨directory, fits place directory⟩
    · rintro ⟨directory, permitted⟩
      exact ⟨directory, permits_unlimited permitted⟩
  induction place using callbacks.induct root disk with
  | case1 place ih =>
      have children : ∀ name, childCallbacks root (unlimited disk) skips (place ++ [name]) =
          childCallbacks root disk skips (place ++ [name]) := by
        intro name
        unfold childCallbacks
        rw [enters]
        by_cases inside : canEnter root disk (place ++ [name]) = true
        · rw [if_pos inside, if_pos inside, ih name inside]
        · rw [if_neg inside, if_neg inside]
      have listed : (unlimited disk).childNames ((unlimited disk).leadsTo root ++ place) =
          disk.childNames (disk.leadsTo root ++ place) := rfl
      rw [callbacks_eq, callbacks_eq, listed, funext children]

/-! ### Walks -/

/-- A visitor was told of everything that a tree holds, but for what it asked to leave out. -/
structure ToldAll (root : Path) (disk : Disk) (calls : List Call) : Prop where
  fine : allFine calls
  answers : Answers (skipped calls) calls
  inOrder : calls.map Call.callback = callbacks root disk (skipped calls) []
  once : (calls.map Call.callback).Nodup
  every : ∀ callback, callback ∈ calls.map Call.callback ↔
    callback.isDue root disk (skipped calls) ∧ walksDownTo root disk (skipped calls) [] callback.place

/-- A visitor was told what comes first in a tree, up to a callback that failed. Whatever would be left
out of the rest makes no difference. -/
structure ToldUntil (root : Path) (disk : Disk) (cause : Error) (calls : List Call) : Prop where
  failed : ∃ front callback, calls = front ++ [⟨callback, .error cause⟩] ∧ allFine front
  answers : Answers (skipped calls) calls
  inOrder : ∀ skips, Answers skips calls → calls.map Call.callback <+: callbacks root disk skips []
  once : (calls.map Call.callback).Nodup

/-- A visitor that keeps the tree is told of it in order, up to the end or to the first failure, which is
that of the walk. To write this down changes nothing. -/
theorem walkTree_tells_in_order {σ : Type} {visitor : Visitor σ} {view : σ → Disk} {root : Path}
    {state : σ} (there : (view state).isDirectory root = true)
    (keeps : visitor.Keeps root fun after => KeepsTree root (view state) (view after)) :
    forget (walkTree visitor.recording (fun record => view record.state) root ⟨state, []⟩) =
        walkTree visitor view root state ∧
      Ends (fun _ after => ToldAll root (view state) after.calls)
        (fun cause after => ToldUntil root (view state) cause after.calls)
        (walkTree visitor.recording (fun record => view record.state) root ⟨state, []⟩) := by
  refine ⟨mirrors_walkWithin visitor view _ _ ⟨state, []⟩, ?_⟩
  have deep : ∀ rest, canEnter root (view state) ([] ++ rest) = true →
      rest.length < levelBound (view state) := by
    intro rest enters
    obtain ⟨directory, permitted⟩ := canEnter_iff.mp enters
    exact length_lt_levelBound permitted (by
      rw [List.nil_append] at directory
      rw [directory]
      simp)
  have tells := @recordedWalk_tells σ visitor view root (view state) [] (levelBound (view state))
    ⟨state, []⟩ keeps (canEnter_top there) deep (.refl there)
  change Ends _ _ (visitor.recording.walkWithin _ (levelBound (view state)) ⟨root, []⟩ ⟨state, []⟩)
  refine Ends.mono tells ?_ ?_
  · rintro _ after ⟨-, made, written, complete⟩
    rw [List.nil_append] at written
    subst written
    have answers := complete.distinct.answers
    have order := complete.ordered _ answers
    refine ⟨complete.fine, answers, order, complete.distinct.once, fun callback => ?_⟩
    rw [order, mem_callbacks_iff (canEnter_top there), and_iff_right List.nil_prefix]
  · rintro cause after ⟨made, written, broken⟩
    rw [List.nil_append] at written
    subst written
    exact ⟨broken.failed, broken.distinct.answers, broken.ordered, broken.distinct.once⟩

def walkedEntries : List (Location × Entry) :=
  [(["t"], .directory), (["t", "a"], .file ⟨#[1]⟩), (["t", "b"], .directory),
    (["t", "b", "c"], .file ⟨#[2]⟩), (["t", "d"], .directory), (["t", "d", "e"], .directory),
    (["t", "d", "f"], .file ⟨#[3]⟩), (["t", "g"], .file ⟨#[4]⟩)]

def walkedDisk : Disk :=
  { entries := walkedEntries
    workingDirectory := []
    limits := some ⟨255, 4095⟩
    keysDistinct := by decide +kernel
    parentsThere := by decide +kernel
    namesValid := by decide +kernel }

/-- A visitor that leaves one directory out and fails at a file. -/
def choosy : Visitor Disk :=
  { before := fun spot => pure (if spot.names = ["b"] then .skip else .enter)
    file := fun spot =>
      if spot.names = ["d", "f"] then throw (.invalidPath "Stopped" spot.path) else pure ()
    after := fun _ => pure () }

theorem choosy_keeps (root : Path) (start : Disk) :
    choosy.Keeps root fun after => KeepsTree root start after where
  before := fun _ _ _ kept => kept
  file := by
    intro names state _ _ kept
    unfold choosy
    dsimp only
    split
    · exact kept
    · exact kept
  after := fun _ _ _ kept => kept

/-- What was written down by the end of a walk. -/
def callsOf {σ α : Type} : EStateM.Result Error (Record σ) α → List Call
  | .ok _ after => after.calls
  | .error _ after => after.calls

theorem walkTree_of_sample_tells_in_order : walkedDisk.isDirectory ⟨"t"⟩ = true ∧
    choosy.Keeps ⟨"t"⟩ (fun after => KeepsTree ⟨"t"⟩ walkedDisk after) ∧
    forget (walkTree choosy.recording (fun record => record.state) ⟨"t"⟩ ⟨walkedDisk, []⟩) =
        walkTree choosy id ⟨"t"⟩ walkedDisk ∧
      Ends (fun _ after => ToldAll ⟨"t"⟩ walkedDisk after.calls)
        (fun cause after => ToldUntil ⟨"t"⟩ walkedDisk cause after.calls)
        (walkTree choosy.recording (fun record => record.state) ⟨"t"⟩ ⟨walkedDisk, []⟩) :=
  have there : walkedDisk.isDirectory ⟨"t"⟩ = true := by decide +kernel
  ⟨there, choosy_keeps _ _, walkTree_tells_in_order there (choosy_keeps _ _)⟩

example : callsOf (walkTree choosy.recording (fun record => record.state) ⟨"t"⟩ ⟨walkedDisk, []⟩) =
    [⟨.before [], .ok .enter⟩, ⟨.file ["a"], .ok .enter⟩, ⟨.before ["b"], .ok .skip⟩,
      ⟨.before ["d"], .ok .enter⟩, ⟨.before ["d", "e"], .ok .enter⟩, ⟨.after ["d", "e"], .ok .enter⟩,
      ⟨.file ["d", "f"], .error (.invalidPath "Stopped" ⟨"t/d/f"⟩)⟩] := by
  decide +kernel

/-! ### A path that is too long -/

def slashedDisk : Disk :=
  { entries := [(["d"], .directory), (["d", "e"], .directory), (["d", "e", "f"], .file ⟨#[1]⟩)]
    workingDirectory := []
    limits := some ⟨255, 5⟩
    keysDistinct := by decide +kernel
    parentsThere := by decide +kernel
    namesValid := by decide +kernel }

/-- Without its slashes the path of the directory would not be too long. -/
theorem slashed_walk_not_told : slashedDisk.isDirectory ⟨"d////"⟩ = true ∧
    Visitor.idle.Keeps ⟨"d////"⟩ (fun after => KeepsTree ⟨"d////"⟩ slashedDisk after) ∧
    ¬ Ends (fun _ after => ToldAll ⟨"d////"⟩ (unlimited slashedDisk) after.calls)
        (fun cause after => ToldUntil ⟨"d////"⟩ (unlimited slashedDisk) cause after.calls)
        (walkTree Visitor.idle.recording (fun record => record.state) ⟨"d////"⟩ ⟨slashedDisk, []⟩) := by
  refine ⟨by decide +kernel, ⟨fun _ _ _ kept => kept, fun _ _ _ _ kept => kept, fun _ _ _ kept => kept⟩,
    ?_⟩
  intro ends
  have calls : callsOf (walkTree Visitor.idle.recording (fun record => record.state) ⟨"d////"⟩
      ⟨slashedDisk, []⟩) = [⟨.before [], .ok .enter⟩, ⟨.file ["e"], .ok .enter⟩,
        ⟨.after [], .ok .enter⟩] := by
    decide +kernel
  cases ran : walkTree Visitor.idle.recording (fun record => record.state) ⟨"d////"⟩
      ⟨slashedDisk, []⟩ with
  | ok _ after =>
      have told := ends.ok ran
      rw [ran] at calls
      change after.calls = _ at calls
      have due := (told.every (.file ["e"])).mp (by rw [calls]; decide)
      exact absurd due.1.2 (by decide +kernel)
  | error cause after =>
      obtain ⟨front, callback, whole, -⟩ := (ends.error ran).failed
      rw [ran] at calls
      change after.calls = _ at calls
      have last := congrArg List.getLast? (whole.symm.trans calls)
      rw [List.getLast?_concat] at last
      simp at last

end CrossBuild.Artifacts
