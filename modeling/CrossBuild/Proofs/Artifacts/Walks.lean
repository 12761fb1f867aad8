/-
Walks through a tree, whatever the visitor does.

What a visitor finds on the way depends on what it changes, so a walk is described by something that
each of its steps keeps: either for any spot, or for the names that a directory holds when it is entered.
Which levels a walk needs is not said here.
-/

import CrossBuild.Artifacts.LargeFiles
import CrossBuild.Proofs.Files.Effects

namespace CrossBuild.Artifacts

open Files Files.Disk Runs

section Walks

variable {σ : Type} {visitor : Visitor σ} {view : σ → Disk} {spot : Spot} {before state : σ}
  {levels : Nat} {good : Unit → σ → Prop} {bad : Error → σ → Prop}
  (enters : visitor.before spot before = .ok .enter state)

include enters

theorem walkWithin_refused (closed : (view state).isDirectory spot.path ≠ true)
    (refused : bad (.refused .readDirectory spot.path) state) :
    Ends good bad (visitor.walkWithin view (levels + 1) spot before) := by
  have unlisted : (view state).list? spot.path = none := by
    rw [Option.eq_none_iff_forall_ne_some]
    exact fun names listed => closed (list?_eq_some_iff.mp listed).1
  unfold Visitor.walkWithin
  rw [ends_bind_iff, enters, ends_ok_iff]
  dsimp only
  rw [ends_bind_iff, ends_get_iff, unlisted]
  exact refused

/-- Walking through a directory goes through the names it holds on entry. -/
theorem walkWithin_entered (entered : (view state).isDirectory spot.path = true) :
    visitor.walkWithin view (levels + 1) spot before = (do
      ((view state).childNames ((view state).leadsTo spot.path)).forM fun name => do
        if (view (← get)).isDirectory (spot.child name).path then
          visitor.walkWithin view levels (spot.child name)
        else visitor.file (spot.child name)
      visitor.after spot : EStateM Error σ Unit) state := by
  conv_lhs => unfold Visitor.walkWithin
  change EStateM.bind (visitor.before spot) _ before = _
  unfold EStateM.bind
  rw [enters]
  dsimp only
  rw [get_bind, list?_eq_some_iff.mpr ⟨entered, rfl⟩]

theorem walkWithin_ends (entered : (view state).isDirectory spot.path = true)
    (invariant : List String → σ → Prop) (first : invariant [] state)
    (step : ∀ visited name rest next,
      (view state).childNames ((view state).leadsTo spot.path) = visited ++ name :: rest →
        invariant visited next → Ends (fun _ => invariant (visited ++ [name])) bad
          ((if (view next).isDirectory (spot.child name).path then
            visitor.walkWithin view levels (spot.child name)
          else visitor.file (spot.child name)) next))
    (leaving : ∀ next, invariant ((view state).childNames ((view state).leadsTo spot.path)) next →
      Ends good bad (visitor.after spot next)) :
    Ends good bad (visitor.walkWithin view (levels + 1) spot before) := by
  rw [walkWithin_entered enters entered, ends_bind_iff]
  refine (ends_forM invariant first fun visited name rest next whole kept => ?_).mono
    (fun _ => leaving) fun _ _ failed => failed
  rw [ends_bind_iff, ends_get_iff]
  exact step visited name rest next whole kept

end Walks

/-- What a visitor keeps at each spot below a root is kept by its walk, however that ends. -/
structure Visitor.Keeps {σ : Type} (visitor : Visitor σ) (root : Path) (kept : σ → Prop) : Prop where
  before : ∀ names state, names.all isEntryName = true → kept state →
    Ends (fun _ => kept) (fun _ => kept) (visitor.before ⟨root, names⟩ state)
  file : ∀ names state, names.all isEntryName = true → names ≠ [] → kept state →
    Ends (fun _ => kept) (fun _ => kept) (visitor.file ⟨root, names⟩ state)
  after : ∀ names state, names.all isEntryName = true → kept state →
    Ends (fun _ => kept) (fun _ => kept) (visitor.after ⟨root, names⟩ state)

theorem Visitor.Keeps.walkWithin {σ : Type} {visitor : Visitor σ} {view : σ → Disk} {root : Path}
    {kept : σ → Prop} (keeps : visitor.Keeps root kept) {levels : Nat} {names : Location} {state : σ}
    (valid : names.all isEntryName = true) (holds : kept state) :
    Ends (fun _ => kept) (fun _ => kept) (visitor.walkWithin view levels ⟨root, names⟩ state) := by
  induction levels generalizing names state with
  | zero => exact holds
  | succ below ih =>
      unfold Visitor.walkWithin
      rw [ends_bind_iff]
      refine (keeps.before names state valid holds).mono (fun descent entered holds => ?_)
        fun _ _ holds => holds
      cases descent with
      | skip => exact holds
      | enter =>
          dsimp only
          rw [ends_bind_iff, ends_get_iff]
          cases listed : (view entered).list? (Spot.path ⟨root, names⟩) with
          | none => exact holds
          | some items =>
              obtain ⟨-, rfl⟩ := list?_eq_some_iff.mp listed
              dsimp only
              rw [ends_bind_iff]
              refine (ends_forM (fun _ => kept) holds fun visited item rest state whole holds => ?_).mono
                (fun _ state holds => keeps.after names state valid holds) fun _ _ holds => holds
              obtain ⟨entry, there⟩ := mem_childNames.mp (mem_childNames_of_turn whole)
              have all : (names ++ [item]).all isEntryName = true :=
                all_isEntryName_concat.mpr ⟨valid, isEntryName_of_entryAt? there⟩
              rw [ends_bind_iff, ends_get_iff]
              split
              · exact ih all holds
              · exact keeps.file _ state all (by simp) holds

/-- Two walks that enter directories with the same names stay together if they do so at each of them. -/
theorem walkWithin_together {σ τ : Type} {visitor : Visitor σ} {other : Visitor τ} {view : σ → Disk}
    {seen : τ → Disk} {spot beside : Spot} {before state : σ} {prior stage : τ} {levels others : Nat}
    {final : σ → τ → Prop} (enters : visitor.before spot before = .ok .enter state)
    (also : other.before beside prior = .ok .enter stage)
    (entered : (view state).isDirectory spot.path = true)
    (open_ : (seen stage).isDirectory beside.path = true)
    (same : (seen stage).childNames ((seen stage).leadsTo beside.path) =
      (view state).childNames ((view state).leadsTo spot.path))
    (alike : List String → σ → τ → Prop) (first : alike [] state stage)
    (step : ∀ visited name rest next following,
      (view state).childNames ((view state).leadsTo spot.path) = visited ++ name :: rest →
        alike visited next following → Together (alike (visited ++ [name]))
          ((if (view next).isDirectory (spot.child name).path then
            visitor.walkWithin view levels (spot.child name)
          else visitor.file (spot.child name)) next)
          ((if (seen following).isDirectory (beside.child name).path then
            other.walkWithin seen others (beside.child name)
          else other.file (beside.child name)) following))
    (leaving : ∀ next following,
      alike ((view state).childNames ((view state).leadsTo spot.path)) next following →
        Together final (visitor.after spot next) (other.after beside following)) :
    Together final (visitor.walkWithin view (levels + 1) spot before)
      (other.walkWithin seen (others + 1) beside prior) := by
  rw [walkWithin_entered enters entered, walkWithin_entered also open_, same]
  exact together_bind (together_forM alike first step) fun _ next _ following => leaving next following

theorem countingWalk_ends {visitor : Visitor Tally} {directory : Path} {disk : Disk}
    {good : Nat → Disk → Prop} {bad : Error → Disk → Prop}
    (walked : Ends (fun _ after => good after.count after.disk) (fun cause after => bad cause after.disk)
      (visitor.walkWithin Tally.disk (levelBound disk) ⟨directory, []⟩ ⟨disk, 0⟩)) :
    Ends good bad (countingWalk visitor directory disk) := by
  have same : walkTree visitor Tally.disk directory ⟨disk, 0⟩ =
      visitor.walkWithin Tally.disk (levelBound disk) ⟨directory, []⟩ ⟨disk, 0⟩ := rfl
  unfold countingWalk
  rw [same]
  cases ran : visitor.walkWithin Tally.disk (levelBound disk) ⟨directory, []⟩ ⟨disk, 0⟩ with
  | ok _ after => exact walked.ok ran
  | error cause after => exact walked.error ran

/-- A walk that counts stays together with another run if it does so without counting. -/
theorem together_countingWalk {σ α : Type} {visitor : Visitor Tally} {directory : Path} {disk : Disk}
    {alike : σ → Disk → Prop} {run : EStateM.Result Error σ α}
    (walked : Together (fun left right => alike left right.disk) run
      (visitor.walkWithin Tally.disk (levelBound disk) ⟨directory, []⟩ ⟨disk, 0⟩)) :
    Together alike run (countingWalk visitor directory disk) := by
  have same : walkTree visitor Tally.disk directory ⟨disk, 0⟩ =
      visitor.walkWithin Tally.disk (levelBound disk) ⟨directory, []⟩ ⟨disk, 0⟩ := rfl
  unfold countingWalk
  rw [same]
  generalize visitor.walkWithin Tally.disk (levelBound disk) ⟨directory, []⟩ ⟨disk, 0⟩ = other at walked
  cases run with
  | ok value left =>
      cases other with
      | ok _ right => exact walked
      | error cause right => exact walked
  | error cause left =>
      cases other with
      | ok _ right => exact walked
      | error cause right => trivial

/-- The same for one action. -/
theorem together_counting {σ α : Type} {action : Action (Option Path)} {tally : Tally}
    {alike : σ → Disk → Prop} {run : EStateM.Result Error σ α}
    (together : Together alike run (action tally.disk)) :
    Together (fun left right => alike left right.disk) run (counting action tally) := by
  unfold counting
  generalize action tally.disk = other at together
  cases run with
  | ok value left =>
      cases other with
      | ok result right => exact together
      | error cause right => exact together
  | error cause left =>
      cases other with
      | ok result right => exact together
      | error cause right => trivial

end CrossBuild.Artifacts
