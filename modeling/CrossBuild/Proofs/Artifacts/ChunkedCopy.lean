/-
Large files on the way and afterwards.

Copying into an empty directory with merging comes to the same as copying first and merging the copy, and
the same holds for splitting where the source has no directories of parts. That is said of any source,
with directories of parts in one another or beside each other, and of runs that fail as well. The source
stays as it is in any case.
-/

import CrossBuild.Proofs.Artifacts.Containment
import CrossBuild.Proofs.Artifacts.MergingCopy

namespace CrossBuild.Artifacts

open Files Files.Disk Runs

section Walk

variable {source target : Path} {start left : Disk} {ahead : Location → Prop}
  {past view : Location → Option Entry} {names : Location} {visited : List String} {tally : Tally}

/-- Of what a directory holds, only what stands under names that have not been visited is ahead. -/
private def unvisited (source : Path) (start : Disk) (names : Location) (visited : List String)
    (ahead : Location → Prop) (place : Location) : Prop :=
  ahead place ∧ (names <+: place → ∃ item, treeBelow source start (names ++ [item]) ≠ none ∧
    item ∉ visited ∧ names ++ [item] <+: place)

private theorem unvisited_none {place : Location} (waits : ahead place) (different : place ≠ names)
    (there : treeBelow source start place ≠ none) :
    unvisited source start names [] ahead place := by
  refine ⟨waits, ?_⟩
  rintro ⟨behind, rfl⟩
  obtain ⟨item, child, around⟩ := exists_child (fun own => different (by rw [own, List.append_nil])) there
  exact ⟨item, child, List.not_mem_nil, around⟩

private theorem unvisited_child {item : String} (waits : ∀ inner, names <+: inner → inner ≠ [] → ahead inner)
    (listed : treeBelow source start (names ++ [item]) ≠ none) (unseen : item ∉ visited)
    {inner : Location} (within : names ++ [item] <+: inner) :
    unvisited source start names visited ahead inner := by
  refine ⟨waits inner ((List.prefix_append _ _).trans within) ?_, fun _ => ⟨item, listed, unseen, within⟩⟩
  rintro rfl
  simp at within

/-- After one more name, what stands under it is not ahead any more. -/
private theorem unvisited_concat {item : String} {place : Location} :
    unvisited source start names (visited ++ [item]) ahead place ↔
      unvisited source start names visited ahead place ∧ ¬ names ++ [item] <+: place := by
  constructor
  · rintro ⟨waits, under⟩
    refine ⟨⟨waits, fun within => ?_⟩, fun around => ?_⟩
    · obtain ⟨other, listed, unseen, around⟩ := under within
      exact ⟨other, listed, fun earlier => unseen (List.mem_append_left _ earlier), around⟩
    · obtain ⟨other, -, unseen, beside⟩ := under ((List.prefix_append _ _).trans around)
      obtain ⟨behind, rfl⟩ := around
      rw [List.append_assoc, List.singleton_append, concat_prefix_iff] at beside
      exact unseen (List.mem_append_right _ (List.mem_singleton.mpr beside))
  · rintro ⟨⟨waits, under⟩, outside⟩
    refine ⟨waits, fun within => ?_⟩
    obtain ⟨other, listed, unseen, around⟩ := under within
    refine ⟨other, listed, fun member => ?_, around⟩
    rcases List.mem_append.mp member with earlier | own
    · exact unseen earlier
    · rw [List.mem_singleton.mp own] at around
      exact outside around

/-- Once all names have been visited, nothing of what the directory holds is ahead. -/
private theorem unvisited_all (whole : ∀ item, treeBelow source start (names ++ [item]) ≠ none → item ∈ visited)
    (rest : Location) : ¬ unvisited source start names visited ahead (names ++ rest) := by
  intro waits
  obtain ⟨item, there, unseen, -⟩ := waits.2 (List.prefix_append _ _)
  exact unseen (whole item there)

/-- When a directory has been entered, what it holds is still ahead. -/
private theorem Lockstep.entered {right : Disk}
    (together : Lockstep source target start (fun place => ahead place ∧ place ≠ names) past view left right) :
    Lockstep source target start (unvisited source start names [] ahead) past view left right := by
  refine together.drop (fun place waits => ⟨waits.1, ?_⟩) fun place waits behind => ?_
  · rintro rfl
    obtain ⟨item, -, -, around⟩ := waits.2 List.prefix_rfl
    simpa using around.length_le
  · by_contra there
    exact behind (unvisited_none waits.1 waits.2 there)

/-- Below a file there is nothing that could be ahead. -/
private theorem Lockstep.belowFile {right : Disk} {content : ByteArray}
    (together : Lockstep source target start (fun place => ahead place ∧ place ≠ names) past view left right)
    (isFile : treeBelow source start names = some (.file content)) :
    Lockstep source target start (fun place => ahead place ∧ ¬ names <+: place) past view left right := by
  refine together.drop (fun place waits => ⟨waits.1, ?_⟩) fun place waits behind => ?_
  · rintro rfl
    exact waits.2 List.prefix_rfl
  · by_contra present
    have within : names <+: place := by
      by_contra outside
      exact behind ⟨waits.1, outside⟩
    exact waits.2 (eq_of_below_file isFile within present)

/-- When what stands under a name has been seen to, the name has been visited. -/
private theorem Lockstep.passed {right : Disk} {item : String}
    (together : Lockstep source target start (fun place =>
      unvisited source start names visited ahead place ∧ ¬ names ++ [item] <+: place) past view left right) :
    Lockstep source target start (unvisited source start names (visited ++ [item]) ahead) past view left
      right :=
  together.drop (fun _ waits => unvisited_concat.mp waits)
    fun _ waits behind => absurd (unvisited_concat.mpr waits) behind

/-- When it is left, nothing of it is. -/
private theorem Lockstep.finished {right : Disk}
    (together : Lockstep source target start (unvisited source start names visited ahead) past view left right)
    (whole : ∀ item, treeBelow source start (names ++ [item]) ≠ none → item ∈ visited) :
    Lockstep source target start (fun place => ahead place ∧ ¬ names <+: place) past view left right := by
  refine together.drop (fun place waits => ⟨waits.1, fun within => absurd within waits.2⟩)
    fun place waits inside => ?_
  exfalso
  refine inside ⟨waits.1, ?_⟩
  rintro ⟨rest, rfl⟩
  exact unvisited_all whole rest waits

private theorem Copied.parent {threshold : Threshold} {tree : Location → Option Entry} {disk : Disk}
    (known : Copied threshold target start tree [] disk) (strict : names ≠ [])
    (there : tree names ≠ none) : tree names.dropLast = some .directory := by
  obtain ⟨entry, found⟩ := Option.ne_none_iff_exists'.mp there
  have stored := known.planted.inside
  rw [funext (partly_nil threshold tree)] at stored
  rw [← stored] at found ⊢
  have above := entryAt?_dropLast found
  rwa [List.dropLast_append_of_ne_nil strict] at above

/-- Both walks see to what stands under one more name, and stay alike. -/
private theorem Lockstep.child (fresh : FreshTarget source target start)
    (able : copyable source target start) {levels others : Nat} {item : String}
    (whole : ∀ {ahead : Location → Prop} {past view : Location → Option Entry} {left : Disk}
      {tally : Tally}, Lockstep source target start ahead past view left tally.disk →
      treeBelow source start (names ++ [item]) = some .directory →
      (∀ inner, names ++ [item] <+: inner → inner ≠ [] → ahead inner) →
      past names = some .directory →
      (∀ base, item = base ++ splitSuffix → base ≠ "" → ¬ ahead (names ++ [base])) →
      Together (fun after later => ∃ past view, Lockstep source target start
          (fun place => ahead place ∧ ¬ names ++ [item] <+: place) past view after later.disk ∧
            past names = some .directory)
        (Visitor.walkWithin (copyVisitor target .merge) id levels ⟨source, names ++ [item]⟩ left)
        (Visitor.walkWithin mergeVisitor Tally.disk others ⟨target, names ++ [item]⟩ tally))
    (together : Lockstep source target start (unvisited source start names visited ahead) past view left
      tally.disk)
    (waiting : ∀ inner, names <+: inner → inner ≠ [] → ahead inner)
    (listed : treeBelow source start (names ++ [item]) ≠ none) (unseen : item ∉ visited)
    (top : past names = some .directory)
    (beside : ∀ base, item = base ++ splitSuffix → base ≠ "" →
      ¬ unvisited source start names visited ahead (names ++ [base])) :
    Together (fun after later => ∃ past view, Lockstep source target start
        (unvisited source start names (visited ++ [item]) ahead) past view after later.disk ∧
          past names = some .directory)
      ((if left.isDirectory (Spot.path ⟨source, names ++ [item]⟩) then
          Visitor.walkWithin (copyVisitor target .merge) id levels ⟨source, names ++ [item]⟩
        else (copyVisitor target .merge).file ⟨source, names ++ [item]⟩) left)
      ((if tally.disk.isDirectory (Spot.path ⟨target, names ++ [item]⟩) then
          Visitor.walkWithin mergeVisitor Tally.disk others ⟨target, names ++ [item]⟩
        else mergeVisitor.file ⟨target, names ++ [item]⟩) tally) := by
  have valid := valid_of_treeBelow listed
  have strict : names ++ [item] ≠ [] := by simp
  have inner : ∀ place, names ++ [item] <+: place → unvisited source start names visited ahead place :=
    fun place within => unvisited_child waiting listed unseen within
  have own := inner _ List.prefix_rfl
  have like := (together.waiting _ own).2
  obtain ⟨filled, stored⟩ := together.planted
  have isSource := fresh.isDirectory_source filled together.filling.top valid
  have isTarget := fresh.isDirectory_target stored together.whole.top valid
  rw [Spot.path_of_names valid strict, like] at isTarget
  obtain ⟨readable, reached⟩ := able _ listed
  rw [@Spot.path_of_names target _ valid strict]
  cases found : treeBelow source start (names ++ [item]) with
  | none => exact absurd found listed
  | some entry =>
      cases entry with
      | directory =>
          rw [if_pos (isSource.mpr ⟨readable, found⟩), if_pos (isTarget.mpr ⟨reached, found⟩)]
          refine (whole together found (fun place within _ => inner place within) top beside).mono
            fun after later walked => ?_
          obtain ⟨past, view, walked, top⟩ := walked
          exact ⟨past, view, walked.passed, top⟩
      | file content =>
          have noSource : ¬ left.isDirectory (Spot.path ⟨source, names ++ [item]⟩) = true := by
            rw [isSource, found]
            simp
          have noTarget : ¬ tally.disk.isDirectory (target.joinNames (names ++ [item])) = true := by
            rw [isTarget, found]
            simp
          rw [if_neg noSource, if_neg noTarget]
          have above : past (names ++ [item]).dropLast = some .directory := by
            rw [List.dropLast_concat, top]
          obtain ⟨after, replaced, copied⟩ :=
            together.copyFile fresh valid able found strict above own
          change Together _ (replaceFile (Spot.path ⟨source, names ++ [item]⟩)
            (target.joinNames (names ++ [item])) left) (.ok () tally)
          rw [replaced]
          refine ⟨_, view, (copied.belowFile found).passed, ?_⟩
          rw [Function.update_of_ne (by simp), top]

/-- Both walks can list a directory that has been made, and find the names of the source in it. -/
private theorem Lockstep.listed (fresh : FreshTarget source target start)
    (able : copyable source target start) {right : Disk}
    (together : Lockstep source target start (fun place => ahead place ∧ place ≠ names) past view left right)
    (directory : treeBelow source start names = some .directory) (present : past names = some .directory)
    (waiting : ∀ item, ahead (names ++ [item])) :
    (left.isDirectory (Spot.path ⟨source, names⟩) = true ∧
      right.isDirectory (Spot.path ⟨target, names⟩) = true) ∧
      ∀ item, (item ∈ left.childNames (left.leadsTo (Spot.path ⟨source, names⟩)) ↔
          treeBelow source start (names ++ [item]) ≠ none) ∧
        (item ∈ right.childNames (right.leadsTo (Spot.path ⟨target, names⟩)) ↔
          treeBelow source start (names ++ [item]) ≠ none) := by
  have there : treeBelow source start names ≠ none := by
    rw [directory]
    simp
  have valid := valid_of_treeBelow there
  obtain ⟨filled, stored⟩ := together.planted
  rw [together.caught names fun waits => waits.2 rfl] at present
  have permitted : start.permits (Spot.path ⟨target, names⟩) := by
    by_cases atTop : names = []
    · rw [atTop]
      exact (isDirectory_iff.mp fresh.targetThere).1
    · rw [Spot.path_of_names valid atTop]
      exact (able names there).2
  refine ⟨⟨?_, ?_⟩, fun item => ⟨?_, ?_⟩⟩
  · exact (fresh.isDirectory_source filled together.filling.top valid).mpr ⟨(able names there).1, directory⟩
  · exact (fresh.isDirectory_target stored together.whole.top valid).mpr ⟨permitted, present⟩
  · rw [mem_childNames_spot valid, fresh.treeBelow_source filled]
  · rw [mem_childNames_spot valid, treeBelow_of_plants stored,
      (together.waiting _ ⟨waiting item, by simp⟩).2]

/-- What is below a directory, if it is all ahead, is seen to by both walks, and both stay alike. -/
private theorem Lockstep.walk (fresh : FreshTarget source target start)
    (able : copyable source target start) {bound boundAlso levels others : Nat}
    (shallow : ∀ place, treeBelow source start place ≠ none →
      place.length < bound ∧ place.length < boundAlso)
    (together : Lockstep source target start ahead past view left tally.disk)
    (directory : treeBelow source start names = some .directory)
    (waiting : ∀ inner, names <+: inner → inner ≠ [] → ahead inner)
    (parent : names ≠ [] → past names.dropLast = some .directory)
    (beside : ∀ front base, names = front ++ [base ++ splitSuffix] → base ≠ "" →
      ¬ ahead (front ++ [base]))
    (deep : names.length + levels = bound) (deepAlso : names.length + others = boundAlso) :
    Together (fun after later => ∃ past view, Lockstep source target start
        (fun place => ahead place ∧ ¬ names <+: place) past view after later.disk ∧
          (names ≠ [] → past names.dropLast = some .directory))
      (Visitor.walkWithin (copyVisitor target .merge) id levels ⟨source, names⟩ left)
      (Visitor.walkWithin mergeVisitor Tally.disk others ⟨target, names⟩ tally) := by
  have there : treeBelow source start names ≠ none := by
    rw [directory]
    simp
  have valid := valid_of_treeBelow there
  induction levels generalizing names left tally ahead past view others with
  | zero =>
      have bounded := (shallow names there).1
      omega
  | succ below ih =>
      cases others with
      | zero =>
          have bounded := (shallow names there).2
          omega
      | succ belowAlso =>
          obtain ⟨made, enters, entered⟩ := together.enter fresh valid able directory parent
            fun strict => waiting names List.prefix_rfl strict
          obtain ⟨⟨readable, open_⟩, listed⟩ := entered.listed fresh able directory
            (Function.update_self _ _ _) fun item => waiting _ (List.prefix_append _ _) (by simp)
          refine walkWithin_together enters rfl readable open_
            (childNames_eq fun item => (listed item).2.trans (listed item).1.symm)
            (fun visited state following => ∃ past view, Lockstep source target start
              (unvisited source start names visited ahead) past view state following.disk ∧
                past names = some .directory) ?first ?step ?leaving
          case first => exact ⟨_, view, entered.entered, Function.update_self _ _ _⟩
          case step =>
            rintro visited item rest next following whole ⟨past, view, kept, top⟩
            refine kept.child fresh able (fun kept directory waiting top beside => ?_) waiting
              ((listed item).1.mp (mem_childNames_of_turn whole)) (notMem_visited whole) top ?_
            · refine (ih kept directory waiting (fun _ => by rw [List.dropLast_concat, top])
                (fun front base same nonempty => ?_) ?_ ?_ (by rw [directory]; simp)
                (valid_of_treeBelow (by rw [directory]; simp))).mono fun after later walked => ?_
              · obtain ⟨rfl, last⟩ := List.append_inj' same rfl
                exact beside base (List.singleton_inj.mp last) nonempty
              · rw [List.length_append, List.length_singleton]
                omega
              · rw [List.length_append, List.length_singleton]
                omega
              · obtain ⟨past, view, walked, above⟩ := walked
                have stays := above (by simp)
                rw [List.dropLast_concat] at stays
                exact ⟨past, view, walked, stays⟩
            · -- the file of the parts has a name before that of their directory
              rintro base rfl nonempty waits
              obtain ⟨other, there, unvisited, around⟩ := waits.2 (List.prefix_append _ _)
              rw [concat_prefix_iff] at around
              subst around
              exact unvisited ((mem_visited_iff whole).mpr ⟨(listed other).1.mpr there,
                lt_append_splitSuffix other⟩)
          case leaving =>
            rintro next following ⟨past, view, kept, top⟩
            have all := fun item => (listed item).1.mpr
            have above : names ≠ [] → past names.dropLast = some .directory := fun strict =>
              kept.filling.parent strict (by rw [top]; simp)
            refine (kept.leave fresh valid rfl able directory above (unvisited_all all)
              fun front base same nonempty waits => beside front base same nonempty waits.1).mono
                fun after later left => ?_
            obtain ⟨past, view, left, above⟩ := left
            exact ⟨past, view, left.finished all, above⟩

end Walk

/-! ### What is left alone -/

/-- Outside a directory nothing has changed. -/
structure Spares (target : Path) (before after : Disk) : Prop where
  setting : before.SameSetting after
  outside : ∀ other, ¬ before.leadsTo target <+: other → after.entryAt? other = before.entryAt? other

/-- However the run ends, nothing has changed outside a directory. -/
def KeepsOutside {α : Type} (target : Path) (before : Disk) : EStateM.Result Error Disk α → Prop :=
  Ends (fun _ => Spares target before) fun _ => Spares target before

section Spares

variable {source target : Path} {start middle after : Disk}

theorem Spares.trans (first : Spares target start middle) (second : Spares target middle after) :
    Spares target start after := by
  refine ⟨first.setting.trans second.setting, fun other apart => ?_⟩
  rw [second.outside other (by rw [first.setting.leadsTo]; exact apart), first.outside other apart]

theorem Spares.of_changesBelow (changed : start.ChangesBelow (start.leadsTo target) after) :
    Spares target start after :=
  ⟨changed.setting, fun _ apart => changed.outside apart⟩

/-- Where the directory was there, nothing had to be made on the way to it. -/
theorem Spares.of_staysWithin (standing : start.stands target)
    (held : StaysWithin source target start after) : Spares target start after := by
  refine ⟨held.setting, fun other apart => ?_⟩
  rcases held.elsewhere other apart with same | ⟨absent, -, onWay⟩
  · exact same
  · rw [standing other onWay] at absent
    cases absent

theorem Spares.treeBelow_source (fresh : FreshTarget source target start)
    (spared : Spares target start after) : treeBelow source after = treeBelow source start := by
  funext place
  unfold treeBelow
  rw [spared.setting.leadsTo]
  apply spared.outside
  intro within
  rcases List.prefix_or_prefix_of_prefix within (List.prefix_append _ place) with below | above
  · exact fresh.targetApart below
  · exact fresh.sourceApart above

theorem KeepsOutside.bind {α β : Type} {first : Action α} {next : α → Action β}
    (here : KeepsOutside target start (first start))
    (further : ∀ value middle, Spares target start middle → KeepsOutside target middle (next value middle)) :
    KeepsOutside target start ((first >>= next) start) := by
  refine ends_bind_iff.mpr (Ends.mono here (fun value middle spared => ?_) fun _ _ spared => spared)
  exact Ends.mono (further value middle spared) (fun _ _ later => spared.trans later)
    fun _ _ later => spared.trans later

theorem ends_counting {good bad : Disk → Prop} {action : Action (Option Path)} {tally : Tally}
    (ends : Ends (fun _ => good) (fun _ => bad) (action tally.disk)) :
    Ends (fun _ after => good after.disk) (fun _ after => bad after.disk) (counting action tally) := by
  unfold counting
  cases ran : action tally.disk with
  | ok result after => exact ends.ok ran
  | error cause after => exact ends.error ran

theorem mergeLargeFiles_keepsOutside (plain : target.fileName?.bind mergedName? = none) :
    KeepsOutside target start (mergeLargeFiles target start) := by
  have keeps : mergeVisitor.Keeps target fun tally => Spares target start tally.disk :=
    { before := fun _ _ _ spared => spared
      file := fun _ _ _ _ spared => spared
      after := by
        intro names tally valid spared
        apply @ends_counting (Spares target start) (Spares target start)
        cases names using List.reverseRecOn with
        | nil =>
            rw [show Spot.path ⟨target, []⟩ = target from rfl, mergeDirectory_of_plain plain]
            exact spared
        | append_singleton front name =>
            obtain ⟨frontValid, own⟩ := all_isEntryName_concat.mp valid
            have confined := @mergeDirectory_confined tally.disk (target.joinNames front) name own
            rw [leadsTo_joinNames frontValid] at confined
            rw [Spot.path_of_names valid (by simp), ← Path.joinName_joinNames target valid]
            have below := confined.widen (List.prefix_append (tally.disk.leadsTo target) front)
            exact Ends.mono below (fun _ _ changed => spared.trans (.of_changesBelow changed))
              fun _ _ changed => spared.trans (.of_changesBelow changed) }
  exact countingWalk_ends (keeps.walkWithin rfl ⟨.refl start, fun _ _ => rfl⟩)

theorem splitLargeFiles_keepsOutside (threshold : Threshold) (standing : start.stands target) :
    KeepsOutside target start (splitLargeFiles threshold target start) := by
  have keeps : (splitVisitor threshold).Keeps target fun tally =>
      StaysWithin target target start tally.disk :=
    { before := by
        intro names tally valid held
        unfold splitVisitor
        rw [ends_bind_iff, ends_get_iff]
        split
        · exact held
        · exact held
      file := by
        intro names tally valid strict held
        apply @ends_counting (StaysWithin target target start) (StaysWithin target target start)
        obtain ⟨front, name, rfl⟩ := List.eq_nil_or_concat names |>.resolve_left strict
        rw [List.concat_eq_append] at valid ⊢
        obtain ⟨frontValid, own⟩ := all_isEntryName_concat.mp valid
        rw [Spot.path_of_names valid (by simp), ← Path.joinName_joinNames target valid]
        exact (splitFile_keepsWithin held ((LeadsInto.refl target start).joinNames frontValid) own).ends
      after := fun _ _ _ held => held }
  refine countingWalk_ends ((keeps.walkWithin rfl (.refl start)).mono (fun _ _ held => ?_)
    fun _ _ held => ?_)
  · exact .of_staysWithin standing held
  · exact .of_staysWithin standing held

theorem copyTree_keepsOutside (fresh : FreshTarget source target start) (largeFiles : LargeFiles) :
    KeepsOutside target start (copyTree source target largeFiles start) := by
  have standing := (isDirectory_iff.mp fresh.targetThere).2
  by_cases merges : largeFiles = .merge
  · rw [merges]
    have keeps := copyVisitor_confined standing (fresh.keepsOut standing)
      (neverMerged_joinNames_nil.mpr (.inl fresh.sourceName))
    exact (keeps.walkWithin rfl (.refl start _)).mono (fun _ _ changed => .of_changesBelow changed)
      fun _ _ changed => .of_changesBelow changed
  · have keeps := (copyTree_keepsWithin merges (@StaysWithin.refl source target start) List.prefix_rfl
      (LeadsInto.refl target start)).ends
    exact keeps.mono (fun _ _ held => .of_staysWithin standing held)
      fun _ _ held => .of_staysWithin standing held

end Spares

/-! ### Whole copies -/

section Whole

variable {source target : Path} {start disk : Disk} {names : Location} {levels : Nat}

/-- The part of a tree at and below a place can be read and stored. -/
private def reachable (source target : Path) (start : Disk) (names : Location) : Prop :=
  ∀ inner, names <+: inner → treeBelow source start inner ≠ none →
    start.permits (Spot.path ⟨source, inner⟩) ∧ start.permits (target.joinNames inner)

variable (fresh : FreshTarget source target start)

include fresh

private theorem replaceFile_reaches (changed : start.ChangesBelow (start.leadsTo target) disk)
    (valid : names.all isEntryName = true) :
    Ends (fun _ _ => reachable source target start names) (fun _ _ => True)
      (replaceFile (Spot.path ⟨source, names⟩) (target.joinNames names) disk) := by
  refine Ends.of_results (fun _ after done => ?_) fun _ _ _ => trivial
  obtain ⟨content, readable, isFile, reached, -⟩ := replaceFile_ok done
  rw [leadsTo_spot disk (show (Spot.mk source names).names.all isEntryName = true from valid)] at isFile
  have file : treeBelow source start names = some (.file content) := by
    rw [← (Spares.of_changesBelow changed).treeBelow_source fresh]
    exact isFile
  rintro inner within present
  rw [eq_of_below_file file within present]
  exact ⟨(changed.setting.permits _).mp readable, (changed.setting.permits _).mp reached⟩

private theorem FreshTarget.confined :
    (copyVisitor target .merge).Keeps source (start.ChangesBelow (start.leadsTo target)) :=
  copyVisitor_confined (isDirectory_iff.mp fresh.targetThere).2
    (fresh.keepsOut (isDirectory_iff.mp fresh.targetThere).2)
    (neverMerged_joinNames_nil.mpr (.inl fresh.sourceName))

/-- What is copied for one more name keeps to the limits, if it does in a directory there. -/
private theorem copyChild_reaches (changed : start.ChangesBelow (start.leadsTo target) disk)
    (valid : names.all isEntryName = true) (strict : names ≠ [])
    (walked : treeBelow source start names = some .directory →
      Ends (fun _ _ => reachable source target start names) (fun _ _ => True)
        (Visitor.walkWithin (copyVisitor target .merge) id levels ⟨source, names⟩ disk)) :
    Ends (fun _ after => start.ChangesBelow (start.leadsTo target) after ∧
        reachable source target start names) (fun _ _ => True)
      ((if (id disk : Disk).isDirectory (Spot.path ⟨source, names⟩) then
          Visitor.walkWithin (copyVisitor target .merge) id levels ⟨source, names⟩
        else (copyVisitor target .merge).file ⟨source, names⟩) disk) := by
  split
  · rename_i isDirectory
    have inner : treeBelow source start names = some .directory := by
      have sourceStands := (isDirectory_iff.mp fresh.sourceThere).2
      have stood := changed.stands (fresh.keepsOut sourceStands) sourceStands
      rw [← (Spares.of_changesBelow changed).treeBelow_source fresh]
      exact ((isDirectory_spot_iff stood valid).mp isDirectory).2
    exact ((fresh.confined.walkWithin valid changed).and (walked inner)).mono
      (fun _ _ both => both) fun _ _ _ => trivial
  · exact ((fresh.confined.file _ disk valid strict changed).and
      (replaceFile_reaches fresh changed valid)).mono (fun _ _ both => both) fun _ _ _ => trivial

/-- What a copy with merging comes to keeps to the limits. -/
private theorem copyWithin_reaches (changed : start.ChangesBelow (start.leadsTo target) disk)
    (directory : treeBelow source start names = some .directory) :
    Ends (fun _ _ => reachable source target start names) (fun _ _ => True)
      (Visitor.walkWithin (copyVisitor target .merge) id levels ⟨source, names⟩ disk) := by
  have standing := (isDirectory_iff.mp fresh.targetThere).2
  have outside := fresh.keepsOut standing
  have there : treeBelow source start names ≠ none := by
    rw [directory]
    simp
  have valid := valid_of_treeBelow there
  induction levels generalizing names disk with
  | zero => trivial
  | succ below ih =>
      have entering := fresh.confined.before names disk valid changed
      cases ran : (copyVisitor target .merge).before ⟨source, names⟩ disk with
      | error cause after =>
          unfold Visitor.walkWithin
          rw [ends_bind_iff, ran]
          trivial
      | ok descent state =>
          have kept := entering.ok ran
          obtain ⟨_, made, making, same⟩ := bind_ok_iff.mp ran
          obtain ⟨rfl, rfl⟩ := pure_ok_iff.mp same
          obtain ⟨reached, -, -⟩ := makeDirectories_joinNames_ok valid (.inl fresh.spelled)
            (changed.stands outside standing) (attempt_ok_iff.mp making)
          by_cases readable : (id made : Disk).isDirectory (Spot.path ⟨source, names⟩) = true
          case neg => exact walkWithin_refused ran readable trivial
          refine walkWithin_ends ran readable (fun visited next =>
            start.ChangesBelow (start.leadsTo target) next ∧
              ∀ item ∈ visited, reachable source target start (names ++ [item]))
            ⟨kept, fun _ absent => absurd absent List.not_mem_nil⟩ (fun visited item rest next whole held => ?_)
            fun next held => Ends.of_results (fun _ _ _ => ?_) fun _ _ _ => trivial
          · have present : treeBelow source start (names ++ [item]) ≠ none := by
              have member := mem_childNames_of_turn whole
              rw [id, mem_childNames_spot valid, (Spares.of_changesBelow kept).treeBelow_source fresh] at member
              exact member
            have valid := valid_of_treeBelow present
            refine (copyChild_reaches fresh held.1 valid (by simp) fun inner => ih held.1 inner present valid).mono
              (fun _ after both => ⟨both.1, fun other member => ?_⟩) fun _ _ _ => trivial
            rcases List.mem_append.mp member with earlier | own
            · exact held.2 other earlier
            · rw [List.mem_singleton.mp own]
              exact both.2
          · rintro _ ⟨behind, rfl⟩ present
            by_cases own : behind = []
            · rw [own, List.append_nil]
              refine ⟨?_, (changed.setting.permits _).mp reached⟩
              exact (kept.setting.permits _).mp (isDirectory_iff.mp readable).1
            · obtain ⟨item, child, around⟩ := exists_child own present
              refine held.2 item ?_ _ around present
              rw [mem_childNames_spot valid, id, (Spares.of_changesBelow kept).treeBelow_source fresh]
              exact child

private theorem FreshTarget.top : treeBelow source start [] = some .directory := by
  unfold treeBelow
  rw [List.append_nil]
  exact entryAt?_leadsTo_of_stands (isDirectory_iff.mp fresh.sourceThere).2

/-- A copy with merging takes paths within the limits, as any copy does. -/
private theorem copyTree_merge_ends :
    Ends (fun _ _ => copyable source target start) (fun _ _ => True)
      (copyTree source target .merge start) := by
  unfold copyTree walkTree
  rw [ends_bind_iff, ends_get_iff]
  exact (copyWithin_reaches fresh (.refl start _) fresh.top).mono
    (fun _ _ reached place => reached place List.nil_prefix) fun _ _ _ => trivial

/-- Merging on the way comes to the same as merging what has been copied. -/
private theorem copyTree_merge_together (able : copyable source target start)
    (copied : Copied .default target start (treeBelow source start) [] disk) :
    Together (fun left right => treeBelow target left = treeBelow target right)
      (copyTree source target .merge start) (mergeLargeFiles target disk) := by
  have stored : ∀ place, treeBelow target disk place = treeBelow source start place := by
    intro place
    rw [treeBelow_of_plants copied.planted, partly_nil]
  have shallow : ∀ place, treeBelow source start place ≠ none →
      place.length < levelBound start ∧ place.length < levelBound disk := by
    intro place there
    refine ⟨length_lt_levelBound (able place there).1 there, ?_⟩
    refine @length_lt_levelBound disk target place ((copied.planted.setting.permits _).mpr ?_) ?_
    · by_cases atTop : place = []
      · rw [atTop]
        exact (isDirectory_iff.mp fresh.targetThere).1
      · rw [Spot.path_of_names (valid_of_treeBelow there) atTop]
        exact (able place there).2
    · rw [stored]
      exact there
  have first : Lockstep source target start (fun place => place ≠ []) (treeBelow target start)
      (treeBelow source start) start disk :=
    { filling := fresh.copied .default
      whole := copied
      waiting := fun place strict => ⟨fresh.vacant place strict, rfl⟩
      caught := by
        intro place atTop
        rw [not_not.mp atTop, (fresh.copied .default).top, fresh.top]
      reached := fun place there => (able place there).2 }
  apply together_countingWalk
  have walked := @Lockstep.walk source target start start (fun place => place ≠ [])
    (treeBelow target start) (treeBelow source start) [] ⟨disk, 0⟩ fresh able _ _ (levelBound start)
    (levelBound disk) shallow first fresh.top (fun _ _ strict => strict) (fun strict => absurd rfl strict)
    (fun front base same => by simp at same) (by simp) (by simp)
  refine walked.mono fun left right ended => ?_
  obtain ⟨past, view, ended, -⟩ := ended
  obtain ⟨filled, whole⟩ := ended.planted
  funext place
  rw [treeBelow_of_plants filled, treeBelow_of_plants whole]
  exact ended.caught place fun ahead => ahead.2 List.nil_prefix

end Whole

/-- Two runs leave the same below the target or both fail, and neither changes the source. -/
structure ComesToSame (source target : Path) (start : Disk) {α β : Type}
    (one : EStateM.Result Error Disk α) (other : EStateM.Result Error Disk β) : Prop where
  alike : Together (fun left right => treeBelow target left = treeBelow target right) one other
  sourceKept : Ends (fun _ after => treeBelow source after = treeBelow source start)
    (fun _ after => treeBelow source after = treeBelow source start) one
  sourceKeptAlso : Ends (fun _ after => treeBelow source after = treeBelow source start)
    (fun _ after => treeBelow source after = treeBelow source start) other

section ComesToSame

variable {source target : Path} {start : Disk} (fresh : FreshTarget source target start)

include fresh

private theorem KeepsOutside.sourceKept {α : Type} {result : EStateM.Result Error Disk α}
    (outside : KeepsOutside target start result) :
    Ends (fun _ after => treeBelow source after = treeBelow source start)
      (fun _ after => treeBelow source after = treeBelow source start) result :=
  Ends.mono outside (fun _ _ spared => spared.treeBelow_source fresh)
    fun _ _ spared => spared.treeBelow_source fresh

private theorem merging_comesToSame :
    ComesToSame source target start (copyTree source target .merge start)
      ((do
        copyTree source target .keep
        mergeLargeFiles target : Action Nat) start) where
  alike := by
    have merged := copyTree_merge_ends fresh
    have copied := copyTree_keep_ends fresh .default
    change Together _ _ (EStateM.bind (copyTree source target .keep) _ start)
    unfold EStateM.bind
    cases ran : copyTree source target .keep start with
    | ok _ disk =>
        obtain ⟨able, whole⟩ := copied.ok ran
        exact copyTree_merge_together fresh able whole
    | error cause disk =>
        have unable := copied.error ran
        cases also : copyTree source target .merge start with
        | ok _ after => exact unable (merged.ok also)
        | error cause after => trivial
  sourceKept := (copyTree_keepsOutside fresh .merge).sourceKept fresh
  sourceKeptAlso := KeepsOutside.sourceKept fresh
    (KeepsOutside.bind (copyTree_keepsOutside fresh .keep) fun _ _ _ =>
      mergeLargeFiles_keepsOutside fresh.targetName)

private theorem splitting_comesToSame {threshold : Threshold}
    (free : unsuffixed (treeBelow source start)) :
    ComesToSame source target start (copyTree source target (.split threshold) start)
      ((do
        copyTree source target .keep
        splitLargeFiles threshold target : Action Nat) start) where
  alike := by
    have afterwards : Ends (fun _ after => (copyable source target start ∧
          dividable threshold target start (treeBelow source start)) ∧
        ∃ split, Copied threshold target start (treeBelow source start) split after ∧
          allSplit threshold (treeBelow source start) split)
        (fun _ _ => ¬ (copyable source target start ∧
          dividable threshold target start (treeBelow source start)))
        ((copyTree source target .keep >>= fun _ => splitLargeFiles threshold target : Action Nat)
          start) := by
      refine ends_bind_iff.mpr ((copyTree_keep_ends fresh threshold).mono (fun _ disk whole => ?_)
        fun _ _ failed able => failed able.1)
      exact (splitLargeFiles_copied_ends fresh free whole.1 whole.2).mono
        (fun _ _ divided => ⟨⟨whole.1, divided.1⟩, divided.2⟩) fun _ _ failed able => failed able.2
    refine together_of_ends (copyTree_split_ends fresh free) afterwards fun left right one other => ?_
    obtain ⟨split, state, all⟩ := one
    obtain ⟨others, stateAlso, allAlso⟩ := other
    exact state.treeBelow_eq all stateAlso allAlso
  sourceKept := (copyTree_keepsOutside fresh (.split threshold)).sourceKept fresh
  sourceKeptAlso := by
    have copied := (copyTree_keepsOutside fresh .keep).and (copyTree_keep_ends fresh threshold)
    apply KeepsOutside.sourceKept fresh
    refine ends_bind_iff.mpr (copied.mono (fun _ disk both => ?_) fun _ _ both => both.1)
    obtain ⟨spared, -, whole⟩ := both
    exact Ends.mono (splitLargeFiles_keepsOutside threshold (whole.stands fresh))
      (fun _ _ later => spared.trans later) fun _ _ later => spared.trans later

end ComesToSame

/-- Merging on the way comes to the same as merging afterwards, and where no name is that of a directory
of parts, so does splitting. -/
theorem chunking_on_the_way_agrees {source target : Path} {start : Disk}
    (fresh : FreshTarget source target start) :
    ComesToSame source target start (copyTree source target .merge start)
        ((do
          copyTree source target .keep
          mergeLargeFiles target : Action Nat) start) ∧
      (unsuffixed (treeBelow source start) → ∀ threshold,
        ComesToSame source target start (copyTree source target (.split threshold) start)
          ((do
            copyTree source target .keep
            splitLargeFiles threshold target : Action Nat) start)) :=
  ⟨merging_comesToSame fresh, fun free _ => splitting_comesToSame fresh free⟩

/-- A directory of parts of which one is in parts itself, and beside it one that would become a file of
its name. -/
def overlappingEntries : List (Location × Entry) :=
  [(["s"], .directory), (["s", "a.split.file.dir"], .directory),
    (["s", "a.split.file.dir", "xx.00"], .file ⟨#[1]⟩),
    (["s", "a.split.file.dir", "xx.01.split.file.dir"], .directory),
    (["s", "a.split.file.dir", "xx.01.split.file.dir", "xx.00"], .file ⟨#[2]⟩),
    (["s", "a.split.file.dir.split.file.dir"], .directory),
    (["s", "a.split.file.dir.split.file.dir", "xx.00"], .file ⟨#[3]⟩), (["t"], .directory)]

def overlappingDisk : Disk :=
  { entries := overlappingEntries
    workingDirectory := []
    limits := some ⟨255, 4095⟩
    keysDistinct := by decide +kernel
    parentsThere := by decide +kernel
    namesValid := by decide +kernel }

/-- The parts are merged from the inside out, and then the other directory takes the free place. -/
theorem chunking_of_overlapping_agrees : FreshTarget ⟨"s"⟩ ⟨"t"⟩ overlappingDisk ∧
    ComesToSame ⟨"s"⟩ ⟨"t"⟩ overlappingDisk (copyTree ⟨"s"⟩ ⟨"t"⟩ .merge overlappingDisk)
      ((do
        copyTree ⟨"s"⟩ ⟨"t"⟩ .keep
        mergeLargeFiles ⟨"t"⟩ : Action Nat) overlappingDisk) := by
  have aims : overlappingDisk.leadsTo ⟨"s"⟩ = ["s"] ∧ overlappingDisk.leadsTo ⟨"t"⟩ = ["t"] := by
    decide +kernel
  have fresh : FreshTarget ⟨"s"⟩ ⟨"t"⟩ overlappingDisk := by
    constructor
    case sourceThere => decide +kernel
    case targetThere => decide +kernel
    case vacant =>
      intro place strict
      unfold treeBelow
      rw [aims.2]
      cases found : overlappingDisk.entryAt? (["t"] ++ place) with
      | none => rfl
      | some entry =>
          exfalso
          have listed := (entryAt?_eq_some_iff (by simp)).mp found
          have alone : ∀ item ∈ overlappingEntries, ["t"] <+: item.1 → item.1 = ["t"] := by
            decide +kernel
          have same := alone _ listed (List.prefix_append _ _)
          rw [List.append_right_eq_self] at same
          exact strict same
    case sourceApart =>
      rw [aims.1, aims.2]
      decide
    case targetApart =>
      rw [aims.1, aims.2]
      decide
    case sourceName => decide +kernel
    case targetName => decide +kernel
  exact ⟨fresh, (chunking_on_the_way_agrees fresh).1⟩

end CrossBuild.Artifacts
