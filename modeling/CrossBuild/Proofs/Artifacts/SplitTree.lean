/-
Splitting the files of a whole tree.

The walk leaves out directories of parts, old ones and those that it makes. A file comes before the
directory of its parts, so the walk meets each file as it was at the start. If it comes to the end, the
files that it replaced are those above the threshold. If a file has too many parts, they are those it has
passed, and nothing is left half done. Other failures are not described.
-/

import CrossBuild.Proofs.Artifacts.Reduced
import CrossBuild.Proofs.Artifacts.Walks

namespace CrossBuild.Artifacts

open Files Files.Disk Runs

/-! ### Levels -/

/-- A walk has more levels than there are directories below each other. -/
theorem length_lt_levelBound {disk : Disk} {root : Path} {place : Location}
    (permitted : disk.permits (Spot.path ⟨root, place⟩)) (there : treeBelow root disk place ≠ none) :
    place.length < levelBound disk := by
  unfold levelBound
  cases limited : disk.limits with
  | none =>
      have fits := length_le_height there
      rw [List.length_append] at fits
      dsimp only
      omega
  | some limits =>
      dsimp only
      by_cases atTop : place = []
      · rw [atTop]
        exact Nat.succ_pos _
      · have valid := valid_of_treeBelow there
        rw [Spot.path_of_names valid atTop] at permitted
        have fits := length_le_of_permits valid limited permitted
        omega

/-! ### Splitting what is large -/

/-- The large files of some kind have been split, and counted, after others were. What is of that kind
and in no directory of parts was come to. -/
structure SplitsFurther (threshold : Threshold) (root : Path) (start : Disk)
    (kind : Location → Prop) (split more : List Location) (before after : Tally) : Prop where
  state : Reduced threshold root start (split ++ more) after.disk
  count : after.count = before.count + more.length
  within : ∀ file ∈ more, kind file
  complete : ∀ file content, isPlain file.dropLast → kind file →
    treeBelow root start file = some (.file content) → threshold.bytes < content.size → file ∈ more
  reached : ∀ place, isPlain place.dropLast → kind place → treeBelow root start place ≠ none →
    start.permits (Spot.path ⟨root, place⟩)

/-- If a file has too many parts, some files are in parts and nothing else has changed. -/
def stopsReduced (threshold : Threshold) (root : Path) (start : Disk) (cause : Error)
    (after : Disk) : Prop :=
  ∀ path size parts, cause = .capacity path size parts →
    ∃ split, Reduced threshold root start split after

section SplitTree

variable {threshold : Threshold} {root : Path} {start : Disk} {split more : List Location}
  {names : Location} {name : String} {before tally : Tally} {levels : Nat}

/-- Nothing is done where there is nothing large. -/
theorem SplitsFurther.refl {kind : Location → Prop}
    (known : Reduced threshold root start split tally.disk)
    (small : ∀ place, isPlain place.dropLast → kind place → treeBelow root start place ≠ none →
      start.permits (Spot.path ⟨root, place⟩) ∧ ∀ content,
        treeBelow root start place = some (.file content) → content.size ≤ threshold.bytes) :
    SplitsFurther threshold root start kind split [] tally tally where
  state := by
    rw [List.append_nil]
    exact known
  count := rfl
  within := fun _ absent => nomatch absent
  complete := fun file content outside fits there large => by
    have fine := (small file outside fits (by rw [there]; simp)).2 content there
    omega
  reached := fun place outside fits there => (small place outside fits there).1

theorem SplitsFurther.trans {kind other : Location → Prop} {others : List Location} {after : Tally}
    (first : SplitsFurther threshold root start kind split more before tally)
    (second : SplitsFurther threshold root start other (split ++ more) others tally after) :
    SplitsFurther threshold root start (fun file => kind file ∨ other file) split (more ++ others)
      before after where
  state := by
    rw [← List.append_assoc]
    exact second.state
  count := by
    rw [second.count, first.count, List.length_append, Nat.add_assoc]
  within := by
    intro file member
    rcases List.mem_append.mp member with early | late
    · exact .inl (first.within file early)
    · exact .inr (second.within file late)
  complete := by
    intro file content outside fits there large
    rcases fits with early | late
    · exact List.mem_append_left _ (first.complete file content outside early there large)
    · exact List.mem_append_right _ (second.complete file content outside late there large)
  reached := by
    intro place outside fits there
    rcases fits with early | late
    · exact first.reached place outside early there
    · exact second.reached place outside late there

/-- Directories that are come to may be added to what was gone through. -/
theorem SplitsFurther.extend {kind other : Location → Prop} {after : Tally}
    (splits : SplitsFurther threshold root start kind split more before after)
    (wider : ∀ place, kind place → other place)
    (new : ∀ place, isPlain place.dropLast → treeBelow root start place ≠ none → other place →
      kind place ∨ treeBelow root start place = some .directory ∧
        start.permits (Spot.path ⟨root, place⟩)) :
    SplitsFurther threshold root start other split more before after where
  state := splits.state
  count := splits.count
  within := fun file member => wider file (splits.within file member)
  complete := by
    intro file content outside fits there large
    rcases new file outside (by rw [there]; simp) fits with old | ⟨directory, -⟩
    · exact splits.complete file content outside old there large
    · rw [there] at directory
      cases directory
  reached := by
    intro place outside fits there
    rcases new place outside there fits with old | ⟨-, permitted⟩
    · exact splits.reached place outside old there
    · exact permitted

theorem eq_of_below_file {place other : Location} {content : ByteArray}
    (file : treeBelow root start place = some (.file content)) (below : place <+: other)
    (present : treeBelow root start other ≠ none) : other = place := by
  have same := (prefix_iff_eq_of_file file present).mp ((List.prefix_append_right_inj _).mpr below)
  exact List.append_cancel_left same

/-- What is below a directory lies at or below something directly in it. -/
theorem exists_child {behind : Location} (some : behind ≠ [])
    (there : treeBelow root start (names ++ behind) ≠ none) :
    ∃ other, treeBelow root start (names ++ [other]) ≠ none ∧ names ++ [other] <+: names ++ behind := by
  obtain ⟨other, rest, rfl⟩ := List.exists_cons_of_ne_nil some
  refine ⟨other, ?_, concat_prefix_iff.mpr rfl⟩
  obtain ⟨entry, found⟩ := Option.ne_none_iff_exists'.mp there
  unfold treeBelow at found ⊢
  by_cases last : rest = []
  · rw [last] at found
    rw [found]
    simp
  · rw [← List.singleton_append, ← List.append_assoc, ← List.append_assoc,
      List.append_assoc (start.leadsTo root)] at found
    rw [entryAt?_above found last]
    simp

/-- No place in a directory of parts counts as outside of all of them. -/
theorem eq_of_below_box {place : Location} {base : String} (outside : isPlain place.dropLast)
    (nonempty : base ≠ "") (below : names ++ [base ++ splitSuffix] <+: place) :
    place = names ++ [base ++ splitSuffix] := by
  cases place using List.reverseRecOn with
  | nil => simp at below
  | append_singleton front last =>
      rw [List.dropLast_concat] at outside
      obtain ⟨same, rfl⟩ := eq_of_partsPlace_prefix outside nonempty below
      rw [(List.append_inj' same rfl).1]

theorem splitVisitor_enters {spot : Spot} (other : isSplitDirectory tally.disk spot.path = false) :
    (splitVisitor threshold).before spot tally = .ok .enter tally := by
  change (if isSplitDirectory tally.disk spot.path then pure .skip
    else pure .enter : EStateM Error Tally Descent) tally = _
  rw [other]
  rfl

theorem splitVisitor_skips {spot : Spot} (parts : isSplitDirectory tally.disk spot.path = true) :
    (splitVisitor threshold).walkWithin Tally.disk (levels + 1) spot tally = .ok () tally := by
  have skips : (splitVisitor threshold).before spot tally = .ok .skip tally := by
    change (if isSplitDirectory tally.disk spot.path then pure .skip
      else pure .enter : EStateM Error Tally Descent) tally = _
    rw [parts]
    rfl
  unfold Visitor.walkWithin
  rw [bind_ok_iff]
  exact ⟨.skip, tally, skips, rfl⟩

/-- Going on to the next name splits the large files below it. -/
theorem splitChild_ends
    (whole : ∀ {split names tally}, Reduced threshold root start split tally.disk → isPlain names →
      treeBelow root start names = some .directory → (∀ file ∈ split, ¬ names <+: file) →
      Ends (fun _ after => ∃ more, SplitsFurther threshold root start (names <+: ·) split more tally after)
        (fun cause after => stopsReduced threshold root start cause after.disk)
        ((splitVisitor threshold).walkWithin Tally.disk levels ⟨root, names⟩ tally))
    (known : Reduced threshold root start split tally.disk) (plain : isPlain names)
    (child : treeBelow root start (names ++ [name]) ≠ none)
    (fresh : ∀ file ∈ split, ¬ names ++ [name] <+: file)
    (noBox : names ++ [name ++ splitSuffix] ∉ split) :
    Ends (fun _ after => ∃ more,
        SplitsFurther threshold root start (names ++ [name] <+: ·) split more tally after)
      (fun cause after => stopsReduced threshold root start cause after.disk)
      ((if tally.disk.isDirectory (Spot.path ⟨root, names ++ [name]⟩) then
          (splitVisitor threshold).walkWithin Tally.disk levels ⟨root, names ++ [name]⟩
        else (splitVisitor threshold).file ⟨root, names ++ [name]⟩) tally) := by
  have valid := valid_of_treeBelow child
  split
  · rename_i isDirectory
    obtain ⟨permitted, present⟩ := (known.isDirectory_iff valid).mp isDirectory
    cases parts : mergedName? name with
    | none =>
        have both : isPlain (names ++ [name]) :=
          isPlain_append.mpr ⟨plain, isPlain_cons.mpr ⟨parts, isPlain_nil⟩⟩
        rw [known.treeBelow_eq_of_plain both fun member => fresh _ member List.prefix_rfl] at present
        exact whole known both present fresh
    | some base =>
        obtain ⟨rfl, nonempty⟩ := mergedName?_eq_some_iff.mp parts
        cases levels with
        | zero => rintro path size parts ⟨⟩
        | succ below =>
            have skipped : isSplitDirectory tally.disk (Spot.path ⟨root, names ++ [base ++ splitSuffix]⟩) =
                true := @isSplitDirectory_child _ ⟨root, names⟩ _ valid nonempty isDirectory
            rw [splitVisitor_skips skipped]
            refine ⟨[], SplitsFurther.refl known fun place outside within _ => ?_⟩
            rw [eq_of_below_box outside nonempty within]
            exact ⟨permitted, fun content isFile =>
              absurd isFile (known.not_file_of_directory plain present)⟩
  · rename_i leaf
    unfold splitVisitor counting
    dsimp only
    cases ran : splitFile threshold (Spot.path ⟨root, names ++ [name]⟩) tally.disk with
    | ok result after =>
        obtain ⟨permitted, content, isFile, outcome⟩ := known.splitFile plain valid noBox leaf ran
        have alone : ∀ place, names ++ [name] <+: place → treeBelow root start place ≠ none →
            place = names ++ [name] := fun place => eq_of_below_file isFile
        rcases outcome with ⟨small, rfl, rfl⟩ | ⟨size, ⟨box, rfl⟩, further⟩
        · refine ⟨[], SplitsFurther.refl known ?_⟩
          intro place _ below present
          rw [alone place below present]
          refine ⟨permitted, fun other there => ?_⟩
          rw [isFile, Option.some.injEq, Entry.file.injEq] at there
          rw [← there]
          exact small
        · refine ⟨[names ++ [name]], further, rfl, ?_, ?_, ?_⟩
          · intro other member
            obtain rfl := List.mem_singleton.mp member
            exact List.prefix_rfl
          · intro other stored _ below present _
            exact List.mem_singleton.mpr (alone other below (by rw [present]; simp))
          · intro place _ below present
            rw [alone place below present]
            exact permitted
    | error cause after =>
        rintro path size parts rfl
        rw [splitFile_capacity ran]
        exact ⟨split, known⟩

variable (rootPlain : root.fileName?.bind mergedName? = none)

include rootPlain

/-- All that is large below a directory is split. -/
theorem splitWithin_ends (known : Reduced threshold root start split tally.disk) (plain : isPlain names)
    (directory : treeBelow root start names = some .directory)
    (fresh : ∀ file ∈ split, ¬ names <+: file) :
    Ends (fun _ after => ∃ more, SplitsFurther threshold root start (names <+: ·) split more tally after)
      (fun cause after => stopsReduced threshold root start cause after.disk)
      ((splitVisitor threshold).walkWithin Tally.disk levels ⟨root, names⟩ tally) := by
  induction levels generalizing split names tally with
  | zero =>
      rintro path size parts ⟨⟩
  | succ below ih =>
      have valid := valid_of_treeBelow (by rw [directory]; simp : treeBelow root start names ≠ none)
      have aim := known.leadsTo_spot valid
      have noParts : isSplitDirectory tally.disk (Spot.path ⟨root, names⟩) = false := by
        unfold isSplitDirectory
        rw [Spot.unmarked rootPlain plain valid, Option.isSome_none, Bool.and_false]
      have listed : ∀ item, item ∈ tally.disk.childNames (tally.disk.leadsTo (Spot.path ⟨root, names⟩)) ↔
          treeBelow root start (names ++ [item]) ≠ none := by
        intro item
        rw [mem_childNames, aim, List.append_assoc, ← known.treeBelow_fresh plain fresh,
          Option.ne_none_iff_exists', treeBelow, known.setting.leadsTo]
      by_cases entered : tally.disk.isDirectory (Spot.path ⟨root, names⟩) = true
      · have permitted := ((known.isDirectory_iff valid).mp entered).1
        -- What is large below the names gone through is split; below the others nothing is in
        -- parts yet, which is why the walk meets them as they were at the start.
        refine walkWithin_ends (splitVisitor_enters noParts) entered (fun visited state => ∃ more,
          SplitsFurther threshold root start
            (fun file => ∃ other ∈ visited, names ++ [other] <+: file) split more tally state)
          ?none ?next ?all
        case none =>
          exact ⟨[], SplitsFurther.refl known fun _ _ absent => by simp at absent⟩
        case next =>
          rintro visited item rest state whole ⟨more, further⟩
          have child := (listed item).mp (mem_childNames_of_turn whole)
          -- a file that was split lies at or below a name gone through
          have behind : ∀ file ∈ split ++ more, ∀ other, names ++ [other] <+: file → other ∈ visited := by
            rintro file inside other ⟨rest, rfl⟩
            rw [List.append_assoc, List.singleton_append] at inside
            rcases List.mem_append.mp inside with early | late
            · exact absurd (List.prefix_append _ _) (fresh _ early)
            · obtain ⟨earlier, member, within⟩ := further.within _ late
              rw [concat_prefix_iff] at within
              exact within ▸ member
          have unsplit : ∀ file ∈ split ++ more, ¬ names ++ [item] <+: file := fun file inside within =>
            notMem_visited whole (behind file inside item within)
          have noBox : names ++ [item ++ splitSuffix] ∉ split ++ more := by
            intro inside
            have member := behind _ inside _ List.prefix_rfl
            exact ((mem_visited_iff whole).mp member).2.asymm (lt_append_splitSuffix item)
          refine (splitChild_ends ih further.state plain child unsplit noBox).mono
            (fun _ after moved => ?_) fun _ _ failed => failed
          obtain ⟨others, moved⟩ := moved
          refine ⟨more ++ others, (further.trans moved).extend (fun place kind => ?_)
            fun place _ _ kind => .inl ?_⟩
          · simpa [or_and_right, exists_or] using kind
          · simpa [or_and_right, exists_or] using kind
        case all =>
          rintro state ⟨more, further⟩
          refine ⟨more, further.extend (fun place kind => ?_) fun place _ there kind => ?_⟩
          · obtain ⟨other, -, within⟩ := kind
            exact (List.prefix_append _ _).trans within
          · obtain ⟨behind, rfl⟩ := kind
            by_cases own : behind = []
            · rw [own, List.append_nil]
              exact .inr ⟨directory, permitted⟩
            · obtain ⟨other, child, within⟩ := exists_child own there
              exact .inl ⟨other, (listed other).mpr child, within⟩
      · apply walkWithin_refused (splitVisitor_enters noParts) entered
        rintro path size parts ⟨⟩

/-- Splitting that comes to its end leaves the files above the threshold in parts, and counts them. -/
theorem splitLargeFiles_reduces (there : start.isDirectory root = true) :
    Ends (fun count after => ∃ split, SplitsFurther threshold root start (fun _ => True) [] split
        ⟨start, 0⟩ ⟨after, count⟩)
      (stopsReduced threshold root start) (splitLargeFiles threshold root start) := by
  have top : treeBelow root start [] = some .directory := by
    unfold treeBelow
    rw [List.append_nil]
    exact entryAt?_leadsTo_of_stands (Disk.isDirectory_iff.mp there).2
  apply countingWalk_ends
  have walked := @splitWithin_ends threshold root start [] [] ⟨start, 0⟩ (levelBound start) rootPlain
    (reduced_nil threshold there) isPlain_nil top fun _ absent => nomatch absent
  refine walked.mono (fun _ after finished => ?_) fun _ _ failed => failed
  obtain ⟨more, splits⟩ := finished
  exact ⟨more, splits.extend (fun _ _ => trivial) fun place _ _ _ => .inl List.nil_prefix⟩

end SplitTree

/-! ### Trees without directories of parts -/

/-- If a file has too many parts, some files are in parts and nothing else has changed. -/
def stopsPartly (threshold : Threshold) (root : Path) (start : Disk) (cause : Error)
    (after : Disk) : Prop :=
  ∀ path size parts, cause = .capacity path size parts →
    ∃ split, PartlySplit threshold root start split after

section PlainTree

variable {threshold : Threshold} {root : Path} {start : Disk} (plain : plainTree root start)
  (there : start.isDirectory root = true)

include plain there

/-- Where a file was split, its directory holds its parts and nothing else. -/
private theorem Reduced.box_of_split {split : List Location} {disk : Disk} {front rest : Location}
    {base : String} (known : Reduced threshold root start split disk) (nonempty : base ≠ "")
    (member : front ++ [base] ∈ split) :
    treeBelow root disk (front ++ (base ++ splitSuffix) :: rest) =
      splitEntryAt? threshold base rest (treeBelow root start (front ++ [base])) := by
  obtain ⟨content, isFile, size, -⟩ := known.large _ member
  have within := known.inside front base content member isFile rest
  rw [List.append_assoc, List.singleton_append] at within
  rw [isFile, splitEntryAt?, if_neg (Nat.not_le.mpr size)]
  rcases within with same | ⟨-, -, passed⟩
  · exact same
  · have stands := (Disk.isDirectory_iff.mp there).2 _ passed
    have nothing := @unsuffixed.nothing_in_parts _ front rest _ plain.unsuffixed nonempty
    unfold treeBelow at nothing
    rw [nothing] at stands
    cases stands

omit there in
/-- Where none was, there is no directory of parts. -/
private theorem Reduced.box_of_whole {split : List Location} {disk : Disk} {front rest : Location}
    {base : String} (known : Reduced threshold root start split disk) (frontPlain : isPlain front)
    (nonempty : base ≠ "") (whole : front ++ [base] ∉ split) :
    treeBelow root disk (front ++ (base ++ splitSuffix) :: rest) = none := by
  rw [← @unsuffixed.nothing_in_parts _ front rest _ plain.unsuffixed nonempty]
  unfold treeBelow
  rw [known.setting.leadsTo]
  apply known.elsewhere
  intro file inside
  obtain ⟨other, name, _, rfl, otherPlain, named, -⟩ := known.exists_name inside
  constructor
  · intro own
    have plainFile := isPlain_of_mem plain.unsuffixed known.large inside
    rw [← List.append_cancel_left own] at plainFile
    exact plainFile.notMem nonempty (by simp)
  · rw [List.prefix_append_right_inj, partsPlace_concat,
      parts_prefix_iff otherPlain frontPlain named nonempty]
    exact fun own => whole (own ▸ inside)

/-- In a tree without names of directories of parts, what is reduced is partly split. -/
theorem Reduced.partlySplit {split : List Location} {disk : Disk}
    (known : Reduced threshold root start split disk) :
    PartlySplit threshold root start split disk := by
  refine ⟨⟨known.setting, fun place => ?inside, fun other apart => ?outside⟩, known.distinct,
    known.large, fun file member => ?permitted⟩
  case inside =>
    rw [← known.setting.leadsTo]
    change treeBelow root disk place = _
    rcases isPlain_or_split place with whole | ⟨front, base, rest, rfl, frontPlain, nonempty⟩
    · rw [partly_plain whole]
      by_cases member : place ∈ split
      · rw [if_pos member, known.gone place member]
      · rw [if_neg member]
        cases place using List.reverseRecOn with
        | nil =>
            have after := entryAt?_leadsTo_of_stands known.standing
            have before := entryAt?_leadsTo_of_stands (Disk.isDirectory_iff.mp there).2
            unfold treeBelow
            rw [List.append_nil, List.append_nil, after, before]
        | append_singleton front name => exact known.treeBelow_eq_of_plain whole member
    · rw [partly_parts plain.unsuffixed known.large frontPlain nonempty]
      by_cases member : front ++ [base] ∈ split
      · rw [if_pos member, known.box_of_split plain there nonempty member]
      · rw [if_neg member, known.box_of_whole plain frontPlain nonempty member]
  case outside =>
    apply known.elsewhere
    intro file _
    exact ⟨fun same => apart (same ▸ List.prefix_append _ _),
      fun within => apart ((List.prefix_append _ _).trans within)⟩
  case permitted =>
    have permitted := known.permitted file member
    obtain ⟨front, name, _, rfl, -, -, isFile, -⟩ := known.exists_name member
    have valid := (all_isEntryName_concat.mp (valid_of_treeBelow (by rw [isFile]; simp))).2
    rw [Spot.path_concat, splitDirectory_joinName _ valid] at permitted ⊢
    exact permits_box (isEntryName_append_splitSuffix valid) permitted

/-- Splitting that comes to its end leaves all large files in parts, and counts them. -/
theorem splitLargeFiles_ends :
    Ends (fun count after => ∃ split, PartlySplit threshold root start split after ∧
        count = split.length ∧ ∀ file content, treeBelow root start file = some (.file content) →
          threshold.bytes < content.size → file ∈ split)
      (stopsPartly threshold root start) (splitLargeFiles threshold root start) := by
  refine (splitLargeFiles_reduces (plain.rootName there) there).mono (fun count after finished => ?_)
    fun cause after stopped path size parts capacity => ?_
  · obtain ⟨split, splits⟩ := finished
    have counted := splits.count
    rw [Nat.zero_add] at counted
    refine ⟨split, splits.state.partlySplit plain there, counted, fun file content isFile size => ?_⟩
    have fine := plain.unsuffixed.plain file (by rw [isFile]; simp)
    exact splits.complete file content (fun name member => fine name (List.dropLast_subset _ member))
      trivial isFile size
  · obtain ⟨split, known⟩ := stopped path size parts capacity
    exact ⟨split, known.partlySplit plain there⟩

end PlainTree

end CrossBuild.Artifacts
