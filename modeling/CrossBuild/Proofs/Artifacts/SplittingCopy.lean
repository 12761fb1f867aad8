/-
Copying a tree into an empty directory, with or without splitting.

The files of a directory are split when all that it holds has been copied. What is found there has not
been split before and holds no directory of parts, which is why only trees without their names are split
here. Splitting the files of a finished copy comes to the same.
-/

import CrossBuild.Proofs.Artifacts.FreshCopy

namespace CrossBuild.Artifacts

open Files Files.Disk Runs

/-- What a copy needs to end well: the paths keep to the limits and, where files are split, so do those of
their parts, of which there are not too many. Merging is not considered here. -/
def achievable (largeFiles : LargeFiles) (source target : Path) (start : Disk) : Prop :=
  copyable source target start ∧ ∀ threshold, largeFiles = .split threshold →
    dividable threshold target start (treeBelow source start)

/-- What is of some kind has been taken over from a tree, and the rest is as before. -/
structure Gains (image before after : Location → Option Entry) (kind : Location → Prop) : Prop where
  new : ∀ place, kind place → after place = image place
  old : ∀ place, ¬ kind place → after place = before place

/-- The places of some kind have been copied, after others were, and the files among them that are settled
are in parts if they are large. -/
structure CopiesFurther (threshold : Threshold) (source target : Path) (start : Disk)
    (kind settled : Location → Prop) (tree later : Location → Option Entry)
    (split more : List Location) (after : Disk) : Prop where
  gains : Gains (treeBelow source start) tree later kind
  reached : ∀ place, kind place → treeBelow source start place ≠ none →
    start.permits (Spot.path ⟨source, place⟩) ∧ start.permits (target.joinNames place)
  divided : Divided threshold target start later settled split more after

/-- Files are kept as they are, or split in a tree without names of directories of parts. -/
def chunks (largeFiles : LargeFiles) (threshold : Threshold) (tree : Location → Option Entry)
    (split : List Location) : Prop :=
  largeFiles = .keep ∧ split = [] ∨ largeFiles = .split threshold ∧ unsuffixed tree

/-- All large files of a tree are in parts. -/
def allSplit (threshold : Threshold) (tree : Location → Option Entry) (split : List Location) : Prop :=
  ∀ file content, tree file = some (.file content) → threshold.bytes < content.size → file ∈ split

section SplittingCopy

variable {source target : Path} {start disk : Disk} {threshold : Threshold}
  {view tree image : Location → Option Entry} {split : List Location} {names front : Location}
  {name : String}

theorem gains_update {entry : Entry} {place : Location} (found : image place = some entry) :
    Gains image tree (Function.update tree place (some entry)) (· = place) where
  new := by
    rintro _ rfl
    rw [Function.update_self, found]
  old := fun other different => Function.update_of_ne different _ _

section CopiesFurther

variable {kind other settled : Location → Prop} {later last : Location → Option Entry}
  {more : List Location} {after : Disk}

theorem Gains.trans (first : Gains image tree later kind) (second : Gains image later last other) :
    Gains image tree last (fun place => kind place ∨ other place) where
  new := by
    intro place fits
    by_cases late : other place
    · exact second.new place late
    · rw [second.old place late]
      exact first.new place (fits.resolve_right late)
  old := by
    intro place outside
    rw [not_or] at outside
    rw [second.old place outside.2, first.old place outside.1]

/-- Places of which nothing is to be had may be added. -/
theorem Gains.extend (gains : Gains image tree later kind) (wider : ∀ place, kind place → other place)
    (empty : ∀ place, other place → ¬ kind place → image place = none ∧ tree place = none) :
    Gains image tree later other where
  new := by
    intro place fits
    by_cases own : kind place
    · exact gains.new place own
    · obtain ⟨nothing, before⟩ := empty place fits own
      rw [gains.old place own, nothing, before]
  old := fun place outside => gains.old place fun own => outside (wider place own)

/-- What has been taken over, at first or by now, is part of the tree. -/
theorem Gains.part (gains : Gains image tree later kind)
    (part : ∀ place, tree place ≠ none → tree place = image place) (place : Location)
    (there : later place ≠ none) : later place = image place := by
  by_cases own : kind place
  · exact gains.new place own
  · rw [gains.old place own] at there ⊢
    exact part place there

theorem CopiesFurther.trans {others : List Location} {done : Location → Prop}
    (first : CopiesFurther threshold source target start kind settled tree later split more disk)
    (second : CopiesFurther threshold source target start other done later last (split ++ more) others
      after)
    (apart : ∀ file, settled file → ¬ other file) :
    CopiesFurther threshold source target start (fun place => kind place ∨ other place)
      (fun file => settled file ∨ done file) tree last split (more ++ others) after where
  gains := first.gains.trans second.gains
  reached := fun place fits there =>
    fits.elim (first.reached place · there) (second.reached place · there)
  divided :=
    { state := by
        rw [← List.append_assoc]
        exact second.divided.state
      within := by
        intro file member
        rcases List.mem_append.mp member with early | late
        · exact .inl (first.divided.within file early)
        · exact .inr (second.divided.within file late)
      complete := by
        intro file content fits isFile large
        rcases fits with early | late
        · rw [second.gains.old file (apart file early)] at isFile
          exact List.mem_append_left _ (first.divided.complete file content early isFile large)
        · exact List.mem_append_right _ (second.divided.complete file content late isFile large) }

end CopiesFurther

section Copying

variable {largeFiles : LargeFiles} {levels : Nat} {later : Location → Option Entry}
  {more : List Location} {place : Location}

theorem chunks.append (mode : chunks largeFiles threshold image split)
    (within : ∀ file ∈ more, largeFiles ≠ .keep) :
    chunks largeFiles threshold image (split ++ more) := by
  rcases mode with ⟨isKeep, rfl⟩ | splits
  · refine .inl ⟨isKeep, ?_⟩
    rw [List.nil_append, List.eq_nil_iff_forall_not_mem]
    exact fun file member => within file member isKeep
  · exact .inr splits

theorem chunks.plain (mode : chunks largeFiles threshold image split) (there : image place ≠ none) :
    split = [] ∨ isPlain place :=
  mode.imp And.right fun splits => splits.2.plain place there

variable (fresh : FreshTarget source target start)

include fresh

/-- Copying what stands under one more name. -/
private theorem copyChild_copies
    (whole : ∀ {tree split state}, chunks largeFiles threshold (treeBelow source start) split →
      Copied threshold target start tree split state →
      treeBelow source start place = some .directory →
      (∀ inner, place <+: inner → inner ≠ [] → tree inner = none) →
      (place ≠ [] → tree place.dropLast = some .directory) →
      (∀ other, tree other ≠ none → tree other = treeBelow source start other) →
      Ends (fun _ after => ∃ later more, CopiesFurther threshold source target start (place <+: ·)
          (fun file => largeFiles ≠ .keep ∧ place <+: file) tree later split more after)
        (fun _ _ => ¬ achievable largeFiles source target start)
        (Visitor.walkWithin (copyVisitor target largeFiles) id levels ⟨source, place⟩ state))
    (mode : chunks largeFiles threshold (treeBelow source start) split)
    (known : Copied threshold target start tree split disk)
    (there : treeBelow source start place ≠ none) (strict : place ≠ [])
    (ahead : ∀ inner, place <+: inner → tree inner = none)
    (parent : tree place.dropLast = some .directory)
    (part : ∀ other, tree other ≠ none → tree other = treeBelow source start other) :
    Ends (fun _ after => ∃ later more, CopiesFurther threshold source target start (place <+: ·)
        (fun file => largeFiles ≠ .keep ∧ place <+: file ∧ file ≠ place) tree later split more after)
      (fun _ _ => ¬ achievable largeFiles source target start)
      ((if disk.isDirectory (Spot.path ⟨source, place⟩) then
          Visitor.walkWithin (copyVisitor target largeFiles) id levels ⟨source, place⟩
        else (copyVisitor target largeFiles).file ⟨source, place⟩) disk) := by
  have valid := valid_of_treeBelow there
  split
  · rename_i isDirectory
    have directory := ((fresh.isDirectory_source known.planted known.partly_top valid).mp isDirectory).2
    refine (whole mode known directory (fun inner within _ => ahead inner within) (fun _ => parent)
      part).mono (fun _ after copied => ?_) fun _ _ failed => failed
    obtain ⟨later, more, copied⟩ := copied
    refine ⟨later, more, copied.gains, copied.reached, copied.divided.state, fun file member => ?_,
      fun file content settled => copied.divided.complete file content ⟨settled.1, settled.2.1⟩⟩
    obtain ⟨splits, within⟩ := copied.divided.within file member
    refine ⟨splits, within, ?_⟩
    rintro rfl
    obtain ⟨content, isFile, -⟩ := copied.divided.state.large file (List.mem_append_right _ member)
    rw [copied.gains.new file List.prefix_rfl, directory] at isFile
    cases isFile
  · rename_i leaf
    refine (known.replaceFile_ends fresh valid strict parent (ahead place List.prefix_rfl)
      (mode.plain there) there leaf).mono (fun _ after copied => ?_) fun _ _ failed able =>
        failed (able.1 place there)
    obtain ⟨permitted, content, isFile, copied⟩ := copied
    have below : ∀ inner, place <+: inner → inner ≠ place → treeBelow source start inner = none := by
      intro inner within different
      by_contra present
      exact different (eq_of_below_file isFile within present)
    refine ⟨_, [], (gains_update isFile).extend (fun inner own => own ▸ List.prefix_rfl)
      fun inner within different => ⟨below inner within different, ahead inner within⟩, ?_,
      Divided.refl copied fun file stored settled same => ?_⟩
    · intro inner within present
      by_cases own : inner = place
      · rw [own]
        exact permitted
      · exact absurd (below inner within own) present
    · rw [Function.update_of_ne settled.2.2, ahead file settled.2.1] at same
      cases same

/-- The places of a tree that a walk has come to in a directory. -/
abbrev visitedPlaces (names : Location) (visited : List String) (place : Location) : Prop :=
  place = names ∨ ∃ item ∈ visited, names ++ [item] <+: place

/-- The files of a tree that a walk has seen to, if they are large, before it leaves a directory. -/
private abbrev settledFiles (largeFiles : LargeFiles) (names : Location) (visited : List String)
    (file : Location) : Prop :=
  largeFiles ≠ .keep ∧ ∃ item ∈ visited, names ++ [item] <+: file ∧ file ≠ names ++ [item]

omit fresh in
theorem apart_from_visited {visited : List String} {item : String} (unseen : item ∉ visited)
    {inner : Location} (within : names ++ [item] <+: inner) : ¬ visitedPlaces names visited inner := by
  obtain ⟨behind, rfl⟩ := within
  rintro (own | ⟨other, earlier, around⟩)
  · simp at own
  · rw [List.append_assoc, List.singleton_append, concat_prefix_iff] at around
    exact unseen (around ▸ earlier)

omit fresh in
private theorem CopiesFurther.visit {visited : List String} {item : String} {others : List Location}
    {last : Location → Option Entry} {after : Disk}
    (copied : CopiesFurther threshold source target start (visitedPlaces names visited)
      (settledFiles largeFiles names visited) tree later split more disk)
    (unseen : item ∉ visited)
    (further : CopiesFurther threshold source target start (names ++ [item] <+: ·)
      (fun file => largeFiles ≠ .keep ∧ names ++ [item] <+: file ∧ file ≠ names ++ [item]) later last
      (split ++ more) others after) :
    CopiesFurther threshold source target start (visitedPlaces names (visited ++ [item]))
      (settledFiles largeFiles names (visited ++ [item])) tree last split (more ++ others) after := by
  have joined := copied.trans further fun file ⟨_, other, earlier, around, _⟩ within =>
    apart_from_visited unseen within (.inr ⟨other, earlier, around⟩)
  have places : visitedPlaces names (visited ++ [item]) = fun place =>
      visitedPlaces names visited place ∨ names ++ [item] <+: place := by
    funext place
    simp [visitedPlaces, or_and_right, exists_or, or_assoc]
  have files : settledFiles largeFiles names (visited ++ [item]) = fun file =>
      settledFiles largeFiles names visited file ∨
        largeFiles ≠ .keep ∧ names ++ [item] <+: file ∧ file ≠ names ++ [item] := by
    funext file
    simp [settledFiles, or_and_right, exists_or, and_or_left]
  rw [places, files]
  exact joined

section Finished

variable {listed : List String}
  (copied : CopiesFurther threshold source target start (visitedPlaces names listed)
    (settledFiles largeFiles names listed) tree later split more disk)
  (whole : ∀ item, treeBelow source start (names ++ [item]) ≠ none → item ∈ listed)

include whole in
omit fresh in
/-- What lies below a directory lies below a name it holds. -/
private theorem exists_listed {behind : Location} (strict : behind ≠ [])
    (present : treeBelow source start (names ++ behind) ≠ none) :
    ∃ item ∈ listed, names ++ [item] <+: names ++ behind := by
  obtain ⟨item, child, around⟩ := exists_child strict present
  exact ⟨item, whole item child, around⟩

include whole in
omit fresh in
private theorem visitedPlaces_of_listed (within : names <+: place)
    (present : treeBelow source start place ≠ none) : visitedPlaces names listed place := by
  obtain ⟨behind, rfl⟩ := within
  by_cases own : behind = []
  · exact .inl (by rw [own, List.append_nil])
  · exact .inr (exists_listed whole own present)

include copied whole

omit fresh in
/-- Once all that a directory holds has been copied, all that lies below it has. -/
private theorem CopiesFurther.below (ahead : ∀ inner, names <+: inner → inner ≠ [] → tree inner = none) :
    Gains (treeBelow source start) tree later (names <+: ·) := by
  refine copied.gains.extend (fun place fits => ?_) fun place within unseen => ?_
  · rcases fits with rfl | ⟨item, -, around⟩
    · exact List.prefix_rfl
    · exact (List.prefix_append _ _).trans around
  · refine ⟨by_contra fun present => unseen (visitedPlaces_of_listed whole within present),
      ahead place within ?_⟩
    rintro rfl
    exact unseen (.inl (List.prefix_nil.mp within).symm)

/-- Then it is left, which may split files in it. -/
private theorem finishDirectory_copies
    (mode : chunks largeFiles threshold (treeBelow source start) split)
    (directory : treeBelow source start names = some .directory)
    (large : splittable threshold tree split)
    (ahead : ∀ inner, names <+: inner → inner ≠ [] → tree inner = none)
    (part : ∀ other, tree other ≠ none → tree other = treeBelow source start other) :
    Ends (fun _ after => ∃ later more, CopiesFurther threshold source target start (names <+: ·)
        (fun file => largeFiles ≠ .keep ∧ names <+: file) tree later split more after)
      (fun _ _ => ¬ achievable largeFiles source target start)
      (finishDirectory largeFiles (Spot.path ⟨source, names⟩) (target.joinNames names) disk) := by
  have gains := copied.below whole ahead
  have stored := copied.gains.part part
  have top : later names = some .directory := by
    rw [copied.gains.new names (.inl rfl), directory]
  have reached : ∀ place, names <+: place → treeBelow source start place ≠ none →
      start.permits (Spot.path ⟨source, place⟩) ∧ start.permits (target.joinNames place) :=
    fun place within present =>
      copied.reached place (visitedPlaces_of_listed whole within present) present
  rcases mode with ⟨isKeep, -⟩ | ⟨splits, free⟩
  case inl =>
    subst isKeep
    exact ⟨later, more, gains, reached, copied.divided.extend (fun _ settled => absurd rfl settled.1)
      fun _ _ settled => absurd rfl settled.1⟩
  case inr =>
    subst splits
    have freeLater : unsuffixed later := fun place present =>
      free place (by rw [← stored place present]; exact present)
    have untouched : ∀ item, names ++ [item] ∉ split ++ more := by
      intro item member
      rcases List.mem_append.mp member with before | late
      · obtain ⟨content, isFile, -⟩ := large _ before
        rw [ahead _ (List.prefix_append _ _) (by simp)] at isFile
        cases isFile
      · obtain ⟨-, other, -, around, different⟩ := copied.divided.within _ late
        rw [concat_prefix_iff] at around
        exact different (by rw [around])
    refine (copied.divided.state.splitChildren_ends freeLater fresh top untouched
      fun place within present => ?_).mono (fun _ after further => ?_)
        fun _ _ failed able => failed fun file content isFile => ?_
    · exact (reached place within (by rw [← stored place present]; exact present)).2
    · obtain ⟨others, further⟩ := further
      refine ⟨later, more ++ others, gains, reached,
        (copied.divided.trans further).extend (fun file settled => ?_)
          fun file content settled isFile => ?_⟩
      · refine ⟨by simp, ?_⟩
        rcases settled with ⟨-, item, -, around, -⟩ | ⟨item, rfl⟩
        · exact (List.prefix_append _ _).trans around
        · exact List.prefix_append _ _
      · obtain ⟨-, behind, rfl⟩ := settled
        have strict : behind ≠ [] := by
          rintro rfl
          rw [List.append_nil, top] at isFile
          cases isFile
        have present : later (names ++ behind) ≠ none := by
          rw [isFile]
          simp
        obtain ⟨item, member, around⟩ := exists_listed whole strict
          (by rw [← stored _ present]; exact present)
        by_cases own : names ++ behind = names ++ [item]
        · exact .inr ⟨item, own⟩
        · exact .inl ⟨by simp, item, member, around, own⟩
    · apply able.2 threshold rfl file content
      rw [← stored file (by rw [isFile]; simp), isFile]

end Finished

/-- Entering a directory makes its copy. -/
private theorem copyVisitor_before_ends (mode : chunks largeFiles threshold (treeBelow source start) split)
    (known : Copied threshold target start tree split disk)
    (directory : treeBelow source start names = some .directory)
    (absent : names ≠ [] → tree names = none)
    (parent : names ≠ [] → tree names.dropLast = some .directory) :
    Ends (fun descent made => descent = .enter ∧ start.permits (target.joinNames names) ∧
        Copied threshold target start (Function.update tree names (some .directory)) split made)
      (fun _ _ => ¬ achievable largeFiles source target start)
      ((copyVisitor target largeFiles).before ⟨source, names⟩ disk) := by
  have there : treeBelow source start names ≠ none := by
    rw [directory]
    simp
  have made := known.makeDirectories_ends fresh (valid_of_treeBelow there) parent absent (mode.plain there)
  refine ends_bind_iff.mpr (made.mono (fun _ after done => ⟨rfl, done⟩) fun _ _ failed able => ?_)
  exact failed (able.1 names there).2

/-- Copying a directory and what it holds. -/
theorem copyWithin_copies (mode : chunks largeFiles threshold (treeBelow source start) split)
    (known : Copied threshold target start tree split disk)
    (directory : treeBelow source start names = some .directory)
    (ahead : ∀ inner, names <+: inner → inner ≠ [] → tree inner = none)
    (parent : names ≠ [] → tree names.dropLast = some .directory)
    (part : ∀ other, tree other ≠ none → tree other = treeBelow source start other)
    (deep : names.length + levels = levelBound start) :
    Ends (fun _ after => ∃ later more, CopiesFurther threshold source target start (names <+: ·)
        (fun file => largeFiles ≠ .keep ∧ names <+: file) tree later split more after)
      (fun _ _ => ¬ achievable largeFiles source target start)
      (Visitor.walkWithin (copyVisitor target largeFiles) id levels ⟨source, names⟩ disk) := by
  have there : treeBelow source start names ≠ none := by
    rw [directory]
    simp
  induction levels generalizing names tree split disk with
  | zero =>
      intro able
      have shallow := length_lt_levelBound (able.1 names there).1 there
      omega
  | succ below ih =>
      have valid := valid_of_treeBelow there
      have entering := copyVisitor_before_ends fresh mode known directory (ahead names List.prefix_rfl) parent
      cases ran : (copyVisitor target largeFiles).before ⟨source, names⟩ disk with
      | error cause after =>
          unfold Visitor.walkWithin
          rw [ends_bind_iff, ran]
          exact entering.error ran
      | ok descent made =>
          obtain ⟨rfl, permitted, entered⟩ := entering.ok ran
          by_cases readable : made.isDirectory (Spot.path ⟨source, names⟩) = true
          case neg =>
            refine walkWithin_refused ran readable fun able => readable ?_
            exact (fresh.isDirectory_source entered.planted entered.partly_top valid).mpr
              ⟨(able.1 names there).1, directory⟩
          have reads := ((fresh.isDirectory_source entered.planted entered.partly_top valid).mp
            readable).1
          have listed : ∀ item, item ∈ made.childNames (made.leadsTo (Spot.path ⟨source, names⟩)) ↔
              treeBelow source start (names ++ [item]) ≠ none := by
            intro item
            rw [mem_childNames_spot valid, fresh.treeBelow_source entered.planted]
          refine walkWithin_ends ran readable (fun visited state => ∃ later more,
            CopiesFurther threshold source target start (visitedPlaces names visited)
              (settledFiles largeFiles names visited) tree later split more state) ?none ?next ?all
          case none =>
            refine ⟨_, [], (gains_update directory).extend (fun place own => .inl own)
              fun place fits different => ?_, fun place fits _ => ?_, Divided.refl entered ?_⟩
            · simp [visitedPlaces, different] at fits
            · obtain rfl : place = names := by simpa [visitedPlaces] using fits
              exact ⟨reads, permitted⟩
            · rintro file content ⟨-, item, absent, -⟩
              cases absent
          case next =>
            rintro visited item rest state whole ⟨later, more, copied⟩
            dsimp only [id] at whole
            have unseen := notMem_visited whole
            have untouched : ∀ inner, names ++ [item] <+: inner → later inner = none := by
              intro inner within
              rw [copied.gains.old inner (apart_from_visited unseen within)]
              refine ahead inner ((List.prefix_append _ _).trans within) ?_
              rintro rfl
              simp at within
            refine (copyChild_copies fresh (fun mode known directory ahead parent part =>
                ih mode known directory ahead parent part
                  (by rw [List.length_append, List.length_singleton]; omega) (by rw [directory]; simp))
              (mode.append fun file member => (copied.divided.within file member).1)
              copied.divided.state ((listed item).mp (mem_childNames_of_turn whole)) (by simp) untouched
              (by rw [List.dropLast_concat, copied.gains.new names (.inl rfl), directory])
              (copied.gains.part part)).mono (fun _ after further => ?_) fun _ _ failed => failed
            obtain ⟨last, others, further⟩ := further
            exact ⟨last, more ++ others, copied.visit unseen further⟩
          case all =>
            rintro state ⟨later, more, copied⟩
            exact finishDirectory_copies fresh copied (fun item => (listed item).mpr) mode directory
              known.large ahead part

end Copying

/-! ### Whole copies -/

section Whole

variable {largeFiles : LargeFiles}

/-- Where all large files could be stored in parts, there was nothing in the way. -/
theorem Copied.dividable (known : Copied threshold target start tree split disk)
    (all : allSplit threshold tree split) : dividable threshold target start tree := by
  intro file content isFile large
  have member := all file content isFile large
  obtain ⟨other, same, -, fits⟩ := known.large file member
  rw [isFile, Option.some.injEq, Entry.file.injEq] at same
  rw [same]
  exact ⟨fits, known.permitted file member⟩

/-- Copies of one tree with all large files in parts are the same. -/
theorem Copied.treeBelow_eq {other : List Location} {after : Disk}
    (first : Copied threshold target start tree split disk) (whole : allSplit threshold tree split)
    (second : Copied threshold target start tree other after) (also : allSplit threshold tree other) :
    treeBelow target disk = treeBelow target after := by
  have within : ∀ {left right : List Location}, splittable threshold tree left →
      allSplit threshold tree right → ∀ file ∈ left, file ∈ right := by
    intro left right large all file member
    obtain ⟨content, isFile, size, -⟩ := large file member
    exact all file content isFile size
  funext place
  rw [treeBelow_of_plants first.planted, treeBelow_of_plants second.planted,
    partly_congr fun file => ⟨within first.large also file, within second.large whole file⟩]

variable (fresh : FreshTarget source target start)

include fresh

private theorem copyTree_ends (mode : chunks largeFiles threshold (treeBelow source start) []) :
    Ends (fun _ after => copyable source target start ∧ ∃ split,
        Copied threshold target start (treeBelow source start) split after ∧
          (largeFiles = .keep → split = []) ∧
          (largeFiles ≠ .keep → allSplit threshold (treeBelow source start) split))
      (fun _ _ => ¬ achievable largeFiles source target start)
      (copyTree source target largeFiles start) := by
  have top : treeBelow source start [] = some .directory := by
    unfold treeBelow
    rw [List.append_nil]
    exact entryAt?_leadsTo_of_stands (isDirectory_iff.mp fresh.sourceThere).2
  have known := fresh.copied threshold
  have empty : ∀ place, place ≠ [] → treeBelow target start place = none := fresh.vacant
  unfold copyTree walkTree
  rw [ends_bind_iff, ends_get_iff]
  refine (copyWithin_copies fresh mode known top (fun inner _ => empty inner)
    (fun strict => absurd rfl strict) (fun place there => ?_) (by simp)).mono
      (fun _ after copied => ?_) fun _ _ failed => failed
  · have atTop : place = [] := by_contra fun strict => there (empty place strict)
    rw [atTop, top, known.top]
  · obtain ⟨later, more, gains, reached, state, within, complete⟩ := copied
    obtain rfl : later = treeBelow source start := funext fun place => gains.new place List.nil_prefix
    refine ⟨fun place there => reached place List.nil_prefix there, more, state, fun isKeep => ?_,
      fun splits file content isFile large => ?_⟩
    · exact List.eq_nil_iff_forall_not_mem.mpr fun file member => (within file member).1 isKeep
    · exact complete file content ⟨splits, List.nil_prefix⟩ isFile large

/-- A tree can be copied exactly if its paths keep to the limits. -/
theorem copyTree_keep_ends (threshold : Threshold) :
    Ends (fun _ after => copyable source target start ∧
        Copied threshold target start (treeBelow source start) [] after)
      (fun _ _ => ¬ copyable source target start) (copyTree source target .keep start) := by
  have mode : chunks .keep threshold (treeBelow source start) [] := .inl ⟨rfl, rfl⟩
  refine (copyTree_ends fresh mode).mono (fun _ after copied => ?_)
    fun _ _ failed able => failed ⟨able, nofun⟩
  obtain ⟨able, split, state, none, -⟩ := copied
  exact ⟨able, none rfl ▸ state⟩

variable (free : unsuffixed (treeBelow source start))

include free

/-- It can be copied with splitting exactly if, besides, its large files can be stored in parts. -/
theorem copyTree_split_ends :
    Ends (fun _ after => (copyable source target start ∧
          dividable threshold target start (treeBelow source start)) ∧
        ∃ split, Copied threshold target start (treeBelow source start) split after ∧
          allSplit threshold (treeBelow source start) split)
      (fun _ _ => ¬ (copyable source target start ∧
        dividable threshold target start (treeBelow source start)))
      (copyTree source target (.split threshold) start) := by
  refine (copyTree_ends fresh (.inr ⟨rfl, free⟩)).mono (fun _ after copied => ?_)
    fun _ _ failed able => failed ⟨able.1, ?_⟩
  · obtain ⟨able, split, state, -, all⟩ := copied
    have whole := all (by simp)
    exact ⟨⟨able, state.dividable whole⟩, split, state, whole⟩
  · rintro _ ⟨rfl⟩
    exact able.2

/-- The same takes splitting the files of a copy. -/
theorem splitLargeFiles_copied_ends (able : copyable source target start)
    (copied : Copied threshold target start (treeBelow source start) [] disk) :
    Ends (fun _ after => dividable threshold target start (treeBelow source start) ∧
        ∃ split, Copied threshold target start (treeBelow source start) split after ∧
          allSplit threshold (treeBelow source start) split)
      (fun _ _ => ¬ dividable threshold target start (treeBelow source start))
      (splitLargeFiles threshold target disk) := by
  have stored : ∀ place, treeBelow target disk place = treeBelow source start place := by
    intro place
    rw [treeBelow_of_plants copied.planted, partly_nil]
  have reached : ∀ place, treeBelow source start place ≠ none →
      start.permits (Spot.path ⟨target, place⟩) := by
    intro place there
    by_cases atTop : place = []
    · rw [atTop]
      exact (isDirectory_iff.mp fresh.targetThere).1
    · rw [Spot.path_of_names (valid_of_treeBelow there) atTop]
      exact (able place there).2
  have shallow : ∀ place, treeBelow source start place ≠ none → place.length < levelBound disk := by
    intro place there
    apply length_lt_levelBound ((copied.planted.setting.permits _).mpr (reached place there))
    rw [stored]
    exact there
  have walked := @Copied.splitWithin_ends source target start threshold [] [] (levelBound disk)
    (levelBound disk) ⟨disk, 0⟩ fresh free copied copied.top (fun _ absent => nomatch absent)
    (fun place there => ⟨reached place there, shallow place there⟩) (by simp)
  apply countingWalk_ends
  refine walked.mono (fun _ after further => ?_) fun _ _ failed => failed
  obtain ⟨more, divided⟩ := further
  have whole : allSplit threshold (treeBelow source start) more := fun file content isFile large =>
    divided.complete file content List.nil_prefix isFile large
  exact ⟨divided.state.dividable whole, more, divided.state, whole⟩

end Whole

end SplittingCopy

end CrossBuild.Artifacts
