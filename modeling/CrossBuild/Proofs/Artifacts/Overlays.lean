/-
What laying a backup over a repository changes.

The backup is what is kept of a tree. The directories into which files of the tree go are emptied
first, and then the tree is there, over what is left. A directory that cannot be reached by its path
is not emptied, but then copying fails, and only runs that end well are described.
-/

import CrossBuild.Proofs.Artifacts.Restoring
import CrossBuild.Artifacts.Backup

namespace CrossBuild.Artifacts

open Files Files.Disk Runs

/-- A directory of a tree, other than its root, that holds a file of its own. -/
def receives (image : Location → Option Entry) (place : Location) : Prop :=
  place ≠ [] ∧ ∃ name content, image (place ++ [name]) = some (.file content)

/-! ### Receiving directories -/

theorem mem_insertNames {names other : List String} {sorted : List (List String)} :
    other ∈ insertNames names sorted ↔ other = names ∨ other ∈ sorted := by
  induction sorted with
  | nil => simp [insertNames]
  | cons first rest ih =>
      unfold insertNames
      split
      · rename_i same
        rw [List.mem_cons, same]
        tauto
      · split
        · simp only [List.mem_cons]
        · simp only [List.mem_cons, ih]
          tauto

theorem mem_foldr_insertNames {other : List String} {names : List (List String)} :
    other ∈ names.foldr insertNames [] ↔ other ∈ names := by
  induction names with
  | nil => rfl
  | cons first rest ih => rw [List.foldr_cons, mem_insertNames, ih, List.mem_cons]

theorem mem_filesBelow {disk : Disk} {top : Location} {names : List String} :
    names ∈ filesBelow disk top ↔
      names ≠ [] ∧ ∃ content, disk.entryAt? (top ++ names) = some (.file content) := by
  unfold filesBelow
  rw [List.mem_filterMap]
  constructor
  · rintro ⟨⟨location, entry⟩, member, found⟩
    dsimp only at found
    split at found
    · cases found
    · rename_i content
      split at found
      · rename_i below
        obtain ⟨⟨rest, rfl⟩, different⟩ := isBelow_iff.mp below
        rw [List.drop_left, Option.some.injEq] at found
        subst found
        have strict : rest ≠ [] := by
          rintro rfl
          exact different (List.append_nil top)
        exact ⟨strict, content, (entryAt?_eq_some_iff (by simp [strict])).mpr member⟩
      · cases found
  · rintro ⟨strict, content, there⟩
    refine ⟨_, (entryAt?_eq_some_iff (by simp [strict])).mp there, ?_⟩
    dsimp only
    rw [if_pos (isBelow_iff.mpr ⟨List.prefix_append top names, by simpa using strict⟩),
      List.drop_left]

theorem nodup_filesBelow (disk : Disk) (top : Location) : (filesBelow disk top).Nodup := by
  have distinct : disk.entries.Pairwise fun left right => left.1 ≠ right.1 :=
    List.pairwise_map.mp disk.keysDistinct
  refine List.Pairwise.filterMap _ ?_ distinct
  have named : ∀ (location names : Location),
      (if isBelow top location then some (location.drop top.length) else none) = some names →
        location = top ++ names := by
    intro location names found
    split at found
    · rename_i below
      obtain ⟨⟨rest, rfl⟩, -⟩ := isBelow_iff.mp below
      rw [List.drop_left, Option.some.injEq] at found
      rw [found]
    · cases found
  rintro ⟨left, leftEntry⟩ ⟨right, rightEntry⟩ different leftNames fromLeft rightNames fromRight same
  cases leftEntry with
  | directory => cases fromLeft
  | file _ =>
      cases rightEntry with
      | directory => cases fromRight
      | file _ =>
          apply different
          exact (named left leftNames fromLeft).trans
            (same ▸ (named right rightNames fromRight).symm)

theorem mem_receivingDirectories {disk : Disk} {component : Path} {place : List String}
    (there : disk.isDirectory component = true) :
    place ∈ receivingDirectories disk component ↔ ∃ names content, names ≠ [] ∧
      disk.entryAt? (disk.leadsTo component ++ names) = some (.file content) ∧
        receivingDirectory? names = some place := by
  unfold receivingDirectories
  cases found : disk.locate? component with
  | none => simp [isDirectory, find?, found] at there
  | some top =>
      dsimp only
      rw [mem_foldr_insertNames, List.mem_filterMap, leadsTo_of_locate? found]
      constructor
      · rintro ⟨names, member, goes⟩
        obtain ⟨strict, content, file⟩ := mem_filesBelow.mp member
        exact ⟨names, content, strict, file, goes⟩
      · rintro ⟨names, content, strict, file, goes⟩
        exact ⟨names, mem_filesBelow.mpr ⟨strict, content, file⟩, goes⟩

theorem receivingDirectory?_eq_some {names place : List String}
    (goes : receivingDirectory? names = some place) : place ≠ [] ∧ place <+: names := by
  have within : (if names.dropLast.getLast?.any (Text.endsWith splitSuffix) then
      names.dropLast.dropLast else names.dropLast) <+: names := by
    split
    · exact (List.dropLast_prefix _).trans (List.dropLast_prefix _)
    · exact List.dropLast_prefix _
  unfold receivingDirectory? at goes
  dsimp only at goes
  generalize (if names.dropLast.getLast?.any (Text.endsWith splitSuffix) then
    names.dropLast.dropLast else names.dropLast) = receiving at within goes
  split at goes
  · cases goes
  · rename_i inner
    rw [Option.some.injEq] at goes
    rw [goes] at inner within
    rw [List.isEmpty_iff] at inner
    exact ⟨inner, within⟩

theorem receivingDirectory?_concat (place : List String) (name : String) :
    receivingDirectory? (place ++ [name]) =
      if place.getLast?.any (Text.endsWith splitSuffix) then
        if place.dropLast.isEmpty then none else some place.dropLast
      else if place.isEmpty then none else some place := by
  unfold receivingDirectory?
  rw [List.dropLast_concat]
  dsimp only
  split
  · rfl
  · rfl

private theorem receivingDirectory?_of_unsuffixed {place : List String} (name : String)
    (free : ∀ other ∈ place, Text.endsWith splitSuffix other = false) :
    receivingDirectory? (place ++ [name]) = if place = [] then none else some place := by
  have noBox : place.getLast?.any (Text.endsWith splitSuffix) = false := by
    cases last : place.getLast? with
    | none => rfl
    | some other => exact free other (List.mem_of_getLast? last)
  rw [receivingDirectory?_concat, noBox]
  simp only [Bool.false_eq_true, if_false, List.isEmpty_iff]

private theorem receivingDirectory?_of_box (place : List String) (base entry : String) :
    receivingDirectory? (place ++ (base ++ splitSuffix) :: [entry]) =
      if place = [] then none else some place := by
  rw [List.append_cons, receivingDirectory?_concat, List.getLast?_concat, Option.any_some,
    endsWith_append, if_pos rfl, List.dropLast_concat]
  simp only [List.isEmpty_iff]

/-- The directories that receive files from a backup are those of the tree that hold files. -/
theorem mem_receivingDirectories_stow {threshold : Threshold} {image : Location → Option Entry}
    {disk : Disk} {component : Path} {place : List String}
    (named : ∀ place, image place ≠ none → place.all isEntryName = true) (free : unsuffixed image)
    (source : ∀ place, disk.entryAt? (disk.leadsTo component ++ place) = stow threshold image place)
    (there : disk.isDirectory component = true) :
    place ∈ receivingDirectories disk component ↔ receives image place := by
  rw [mem_receivingDirectories there]
  simp only [source]
  constructor
  · rintro ⟨names, content, strict, kept, goes⟩
    rcases isPlain_or_split names with plain | ⟨front, base, rest, rfl, plain, some⟩
    · rw [stow_plain plain] at kept
      have file := wholeEntryAt?_eq_file kept
      obtain ⟨front, last, rfl⟩ : ∃ front last, names = front ++ [last] :=
        ⟨_, _, (List.dropLast_concat_getLast strict).symm⟩
      have members := free _ (by rw [file]; simp)
      rw [receivingDirectory?_of_unsuffixed last
        fun other inside => members other (List.mem_append_left _ inside)] at goes
      split at goes
      · cases goes
      · rename_i inner
        rw [Option.some.injEq] at goes
        rw [← goes]
        exact ⟨inner, last, content, file⟩
    · rw [stow_split plain some] at kept
      obtain ⟨whole, file, -, part⟩ := splitEntryAt?_eq_some kept
      match rest with
      | [] => cases part
      | [entry] =>
          rw [receivingDirectory?_of_box] at goes
          split at goes
          · cases goes
          · rename_i inner
            rw [Option.some.injEq] at goes
            rw [← goes]
            exact ⟨inner, base, whole, file⟩
      | _ :: _ :: _ => cases part
  · rintro ⟨inner, name, content, file⟩
    have members := free _ (by rw [file]; simp : image (place ++ [name]) ≠ none)
    have plain := free.plain _ (by rw [file]; simp : image (place ++ [name]) ≠ none)
    have nonempty : name ≠ "" := by
      have all := named _ (by rw [file]; simp : image (place ++ [name]) ≠ none)
      have own := List.all_eq_true.mp all name (List.mem_append_right _ (List.mem_singleton.mpr rfl))
      exact (isEntryName_iff.mp own).1
    by_cases small : content.size ≤ threshold.bytes
    · refine ⟨place ++ [name], content, by simp, ?_, ?_⟩
      · rw [stow_plain plain, file, wholeEntryAt?, if_pos small]
      · rw [receivingDirectory?_of_unsuffixed name
          fun other inside => members other (List.mem_append_left _ inside), if_neg inner]
    · refine ⟨place ++ (name ++ splitSuffix) :: [scriptName], (reassembleScript name).toUTF8,
        by simp, ?_, ?_⟩
      · rw [stow_split (isPlain_append.mp plain).1 nonempty, file, splitEntryAt?, if_neg small,
          partEntryAt?_script]
      · rw [receivingDirectory?_of_box, if_neg inner]

/-! ### Emptying -/

section Empty

variable {repository : Path} {places : List Location} {disk state next : Disk}

/-- The directories at some places are gone, as far as their paths can be followed. -/
structure Emptied (repository : Path) (places : List Location) (before after : Disk) : Prop where
  setting : before.SameSetting after
  gone : ∀ place ∈ places, before.permits (repository.joinNames place) →
    ∀ rest, after.entryAt? (before.leadsTo repository ++ place ++ rest) = none
  kept : ∀ other, (∀ place ∈ places, ¬ before.leadsTo repository ++ place <+: other) →
    after.entryAt? other = before.entryAt? other
  less : ∀ other, after.entryAt? other = none ∨ after.entryAt? other = before.entryAt? other
  noFile : ∀ place ∈ places, before.permits (repository.joinNames place) →
    (∀ other ∈ places, other <+: place → other = place) →
      ∀ content, before.entryAt? (before.leadsTo repository ++ place) ≠ some (.file content)

theorem Emptied.nothing (repository : Path) (disk : Disk) : Emptied repository [] disk disk :=
  ⟨.refl disk, fun _ absent => (nomatch absent), fun _ _ => rfl, fun _ => .inr rfl,
    fun _ absent => (nomatch absent)⟩

theorem Emptied.stands (emptied : Emptied repository places disk state)
    (inner : ∀ place ∈ places, place ≠ []) (standing : disk.stands repository)
    (outside : disk.keepsOut repository (disk.leadsTo repository)) : state.stands repository := by
  apply emptied.setting.stands _ standing
  intro other member
  apply emptied.kept
  intro place listed within
  have atTop := outside other member ((List.prefix_append _ place).trans within)
  rw [atTop] at within
  have lengths := within.length_le
  rw [List.length_append] at lengths
  exact inner place listed (List.eq_nil_of_length_eq_zero (by omega))

private theorem Emptied.concat {place : Location} (emptied : Emptied repository places disk state)
    (inner : ∀ other ∈ places, other ≠ []) (valid : place.all isEntryName = true)
    (strict : place ≠ []) (standing : disk.stands repository)
    (outside : disk.keepsOut repository (disk.leadsTo repository))
    (done : removeExisting (repository.joinNames place) state = .ok () next) :
    Emptied repository (places ++ [place]) disk next := by
  have apart : state.keepsOut repository (state.leadsTo repository ++ place) := by
    rw [emptied.setting.leadsTo, emptied.setting.keepsOut]
    exact outside.append place
  obtain ⟨erased, same⟩ := removeExisting_joinNames_ok valid strict apart done
  have open_ := emptied.stands inner standing outside
  have aim := emptied.setting.leadsTo repository
  have noFile : ∀ other ∈ places ++ [place], disk.permits (repository.joinNames other) →
      (∀ another ∈ places ++ [place], another <+: other → another = other) →
        ∀ content, disk.entryAt? (disk.leadsTo repository ++ other) ≠ some (.file content) := by
    intro other member allowed first content file
    by_cases earlier : other ∈ places
    · exact emptied.noFile other earlier allowed
        (fun another inside => first another (List.mem_append_left _ inside)) content file
    · have own : other = place :=
        List.mem_singleton.mp ((List.mem_append.mp member).resolve_left earlier)
      subst own
      have still : state.entryAt? (state.leadsTo repository ++ other) = some (.file content) := by
        rw [aim, emptied.kept, file]
        intro another inside within
        have same := first another (List.mem_append_left _ inside)
          ((List.prefix_append_right_inj _).mp within)
        exact earlier (same ▸ inside)
      exact not_file_of_removeExisting valid open_ ((emptied.setting.permits _).mpr allowed) done still
  by_cases able : state.permits (repository.joinNames place)
  · have effect := erased ⟨open_, able⟩
    rw [aim] at effect
    refine ⟨emptied.setting.trans effect.setting, ?_, ?_, ?_, noFile⟩
    · intro other member allowed rest
      rw [effect.entries]
      split
      · rfl
      · rename_i apart
        rcases List.mem_append.mp member with earlier | own
        · exact emptied.gone other earlier allowed rest
        · rw [List.mem_singleton.mp own] at apart
          exact absurd (List.prefix_append _ rest) apart
    · intro other apart
      rw [effect.entries, if_neg (apart place
        (List.mem_append_right _ (List.mem_singleton.mpr rfl)))]
      exact emptied.kept other fun earlier member => apart earlier (List.mem_append_left _ member)
    · intro other
      rw [effect.entries]
      split
      · exact .inl rfl
      · exact emptied.less other
  · have unchanged := same fun both => able both.2
    subst unchanged
    refine ⟨emptied.setting, ?_, ?_, emptied.less, noFile⟩
    · intro other member allowed rest
      rcases List.mem_append.mp member with earlier | own
      · exact emptied.gone other earlier allowed rest
      · rw [List.mem_singleton.mp own] at allowed
        exact absurd ((emptied.setting.permits _).mpr allowed) able
    · intro other apart
      exact emptied.kept other fun earlier member => apart earlier (List.mem_append_left _ member)

theorem emptied_of_forM (valid : ∀ place ∈ places, place.all isEntryName = true)
    (inner : ∀ place ∈ places, place ≠ []) (standing : disk.stands repository)
    (outside : disk.keepsOut repository (disk.leadsTo repository))
    (done : (places.map repository.joinNames).forM removeExisting disk = .ok () next) :
    Emptied repository places disk next := by
  have steps : places.forM (fun place => removeExisting (repository.joinNames place)) disk =
      .ok () next := by
    rw [List.forM_eq_forM, List.forM_map] at done
    exact done
  refine forM_ok (fun before state => Emptied repository before disk state)
    (.nothing repository disk) ?_ steps
  intro before place rest current next whole kept moved
  have member : place ∈ places := by
    rw [whole]
    exact List.mem_append_right _ List.mem_cons_self
  have earlier : ∀ other ∈ before, other ≠ [] := by
    intro other inside
    apply inner
    rw [whole]
    exact List.mem_append_left _ inside
  exact kept.concat earlier (valid place member) (inner place member) standing outside moved

end Empty

/-! ### Laying over -/

/-- What laying a tree over a place has changed: the tree is there, its receiving directories hold
nothing else, and what is not in them is as it was. No file has become a directory, unless a directory
around it was emptied. -/
structure LaidOver (image : Location → Option Entry) (top : Location) (before after : Disk) :
    Prop where
  setting : before.SameSetting after
  own : ∀ place entry, image place = some entry → after.entryAt? (top ++ place) = some entry
  stale : ∀ place, image place = none → (∃ directory, receives image directory ∧ directory <+: place) →
    after.entryAt? (top ++ place) = none
  kept : ∀ place, image place = none → (∀ directory, receives image directory → ¬ directory <+: place) →
    after.entryAt? (top ++ place) = before.entryAt? (top ++ place)
  noFile : ∀ place, image place = some .directory →
    (∀ directory, receives image directory → directory <+: place → directory = place) →
      ∀ content, before.entryAt? (top ++ place) ≠ some (.file content)
  outside : ∀ other, ¬ top <+: other → after.entryAt? other = before.entryAt? other

/-- What is known of a tree whose files can be kept in parts: its names are fit for it, and so are
the sizes of its files. -/
structure Storable (threshold : Threshold) (image : Location → Option Entry) : Prop where
  tree : isTree image
  named : ∀ place, image place ≠ none → place.all isEntryName = true
  free : unsuffixed image
  fits : fitsParts threshold image
  rootless : ∀ name content, image [name] ≠ some (.file content)

section Overlay

variable {threshold : Threshold} {repository component : Path} {image old : Location → Option Entry}
  {disk next : Disk} {levels : Nat}

/-- The component is still there when it has been copied: what the copy replaces is no directory that
its path passes. -/
private theorem Restoring.component_stands
    (known : Restoring threshold repository ⟨component, []⟩ image old disk)
    (rootless : ∀ name content, image [name] ≠ some (.file content))
    (done : Visitor.walkWithin (copyVisitor repository .merge) id levels ⟨component, []⟩ disk =
      .ok () next) : next.stands component := by
  obtain ⟨_, made, _, _, -, top, -, -, isDirectory, entered, -⟩ := known.toCopyAt.copyWithin_ok done
  obtain ⟨planted, followed⟩ := known.copyWithin_ok done
  have stood := (isDirectory_iff.mp isDirectory).2
  intro place member
  rw [planted.setting.way] at member
  have passed := stood place (by rw [entered.setting.way]; exact member)
  by_cases within : Spot.target ⟨component, []⟩ repository disk <+: place
  · obtain ⟨rest, rfl⟩ := within
    rw [entered.inside] at passed
    rw [planted.inside]
    cases rest using List.reverseRecOn with
    | nil =>
        rw [stow_plain isPlain_nil] at top
        rw [wholeEntryAt?_eq_directory top, Option.some_or]
    | append_singleton front name =>
        have held : old (front ++ [name]) = some .directory := by
          unfold enteredView at passed
          split at passed
          · rename_i empty
            simp at empty
          · rename_i whole
            rw [whole]
            exact passed
        cases own : image (front ++ [name]) with
        | none => rw [Option.none_or, held]
        | some entry =>
            cases entry with
            | directory => rfl
            | file content =>
                have inner : front ≠ [] := by
                  rintro rfl
                  exact rootless name content own
                have parent := known.tree front name (by rw [own]; simp)
                have nothing := known.empty front name content own (followed front parent).1 [name]
                  (List.cons_ne_nil _ _)
                rw [nothing] at held
                cases held
  · rw [planted.outside place within, ← entered.outside place within]
    exact passed

/-- Once the receiving directories are gone, a repository is ready for the copy. -/
private theorem Emptied.restoring {places : List Location} {state : Disk}
    (emptied : Emptied repository places disk state)
    (receiving : ∀ place, place ∈ places ↔ receives image place)
    (isRepository : disk.isDirectory repository = true)
    (outside : disk.keepsOut repository (disk.leadsTo repository))
    (targetApart : ¬ disk.leadsTo repository <+: disk.leadsTo component)
    (sourceApart : ¬ disk.leadsTo component <+: disk.leadsTo repository)
    (source : ∀ place, disk.entryAt? (disk.leadsTo component ++ place) = stow threshold image place)
    (storable : Storable threshold image) (unmerged : neverMerged component (repository.joinNames [])) :
    Restoring threshold repository ⟨component, []⟩ image
      (fun place => state.entryAt? (disk.leadsTo repository ++ place)) state := by
  obtain ⟨permitted, standing⟩ := isDirectory_iff.mp isRepository
  have setting := emptied.setting
  have open_ := emptied.stands (fun place member => ((receiving place).mp member).1) standing outside
  have sourceAim : Spot.source ⟨component, []⟩ state = disk.leadsTo component := by
    unfold Spot.source
    rw [setting.leadsTo, List.append_nil]
  have targetAim : Spot.target ⟨component, []⟩ repository state = disk.leadsTo repository := by
    unfold Spot.target
    rw [setting.leadsTo, List.append_nil]
  refine
    { valid := rfl
      spelled := permitted.spelled
      standing := open_
      outside := ?_
      sourceApart := ?_
      targetApart := ?_
      parent := ?_
      source := fun place => ?_
      held := fun place => ?_
      tree := storable.tree
      named := storable.named
      plain := storable.free.plain
      fits := storable.fits
      unmerged := unmerged
      empty := fun place name content file allowed rest _ => ?_ }
  · rw [setting.keepsOut, setting.leadsTo]
    exact outside
  · rw [sourceAim, targetAim]
    exact sourceApart
  · rw [sourceAim, targetAim]
    exact targetApart
  · rw [List.dropLast_nil, List.append_nil]
    exact entryAt?_leadsTo_of_stands open_
  · rw [sourceAim, emptied.kept, source]
    intro directory _ within
    rcases List.prefix_or_prefix_of_prefix ((List.prefix_append _ directory).trans within)
      (List.prefix_append _ place) with below | above
    · exact targetApart below
    · exact sourceApart above
  · rw [targetAim]
  · have strict : place ≠ [] := by
      rintro rfl
      exact storable.rootless name content file
    rw [← List.append_assoc]
    exact emptied.gone place ((receiving place).mpr ⟨strict, name, content, file⟩)
      ((setting.permits _).mp allowed) rest

/-- What emptying the receiving directories and copying a tree have changed together. -/
private theorem Emptied.laidOver {places : List Location} {state : Disk}
    (emptied : Emptied repository places disk state)
    (receiving : ∀ place, place ∈ places ↔ receives image place) (tree : isTree image)
    (planted : state.Plants (disk.leadsTo repository)
      (fun place => (image place).or (state.entryAt? (disk.leadsTo repository ++ place))) next)
    (followed : ∀ place, image place = some .directory → entersAt repository ⟨component, []⟩
      (fun place => state.entryAt? (disk.leadsTo repository ++ place)) state place) :
    LaidOver image (disk.leadsTo repository) disk next := by
  have setting := emptied.setting
  constructor
  case setting => exact setting.trans planted.setting
  case own =>
    intro place entry there
    rw [planted.inside, there, Option.some_or]
  case stale =>
    rintro place absent ⟨directory, receives_, within⟩
    obtain ⟨rest, rfl⟩ := within
    obtain ⟨strict, name, content, file⟩ := receives_
    have top := tree directory name (by rw [file]; simp)
    have allowed := (setting.permits _).mp (followed directory top).1
    rw [List.nil_append] at allowed
    rw [planted.inside, absent, Option.none_or, ← List.append_assoc]
    exact emptied.gone directory ((receiving directory).mpr ⟨strict, name, content, file⟩) allowed rest
  case kept =>
    intro place absent apart
    rw [planted.inside, absent, Option.none_or]
    apply emptied.kept
    intro directory member within
    exact apart directory ((receiving directory).mp member)
      ((List.prefix_append_right_inj _).mp within)
  case noFile =>
    intro place isDirectory first content file
    obtain ⟨allowed, noFile⟩ := followed place isDirectory
    rw [setting.permits, List.nil_append] at allowed
    by_cases own : place ∈ places
    · exact emptied.noFile place own allowed
        (fun other member => first other ((receiving other).mp member)) content file
    · apply noFile content
      dsimp only
      rw [emptied.kept, file]
      intro directory member within
      have same := first directory ((receiving directory).mp member)
        ((List.prefix_append_right_inj _).mp within)
      exact own (same ▸ member)
  case outside =>
    intro other apart
    rw [planted.outside other apart]
    apply emptied.kept
    intro directory _ within
    exact apart ((List.prefix_append _ directory).trans within)

theorem overlayComponent_ok (isRepository : disk.isDirectory repository = true)
    (isComponent : disk.isDirectory component = true)
    (outside : disk.keepsOut repository (disk.leadsTo repository))
    (targetApart : ¬ disk.leadsTo repository <+: disk.leadsTo component)
    (sourceApart : ¬ disk.leadsTo component <+: disk.leadsTo repository)
    (source : ∀ place, disk.entryAt? (disk.leadsTo component ++ place) = stow threshold image place)
    (storable : Storable threshold image) (unmerged : neverMerged component (repository.joinNames []))
    (done : overlayComponent repository component disk = .ok () next) :
    LaidOver image (disk.leadsTo repository) disk next ∧ next.stands component := by
  unfold overlayComponent at done
  simp only [bind_ok_iff, get_ok_iff] at done
  obtain ⟨_, _, ⟨rfl, rfl⟩, _, cleared, removed, copied⟩ := done
  have receiving := fun place => @mem_receivingDirectories_stow threshold image disk component place
    storable.named storable.free source isComponent
  have inner : ∀ place ∈ receivingDirectories disk component, place ≠ [] :=
    fun place member => ((receiving place).mp member).1
  have valid : ∀ place ∈ receivingDirectories disk component, place.all isEntryName = true := by
    intro place member
    obtain ⟨-, name, content, file⟩ := (receiving place).mp member
    exact (all_isEntryName_append.mp (storable.named (place ++ [name]) (by rw [file]; simp))).1
  have emptied := emptied_of_forM valid inner (isDirectory_iff.mp isRepository).2 outside removed
  have restoring := emptied.restoring receiving isRepository outside targetApart sourceApart source
    storable unmerged
  obtain ⟨levels, walked⟩ := copyTree_ok copied
  obtain ⟨planted, followed⟩ := restoring.copyWithin_ok walked
  have targetAim : Spot.target ⟨component, []⟩ repository cleared = disk.leadsTo repository := by
    unfold Spot.target
    rw [emptied.setting.leadsTo, List.append_nil]
  rw [targetAim] at planted
  exact ⟨emptied.laidOver receiving storable.tree planted followed,
    restoring.component_stands storable.rootless walked⟩

theorem overlay_steps {target root : Path} {start after : Disk} {applied : List Path}
    (done : overlay target root start = .ok applied after) :
    start.isDirectory target = true ∧ start.isDirectory root = true ∧
      overlayComponents target root (start.childNames (start.leadsTo root)) start =
        .ok applied after := by
  unfold overlay at done
  simp only [bind_ok_iff, get_ok_iff] at done
  obtain ⟨_, _, ⟨rfl, rfl⟩, done⟩ := done
  split at done
  · simp only [bind_ok_iff, throw_ok_iff, false_and, exists_false] at done
  · split at done
    · simp only [bind_ok_iff, throw_ok_iff, false_and, exists_false] at done
    · rename_i isTarget isRoot
      rw [Bool.not_eq_true', Bool.not_eq_false] at isTarget isRoot
      refine ⟨isTarget, isRoot, ?_⟩
      cases listed : start.list? root with
      | none =>
          rw [listed] at done
          cases done
      | some names =>
          rw [listed] at done
          rw [← (list?_eq_some_iff.mp listed).2]
          exact done

end Overlay

end CrossBuild.Artifacts
