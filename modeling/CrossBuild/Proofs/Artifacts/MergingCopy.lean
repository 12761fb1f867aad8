/-
Copying with merging, and merging a finished copy.

Both go through the same names in the same order, and on leaving a directory of parts both merge it. Their
states agree but for what the copy has still to come to, and a merge has nothing to do with that: what
stands in a directory has been copied when it is left, and the name of a file comes before that of the
directory of its parts.
-/

import CrossBuild.Proofs.Artifacts.Reach
import CrossBuild.Proofs.Artifacts.SplittingCopy

namespace CrossBuild.Artifacts

open Files Files.Disk Runs

/-! ### One directory of parts on two disks -/

section OneDirectory

variable {left right : Disk} {directory above : Path} {base : String}

/-- What a disk holds once the file of a directory of parts has taken its place. -/
def mergedView (target box : Location) (content : ByteArray) (view : Location → Option Entry)
    (place : Location) : Option Entry :=
  if place = target then some (.file content) else if box <+: place then none else view place

theorem mergedView_apart {target box place : Location} {content : ByteArray}
    {view : Location → Option Entry} (other : place ≠ target) (outside : ¬ box <+: place) :
    mergedView target box content view place = view place := by
  rw [mergedView, if_neg other, if_neg outside]

theorem isDirectory_beside_congr (setting : left.SameSetting right) (standing : left.stands above)
    (also : right.stands above) (kind : isEntryName base = true ∨ base = "." ∨ base = "..")
    (same : isEntryName base = true → left.entryAt? (left.leadsTo above ++ [base]) =
      right.entryAt? (left.leadsTo above ++ [base])) :
    left.isDirectory (above.tidied.joinName base) = right.isDirectory (above.tidied.joinName base) := by
  have tidied : ∀ {disk : Disk}, disk.stands above → disk.stands above.tidied := fun stood place member =>
    stood place (((way_of_tidied _ above).2 place).mp member)
  rw [Bool.eq_iff_iff, isDirectory_iff, isDirectory_iff, setting.permits]
  apply and_congr_right
  intro _
  rcases kind with valid | dots
  · have all : [base].all isEntryName = true := by simpa using valid
    rw [Path.joinName_eq_joinNames, stands_joinNames all, stands_joinNames all, setting.leadsTo,
      (way_of_tidied left above).1, same valid]
    exact and_congr_left fun _ => ⟨fun _ => tidied also, fun _ => tidied standing⟩
  · exact ⟨fun _ => stands_joinName_dots dots (tidied also), fun _ =>
      stands_joinName_dots dots (tidied standing)⟩

/-- Merging the same directory of parts on two disks comes to the same. -/
theorem HasParts.together (parts : HasParts directory base left) (also : HasParts directory base right)
    (setting : left.SameSetting right)
    (inside : ∀ rest, left.entryAt? (left.leadsTo directory ++ rest) =
      right.entryAt? (left.leadsTo directory ++ rest))
    (beside : left.isDirectory (directory.withFileName base) =
      right.isDirectory (directory.withFileName base))
    (noDots : directory.endsInDots = false)
    (outside : left.keepsOut directory (left.leadsTo directory)) :
    Together (fun after later => left.isDirectory (directory.withFileName base) = false ∧ ∃ content,
        left.Becomes (mergedView (left.leadsTo (directory.withFileName base)) (left.leadsTo directory)
          content left.entryAt?) after ∧
        right.Becomes (mergedView (left.leadsTo (directory.withFileName base)) (left.leadsTo directory)
          content right.entryAt?) later)
      (mergeDirectory directory left) (mergeDirectory directory right) := by
  have aim := setting.leadsTo directory
  have part : partAt? right (right.leadsTo directory) = partAt? left (left.leadsTo directory) := by
    funext index
    unfold partAt?
    rw [aim, inside]
  have there : partsThere right (right.leadsTo directory) = partsThere left (left.leadsTo directory) := by
    unfold partsThere
    rw [part]
  by_cases gap : ∃ count, partsThere left (left.leadsTo directory) = Set.Iio count
  · obtain ⟨count, front⟩ := gap
    cases inTheWay : left.isDirectory (directory.withFileName base) with
    | true =>
        rw [parts.stops_at_directory front inTheWay,
          also.stops_at_directory (there.trans front) (beside.symm.trans inTheWay)]
        trivial
    | false =>
        obtain ⟨after, merged, effect, gone, -⟩ := parts.merges front inTheWay noDots
        obtain ⟨later, mergedAlso, effectAlso, goneAlso, -⟩ :=
          also.merges (there.trans front) (beside.symm.trans inTheWay) noDots
        have joined : joinedParts right (right.leadsTo directory) count =
            joinedParts left (left.leadsTo directory) count := by
          unfold joinedParts
          rw [part]
        rw [aim] at joined goneAlso effectAlso
        rw [joined, setting.leadsTo] at effectAlso
        rw [merged, mergedAlso]
        exact ⟨rfl, _, effect.becomes (gone outside),
          effectAlso.becomes (goneAlso (setting.keepsOut.mpr outside))⟩
  · obtain ⟨_, _, -, -, failed⟩ := parts.reports_gap gap
    obtain ⟨_, _, -, -, failedAlso⟩ := also.reports_gap (by rw [there]; exact gap)
    rw [failed, failedAlso]
    trivial

end OneDirectory

/-! ### Two copies on the way -/

/-- One copy is being filled, and the other is whole. They agree but for the places ahead, which the first
has not come to; there the other is still like the source. All that is stored can be reached. -/
structure Lockstep (source target : Path) (start : Disk) (ahead : Location → Prop)
    (past view : Location → Option Entry) (left right : Disk) : Prop where
  filling : Copied .default target start past [] left
  whole : Copied .default target start view [] right
  waiting : ∀ place, ahead place → past place = none ∧ view place = treeBelow source start place
  caught : ∀ place, ¬ ahead place → past place = view place
  reached : ∀ place, view place ≠ none → start.permits (target.joinNames place)

section Lockstep

variable {source target : Path} {start left right : Disk} {ahead other : Location → Prop}
  {past view : Location → Option Entry} {names front : Location} {base : String}

/-- Places that the source does not hold need not be waited for. -/
theorem Lockstep.drop (together : Lockstep source target start ahead past view left right)
    (narrower : ∀ place, other place → ahead place)
    (empty : ∀ place, ahead place → ¬ other place → treeBelow source start place = none) :
    Lockstep source target start other past view left right where
  filling := together.filling
  whole := together.whole
  waiting := fun place waits => together.waiting place (narrower place waits)
  caught := by
    intro place behind
    by_cases waits : ahead place
    · obtain ⟨nothing, like⟩ := together.waiting place waits
      rw [nothing, like, empty place waits behind]
    · exact together.caught place waits
  reached := together.reached

theorem Lockstep.planted (together : Lockstep source target start ahead past view left right) :
    start.Plants (start.leadsTo target) past left ∧ start.Plants (start.leadsTo target) view right := by
  have views := And.intro together.filling.planted together.whole.planted
  rwa [funext (partly_nil .default past), funext (partly_nil .default view)] at views

variable (fresh : FreshTarget source target start)
  (together : Lockstep source target start ahead past view left right)
  (valid : names.all isEntryName = true)

include fresh together valid

/-- The copy makes a directory, which stands in the other already. -/
theorem Lockstep.enter (able : copyable source target start)
    (directory : treeBelow source start names = some .directory)
    (parent : names ≠ [] → past names.dropLast = some .directory)
    (next : names ≠ [] → ahead names) :
    ∃ made, (copyVisitor target .merge).before ⟨source, names⟩ left = .ok .enter made ∧
      Lockstep source target start (fun place => ahead place ∧ place ≠ names)
        (Function.update past names (some .directory)) view made right := by
  have there : treeBelow source start names ≠ none := by
    rw [directory]
    simp
  have present : view names = some .directory := by
    by_cases top : names = []
    · rw [top, together.whole.top]
    · rw [(together.waiting names (next top)).2, directory]
  have making := together.filling.makeDirectories_ends fresh valid parent
    (fun strict => (together.waiting names (next strict)).1) (.inl rfl)
  cases ran : attempt .makeDirectories (target.joinNames names)
      (makeDirectories (target.joinNames names)) left with
  | error cause after => exact absurd (able names there).2 (making.error ran)
  | ok _ made =>
      obtain ⟨-, entered⟩ := making.ok ran
      refine ⟨made, bind_ok_iff.mpr ⟨_, made, ran, rfl⟩, entered, together.whole, ?_,
        fun place behind => ?_, together.reached⟩
      · rintro place ⟨waits, different⟩
        rw [Function.update_of_ne different]
        exact together.waiting place waits
      · by_cases own : place = names
        · rw [own, Function.update_self, present]
        · rw [Function.update_of_ne own]
          exact together.caught place fun waits => behind ⟨waits, own⟩

/-- The copy takes over a file, which stands in the other already. -/
theorem Lockstep.copyFile (able : copyable source target start) {content : ByteArray}
    (isFile : treeBelow source start names = some (.file content)) (strict : names ≠ [])
    (parent : past names.dropLast = some .directory) (next : ahead names) :
    ∃ after, replaceFile (Spot.path ⟨source, names⟩) (target.joinNames names) left = .ok () after ∧
      Lockstep source target start (fun place => ahead place ∧ place ≠ names)
        (Function.update past names (some (.file content))) view after right := by
  have there : treeBelow source start names ≠ none := by
    rw [isFile]
    simp
  have leaf : left.isDirectory (Spot.path ⟨source, names⟩) ≠ true := by
    rw [ne_eq, fresh.isDirectory_source together.planted.1 together.filling.top valid, isFile]
    simp
  have copying := together.filling.replaceFile_ends fresh valid strict parent
    (together.waiting names next).1 (.inl rfl) there leaf
  cases ran : replaceFile (Spot.path ⟨source, names⟩) (target.joinNames names) left with
  | error cause after => exact absurd (able names there) (copying.error ran)
  | ok _ after =>
      obtain ⟨-, other, same, copied⟩ := copying.ok ran
      rw [isFile, Option.some.injEq, Entry.file.injEq] at same
      subst same
      refine ⟨after, rfl, copied, together.whole, ?_, fun place behind => ?_, together.reached⟩
      · rintro place ⟨waits, different⟩
        rw [Function.update_of_ne different]
        exact together.waiting place waits
      · by_cases own : place = names
        · rw [own, Function.update_self, (together.waiting names next).2, isFile]
        · rw [Function.update_of_ne own]
          exact together.caught place fun waits => behind ⟨waits, own⟩

/-! ### Merging on the way -/

omit fresh together valid in
/-- A directory of a copy with the name of a directory of parts is one, as far as merging is concerned. -/
private theorem hasParts_of_plants {disk : Disk} {tree : Location → Option Entry}
    (valid : (front ++ [base ++ splitSuffix]).all isEntryName = true) (nonempty : base ≠ "")
    (planted : start.Plants (start.leadsTo target) tree disk)
    (there : disk.isDirectory (target.joinNames (front ++ [base ++ splitSuffix])) = true)
    (reached : ∀ place, tree place ≠ none → start.permits (target.joinNames place)) :
    HasParts (target.joinNames (front ++ [base ++ splitSuffix])) base disk where
  base_ne := nonempty
  named := by
    rw [← Path.joinName_joinNames target valid]
    exact Path.fileName?_joinName _ (all_isEntryName_concat.mp valid).2
  there := there
  permitted := by
    rintro index ⟨-, isPart⟩
    obtain ⟨content, part⟩ := Option.isSome_iff_exists.mp isPart
    rw [partAt?_eq_some_iff, leadsTo_joinNames valid, planted.setting.leadsTo, List.append_assoc,
      planted.inside] at part
    rw [Path.joinName_joinNames target (all_isEntryName_concat.mpr ⟨valid, isEntryName_partName index⟩),
      planted.setting.permits]
    exact reached _ (by rw [part]; simp)

omit fresh together valid in
private theorem Copied.merged {disk after : Disk} {tree : Location → Option Entry} {content : ByteArray}
    (known : Copied .default target start tree [] disk)
    (effect : disk.Becomes (mergedView (start.leadsTo target ++ (front ++ [base]))
      (start.leadsTo target ++ (front ++ [base ++ splitSuffix])) content disk.entryAt?) after) :
    Copied .default target start
      (mergedView (front ++ [base]) (front ++ [base ++ splitSuffix]) content tree) [] after where
  top := by
    rw [mergedView_apart (by simp) (by simp), known.top]
  planted := by
    refine known.planted.becomes effect (fun rest => ?_) fun other apart => ?_
    · rw [partly_nil]
      unfold mergedView
      rw [known.planted.inside, partly_nil]
      simp only [List.append_cancel_left_eq, List.prefix_append_right_inj]
    · apply mergedView_apart
      · rintro rfl
        exact apart (List.prefix_append _ _)
      · exact fun within => apart ((List.prefix_append _ _).trans within)
  distinct := List.nodup_nil
  large := fun _ absent => nomatch absent
  permitted := fun _ absent => nomatch absent

/-- Both copies hold the directory of parts, or neither does. -/
private theorem Lockstep.isDirectory_congr (caught : ¬ ahead names) (strict : names ≠ []) :
    left.isDirectory (target.joinNames names) = right.isDirectory (target.joinNames names) := by
  obtain ⟨filled, stored⟩ := together.planted
  rw [← Spot.path_of_names valid strict, Bool.eq_iff_iff,
    fresh.isDirectory_target filled together.filling.top valid,
    fresh.isDirectory_target stored together.whole.top valid, together.caught names caught]

section Box

variable (nonempty : base ≠ "") (parent : past front = some .directory) (beside : ¬ ahead (front ++ [base]))

include nonempty parent beside

omit valid in
/-- The place of the file is taken by a directory in both copies, or in neither. -/
private theorem Lockstep.isDirectory_beside (valid : (front ++ [base ++ splitSuffix]).all isEntryName = true) :
    left.isDirectory ((target.joinNames (front ++ [base ++ splitSuffix])).withFileName base) =
      right.isDirectory ((target.joinNames (front ++ [base ++ splitSuffix])).withFileName base) := by
  obtain ⟨frontValid, boxValid⟩ := all_isEntryName_concat.mp valid
  obtain ⟨filled, stored⟩ := together.planted
  have frontSame := together.caught front fun waits => by
    rw [(together.waiting front waits).1] at parent
    cases parent
  rw [← Path.joinName_joinNames target valid, Path.withFileName_eq_tidied _ base boxValid]
  refine isDirectory_beside_congr (filled.setting.symm.trans stored.setting) ?_ ?_
    (isEntryName_of_append_splitSuffix nonempty boxValid) fun _ => ?_
  · refine (stands_joinNames frontValid).mpr ⟨together.filling.stands fresh, ?_⟩
    rw [filled.setting.leadsTo, filled.inside, parent]
  · refine (stands_joinNames frontValid).mpr ⟨together.whole.stands fresh, ?_⟩
    rw [stored.setting.leadsTo, stored.inside, ← frontSame, parent]
  · rw [leadsTo_joinNames frontValid, filled.setting.leadsTo, List.append_assoc, filled.inside,
      stored.inside, together.caught _ beside]

variable (inside : ∀ rest, ¬ ahead (front ++ [base ++ splitSuffix] ++ rest))

include inside

omit fresh valid nonempty parent in
/-- Once the file has taken the place of its parts in both, the copies still agree. -/
private theorem Lockstep.merged {after later : Disk} {content : ByteArray}
    (effect : left.Becomes (mergedView (start.leadsTo target ++ (front ++ [base]))
      (start.leadsTo target ++ (front ++ [base ++ splitSuffix])) content left.entryAt?) after)
    (also : right.Becomes (mergedView (start.leadsTo target ++ (front ++ [base]))
      (start.leadsTo target ++ (front ++ [base ++ splitSuffix])) content right.entryAt?) later)
    (permitted : start.permits (target.joinNames (front ++ [base]))) :
    Lockstep source target start ahead
      (mergedView (front ++ [base]) (front ++ [base ++ splitSuffix]) content past)
      (mergedView (front ++ [base]) (front ++ [base ++ splitSuffix]) content view) after later where
  filling := together.filling.merged effect
  whole := together.whole.merged also
  waiting := by
    intro place waits
    have apart : place ≠ front ++ [base] := by
      rintro rfl
      exact beside waits
    have clear : ¬ front ++ [base ++ splitSuffix] <+: place := by
      rintro ⟨rest, rfl⟩
      exact inside rest waits
    rw [mergedView_apart apart clear, mergedView_apart apart clear]
    exact together.waiting place waits
  caught := by
    intro place behind
    unfold mergedView
    rw [together.caught place behind]
  reached := by
    intro place present
    unfold mergedView at present
    split at present
    · rename_i own
      rw [own]
      exact permitted
    · split at present
      · exact absurd rfl present
      · exact together.reached place present

omit valid in
/-- What is left is merged in both copies alike, unless something of it or its file is still ahead. -/
theorem Lockstep.merge (valid : (front ++ [base ++ splitSuffix]).all isEntryName = true) :
    Together (fun after later => ∃ past view,
        Lockstep source target start ahead past view after later ∧ past front = some .directory)
      (mergeDirectory (target.joinNames (front ++ [base ++ splitSuffix])) left)
      (mergeDirectory (target.joinNames (front ++ [base ++ splitSuffix])) right) := by
  obtain ⟨frontValid, boxValid⟩ := all_isEntryName_concat.mp valid
  obtain ⟨filled, stored⟩ := together.planted
  have aim : left.leadsTo (target.joinNames (front ++ [base ++ splitSuffix])) =
      start.leadsTo target ++ (front ++ [base ++ splitSuffix]) := by
    rw [leadsTo_joinNames valid, filled.setting.leadsTo]
  have caught := inside []
  rw [List.append_nil] at caught
  have alike := together.isDirectory_congr fresh valid caught (by simp)
  cases there : left.isDirectory (target.joinNames (front ++ [base ++ splitSuffix])) with
  | false =>
      have other : ∀ {disk : Disk},
          disk.isDirectory (target.joinNames (front ++ [base ++ splitSuffix])) = false →
            isSplitDirectory disk (target.joinNames (front ++ [base ++ splitSuffix])) = false := by
        intro disk missing
        rw [isSplitDirectory, missing, Bool.false_and]
      rw [mergeDirectory_of_other (other there), mergeDirectory_of_other (other (alike ▸ there))]
      exact ⟨past, view, together, parent⟩
  | true =>
      have reached : ∀ place, past place ≠ none → start.permits (target.joinNames place) := by
        intro place present
        refine together.reached place ?_
        rw [← together.caught place fun waits => present (together.waiting place waits).1]
        exact present
      have parts := hasParts_of_plants valid nonempty filled there reached
      have also := hasParts_of_plants valid nonempty stored (alike ▸ there) together.reached
      have noDots : (target.joinNames (front ++ [base ++ splitSuffix])).endsInDots = false := by
        rw [← Path.joinName_joinNames target valid]
        exact endsInDots_of_segments (Path.segments_joinName _ boxValid) boxValid
      have outside : left.keepsOut (target.joinNames (front ++ [base ++ splitSuffix]))
          (left.leadsTo (target.joinNames (front ++ [base ++ splitSuffix]))) := by
        refine keepsOut.joinNames (keepsOut.append ?_ _) valid
        rw [filled.setting.keepsOut, filled.setting.leadsTo]
        exact fresh.keepsOut (isDirectory_iff.mp fresh.targetThere).2
      refine (parts.together also (filled.setting.symm.trans stored.setting) (fun rest => ?_)
        (together.isDirectory_beside fresh nonempty parent beside valid) noDots outside).mono ?_
      · rw [aim, List.append_assoc, filled.inside, stored.inside, together.caught _ (inside rest)]
      rintro after later ⟨noDirectory, content, effect, alsoEffect⟩
      obtain ⟨above, boxAim, located, -⟩ := parts.locate?_target noDirectory
      rw [aim, ← List.append_assoc] at boxAim
      obtain rfl := (List.append_inj' boxAim rfl).1
      rw [← leadsTo_of_locate? located, aim, List.append_assoc] at effect alsoEffect
      have baseValid : isEntryName base = true := by
        apply @isEntryName_of_entryAt? after (start.leadsTo target ++ front) base (.file content)
        rw [List.append_assoc, effect.entries, mergedView, if_pos rfl]
      have permitted := (filled.setting.permits _).mp (isDirectory_iff.mp there).1
      rw [← Path.joinName_joinNames target valid] at permitted
      have file := permits_joinName_front baseValid boxValid permitted
      rw [Path.joinName_joinNames target (all_isEntryName_concat.mpr ⟨frontValid, baseValid⟩)] at file
      refine ⟨_, _, together.merged beside inside effect alsoEffect file, ?_⟩
      rw [mergedView_apart (by simp) fun within => ?_, parent]
      have lengths := within.length_le
      rw [List.length_append, List.length_singleton] at lengths
      omega

end Box

/-- On leaving a directory, the copy merges it if it is one of parts, and so does the other walk. -/
theorem Lockstep.leave {tally : Tally} (same : tally.disk = right) (able : copyable source target start)
    (directory : treeBelow source start names = some .directory)
    (parent : names ≠ [] → past names.dropLast = some .directory)
    (inside : ∀ rest, ¬ ahead (names ++ rest))
    (beside : ∀ front base, names = front ++ [base ++ splitSuffix] → base ≠ "" →
      ¬ ahead (front ++ [base])) :
    Together (fun after later => ∃ past view,
        Lockstep source target start ahead past view after later.disk ∧
          (names ≠ [] → past names.dropLast = some .directory))
      ((copyVisitor target .merge).after ⟨source, names⟩ left) (mergeVisitor.after ⟨target, names⟩ tally) := by
  subst same
  change Together _ (finishDirectory .merge (Spot.path ⟨source, names⟩) (target.joinNames names) left)
    (counting (mergeDirectory (Spot.path ⟨target, names⟩)) tally)
  apply @together_counting _ _ _ _ (fun after later => ∃ past view,
    Lockstep source target start ahead past view after later ∧
      (names ≠ [] → past names.dropLast = some .directory))
  cases names using List.reverseRecOn with
  | nil =>
      have unmerged : neverMerged (Spot.path ⟨source, []⟩) (target.joinNames []) := .inl fresh.sourceName
      have plain : (Spot.path ⟨target, []⟩).fileName?.bind mergedName? = none := fresh.targetName
      rw [unmerged.finishDirectory, mergeDirectory_of_plain plain]
      exact ⟨past, view, together, parent⟩
  | append_singleton front name =>
      have named : ∀ root : Path, (Spot.path ⟨root, front ++ [name]⟩).fileName? = some name :=
        fun root => @Spot.fileName?_child ⟨root, front⟩ name valid
      have strict : front ++ [name] ≠ [] := by simp
      cases marked : mergedName? name with
      | none =>
          have unmerged : neverMerged (Spot.path ⟨source, front ++ [name]⟩)
              (target.joinNames (front ++ [name])) := by
            left
            rw [named, Option.bind_some, marked]
          have plain : (Spot.path ⟨target, front ++ [name]⟩).fileName?.bind mergedName? = none := by
            rw [named, Option.bind_some, marked]
          rw [unmerged.finishDirectory, mergeDirectory_of_plain plain]
          exact ⟨past, view, together, parent⟩
      | some base =>
          obtain ⟨rfl, nonempty⟩ := mergedName?_eq_some_iff.mp marked
          have readable : left.isDirectory (Spot.path ⟨source, front ++ [base ++ splitSuffix]⟩) = true :=
            (fresh.isDirectory_source together.planted.1 together.filling.top valid).mpr
              ⟨(able _ (by rw [directory]; simp)).1, directory⟩
          have isParts : isSplitDirectory left (Spot.path ⟨source, front ++ [base ++ splitSuffix]⟩) = true := by
            rw [isSplitDirectory, readable, named, Option.bind_some, marked]
            rfl
          have finished : finishDirectory .merge (Spot.path ⟨source, front ++ [base ++ splitSuffix]⟩)
              (target.joinNames (front ++ [base ++ splitSuffix])) left =
                discard (mergeDirectory (target.joinNames (front ++ [base ++ splitSuffix]))) left := by
            change (if isSplitDirectory left _ then _ else _ : Action Unit) left = _
            rw [isParts]
            rfl
          have above := parent strict
          rw [List.dropLast_concat] at above
          rw [finished, Spot.path_of_names valid strict]
          refine together_discard ((together.merge fresh nonempty above
            (beside front base rfl nonempty) inside valid).mono fun after later merged => ?_)
          obtain ⟨past, view, merged, stays⟩ := merged
          exact ⟨past, view, merged, fun _ => by rw [List.dropLast_concat, stays]⟩

end Lockstep

end CrossBuild.Artifacts
