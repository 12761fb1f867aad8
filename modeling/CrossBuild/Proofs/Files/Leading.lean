/-
The first pieces of a path.

Where a path is made from the first pieces of another one, those at the end that do not count are
left out. The parent of a path is of this kind, and so is the path that a new last name is put
behind. Both keep the components and start with the same text. No disk is involved.
-/

import CrossBuild.Proofs.Files.Spelling

namespace CrossBuild.Text

private theorem intercalate_cons (char : Char) (piece : List Char) (others : List String) :
    "/".intercalate (String.ofList (char :: piece) :: others) =
      String.ofList [char] ++ "/".intercalate (String.ofList piece :: others) := by
  have front : String.ofList (char :: piece) = String.ofList [char] ++ String.ofList piece := by
    rw [← String.ofList_append, List.singleton_append]
  cases others with
  | nil => rw [String.intercalate_singleton, String.intercalate_singleton, front]
  | cons next later =>
      rw [String.intercalate_cons_cons, String.intercalate_cons_cons, front]
      simp only [String.append_assoc]

theorem intercalate_split (text : String) : "/".intercalate (split '/' text) = text := by
  have joined : ∀ chars, "/".intercalate ((splitChars '/' chars).map String.ofList) =
      String.ofList chars := by
    intro chars
    induction chars with
    | nil => rfl
    | cons char rest ih =>
        obtain ⟨piece, pieces, cut⟩ := List.exists_cons_of_ne_nil (splitChars_ne_nil '/' rest)
        have whole : String.ofList (char :: rest) = String.ofList [char] ++ String.ofList rest := by
          rw [← String.ofList_append, List.singleton_append]
        rw [whole, ← ih]
        by_cases slash : char = '/'
        · rw [splitChars, if_pos slash, cut, slash, List.map_cons, List.map_cons,
            String.intercalate_cons_cons]
          exact congrArg (· ++ _) (String.empty_append (s := "/"))
        · rw [splitChars, if_neg slash, cut]
          exact intercalate_cons char piece _
  unfold split
  rw [joined, String.ofList_toList]

end CrossBuild.Text

namespace CrossBuild.Files.Path

theorem ofSegments_segments (path : Path) : ofSegments path.isAbsolute path.segments = path := by
  have whole := Text.intercalate_split path.text
  have spelled : (if path.isAbsolute then "/" else "") ++ "/".intercalate path.segments =
      path.text := by
    cases absolute : path.isAbsolute with
    | true =>
        obtain ⟨cut, some⟩ := split_of_isAbsolute absolute
        obtain ⟨first, others, pieces⟩ := List.exists_cons_of_ne_nil some
        rw [cut, pieces, String.intercalate_cons_cons, String.empty_append] at whole
        rw [pieces, ← whole]
        rfl
    | false =>
        have pieces : path.segments = Text.split '/' path.text := by
          unfold segments
          rw [absolute]
          rfl
        rw [pieces, whole]
        exact String.empty_append
  exact congrArg Path.mk spelled

theorem segments_of_noSlash {text : String} (noSlash : '/' ∉ text.toList) :
    isAbsolute ⟨text⟩ = false ∧ segments ⟨text⟩ = [text] := by
  have relative : isAbsolute ⟨text⟩ = false :=
    Bool.eq_false_iff.mpr fun absolute => noSlash (List.mem_of_head? (isAbsolute_iff.mp absolute))
  refine ⟨relative, ?_⟩
  unfold segments
  rw [relative]
  exact Text.split_of_not_mem noSlash

theorem exists_eq_joinName {path : Path} {front : List String} {last : String}
    (whole : path.segments = front ++ [last]) (valid : isEntryName last = true) :
    ∃ directory : Path, path = directory.joinName last := by
  have relative : Path.isAbsolute ⟨last⟩ = false :=
    (segments_of_noSlash (isEntryName_iff.mp valid).2.2.2.1).1
  have closed : ∀ text : String, text.toList.getLast?.all (fun char => char = '/') = true →
      (⟨text⟩ : Path).joinName last = ⟨text ++ last⟩ := by
    intro text ends
    unfold joinName join
    rw [relative]
    simp only [Bool.false_eq_true, if_false]
    rw [if_pos ends]
  have own := ofSegments_segments path
  rw [whole] at own
  unfold ofSegments at own
  cases front with
  | nil =>
      refine ⟨⟨if path.isAbsolute then "/" else ""⟩, ?_⟩
      rw [closed _ (by cases path.isAbsolute <;> rfl)]
      rw [List.nil_append, String.intercalate_singleton] at own
      exact own.symm
  | cons first others =>
      refine ⟨⟨(if path.isAbsolute then "/" else "") ++ "/".intercalate (first :: others) ++ "/"⟩, ?_⟩
      rw [closed _ (by simp [String.toList_append])]
      rw [String.intercalate_append_of_ne_nil (by simp) (by simp), String.intercalate_singleton,
        ← String.append_assoc, ← String.append_assoc] at own
      exact own.symm

/-! ### Pieces that count -/

theorem length_trimEnd_le (follows : Bool) (segments : List String) :
    (trimEnd follows segments).length ≤ segments.length := by
  obtain ⟨rest, whole, -⟩ := trimEnd_append_idle follows segments
  have lengths := congrArg List.length whole
  rw [List.length_append] at lengths
  omega

theorem trimEnd_trimEnd (follows : Bool) (segments : List String) :
    trimEnd follows (trimEnd follows segments) = trimEnd follows segments := by
  induction segments generalizing follows with
  | nil => rfl
  | cons segment rest ih =>
      have kept := ih true
      rw [trimEnd]
      cases found : trimEnd true rest with
      | nil =>
          simp only []
          split
          · rfl
          · rename_i counts
            simp only [trimEnd, if_neg counts]
      | cons first later =>
          rw [found] at kept
          simp only []
          rw [trimEnd, kept]

theorem getLast?_trimEnd (follows : Bool) (segments : List String) :
    (trimEnd follows segments).getLast? ≠ some "" := by
  intro blank
  obtain ⟨front, whole⟩ := List.getLast?_eq_some_iff.mp blank
  have again := trimEnd_trimEnd follows segments
  rw [whole, trimEnd_concat_blank] at again
  have lengths := length_trimEnd_le follows front
  rw [again, List.length_append, List.length_singleton] at lengths
  omega

/-- A dot at the start of a relative path is kept. -/
theorem head?_trimEnd (segments : List String) :
    (trimEnd false segments).head? = some "." ↔ segments.head? = some "." := by
  cases segments with
  | nil => rfl
  | cons segment rest =>
      rw [trimEnd]
      cases trimEnd true rest with
      | nil =>
          by_cases blank : segment = ""
          · simp [blank]
          · simp [blank]
      | cons first later => simp

/-! ### The first pieces -/

/-- The path of some of the first pieces of a path, without those at the end that do not count. -/
def leading (path : Path) (front : List String) : Path :=
  ofSegments path.isAbsolute (trimEnd path.isAbsolute front)

/-- The path has no pieces at its end that do not count, unless it has no others. -/
def isTidy (path : Path) : Prop :=
  path.segments = [""] ∨ path.trimmed = path.segments

section Leading

variable {path : Path} {front back : List String} (whole : path.segments = front ++ back)

include whole

theorem segments_leading : (path.leading front).isAbsolute = path.isAbsolute ∧
    (path.leading front).segments =
      if trimEnd path.isAbsolute front = [] then [""] else trimEnd path.isAbsolute front := by
  obtain ⟨rest, split, -⟩ := trimEnd_append_idle path.isAbsolute front
  have pieces : path.segments = trimEnd path.isAbsolute front ++ (rest ++ back) := by
    rw [whole, ← List.append_assoc, ← split]
  exact ofSegments_front pieces (trimEnd_ne_blank _ _)

theorem trimmed_leading : (path.leading front).trimmed = trimEnd path.isAbsolute front := by
  obtain ⟨absolute, pieces⟩ := segments_leading whole
  unfold trimmed
  rw [absolute, pieces]
  split
  · rename_i none
    rw [none]
    rfl
  · exact trimEnd_trimEnd _ _

theorem isTidy_leading : (path.leading front).isTidy := by
  obtain ⟨-, pieces⟩ := segments_leading whole
  unfold isTidy
  rw [trimmed_leading whole, pieces]
  split
  · exact .inl rfl
  · exact .inr rfl

theorem mem_segments_leading {segment : String}
    (member : segment ∈ (path.leading front).segments) :
    isIdle segment = true ∨ segment ∈ path.segments := by
  obtain ⟨rest, split, -⟩ := trimEnd_append_idle path.isAbsolute front
  rw [(segments_leading whole).2] at member
  split at member
  · rw [List.mem_singleton.mp member]
    exact .inl rfl
  · right
    rw [whole, split]
    exact List.mem_append_left _ (List.mem_append_left _ member)

theorem text_leading : ∃ rest, path.text = (path.leading front).text ++ rest := by
  obtain ⟨rest, split, -⟩ := trimEnd_append_idle path.isAbsolute front
  have own := congrArg Path.text (ofSegments_segments path)
  rw [whole] at own
  unfold leading
  generalize trimEnd path.isAbsolute front = kept at split ⊢
  rw [split, List.append_assoc] at own
  rw [← own]
  unfold ofSegments
  by_cases noneKept : kept = []
  · exact ⟨"/".intercalate (rest ++ back), by simp [noneKept]⟩
  · by_cases noneLeft : rest ++ back = []
    · exact ⟨"", by simp [noneLeft]⟩
    · refine ⟨"/" ++ "/".intercalate (rest ++ back), ?_⟩
      rw [String.intercalate_append_of_ne_nil noneKept noneLeft]
      simp only [String.append_assoc]

end Leading

theorem parent?_eq_some {path parent : Path} (found : path.parent? = some parent) :
    ∃ front back, path.segments = front ++ back ∧ parent = path.leading front := by
  unfold parent? at found
  obtain ⟨rest, whole, -⟩ := trimEnd_append_idle path.isAbsolute path.segments
  split at found
  · cases found
  · rw [Option.some.injEq] at found
    refine ⟨path.trimmed.dropLast, path.trimmed.drop (path.trimmed.length - 1) ++ rest, ?_, found.symm⟩
    rw [← List.append_assoc, List.dropLast_eq_take, List.take_append_drop]
    exact whole

theorem parent?_of_tidy {path : Path} (tidy : path.trimmed = path.segments) :
    path.parent? = some (path.leading path.segments.dropLast) := by
  obtain ⟨first, others, pieces⟩ := List.exists_cons_of_ne_nil (segments_ne_nil path)
  unfold parent?
  rw [tidy, pieces]
  rfl

section JoinName

variable (path : Path) {name : String} (valid : isEntryName name = true)

include valid

theorem trimmed_joinName : (path.joinName name).trimmed = (path.joinName name).segments := by
  obtain ⟨nonempty, dot, -⟩ := isEntryName_iff.mp valid
  unfold trimmed
  rw [segments_joinName path valid]
  exact trimEnd_eq_self (by simp [isIdle, nonempty, dot])

/-- The directory of a name behind a path is the same for all names. -/
theorem parent?_joinName : (path.joinName name).parent? = some (path.leading path.stem) := by
  have all : [name].all isEntryName = true := by simpa using valid
  rw [parent?_of_tidy (trimmed_joinName path valid), segments_joinName path valid,
    List.dropLast_concat]
  unfold leading
  rw [joinName_eq_joinNames, isAbsolute_joinNames all]

end JoinName

/-! ### Components -/

theorem componentOf?_of_idle {segment : String} (idle : isIdle segment = true) :
    componentOf? segment = none := by
  unfold isIdle at idle
  rw [componentOf?, if_pos idle]

/-- A dot counts where it is the first piece of a relative path. -/
theorem components_eq (path : Path) : path.components =
    (if path.isAbsolute then [.root] else if path.segments.head? = some "." then [.current] else []) ++
      path.segments.filterMap componentOf? := by
  unfold components
  split
  · rfl
  · split
    · rename_i pieces
      rw [pieces]
      rfl
    · rename_i noDot
      rw [if_neg, List.nil_append]
      intro dot
      obtain ⟨rest, pieces⟩ := List.head?_eq_some_iff.mp dot
      exact noDot rest pieces

/-- The components of the first pieces of a path. -/
def componentsOf (absolute : Bool) (segments : List String) : List Component :=
  (if absolute then [.root] else if segments.head? = some "." then [.current] else []) ++
    segments.filterMap componentOf?

theorem componentsOf_segments (path : Path) :
    componentsOf path.isAbsolute path.segments = path.components :=
  (components_eq path).symm

theorem componentsOf_concat (absolute : Bool) (front : List String) {last : String}
    (noDot : last ≠ ".") : componentsOf absolute (front ++ [last]) =
      componentsOf absolute front ++ (componentOf? last).toList := by
  have start : (front ++ [last]).head? = some "." ↔ front.head? = some "." := by
    cases front <;> simp [noDot]
  have behind : [last].filterMap componentOf? = (componentOf? last).toList := by
    cases found : componentOf? last with
    | none => rw [List.filterMap_cons_none found]; rfl
    | some component => rw [List.filterMap_cons_some found]; rfl
  unfold componentsOf
  rw [List.filterMap_append, behind, List.append_assoc]
  simp only [start]

theorem componentsOf_trimEnd (absolute : Bool) (segments : List String) :
    componentsOf absolute (trimEnd absolute segments) = componentsOf absolute segments := by
  obtain ⟨rest, whole, idle⟩ := trimEnd_append_idle absolute segments
  have silent : rest.filterMap componentOf? = [] :=
    List.filterMap_eq_nil_iff.mpr fun segment member => componentOf?_of_idle (idle segment member)
  have counted : (trimEnd absolute segments).filterMap componentOf? =
      segments.filterMap componentOf? := by
    conv_rhs => rw [whole, List.filterMap_append, silent, List.append_nil]
  unfold componentsOf
  rw [counted]
  cases absolute with
  | true => rfl
  | false => simp only [head?_trimEnd]

theorem componentsOf_trimmed (path : Path) :
    componentsOf path.isAbsolute path.trimmed = path.components :=
  (componentsOf_trimEnd path.isAbsolute path.segments).trans (componentsOf_segments path)

theorem componentsOf_stem (path : Path) :
    componentsOf path.isAbsolute path.stem = path.components := by
  rw [← componentsOf_segments]
  rcases path.segments_eq_stem with same | blank
  · rw [same]
  · rw [blank, componentsOf_concat _ _ (by decide)]
    exact (List.append_nil _).symm

theorem components_joinName (path : Path) {name : String} (noSlash : '/' ∉ name.toList)
    (noDot : name ≠ ".") :
    (path.joinName name).components = path.components ++ (componentOf? name).toList := by
  obtain ⟨relative, single⟩ := segments_of_noSlash noSlash
  rw [← componentsOf_segments, joinName, segments_join relative, isAbsolute_join relative, single,
    componentsOf_concat _ _ noDot, componentsOf_stem]

theorem getLast?_segments_joinName (path : Path) {name : String} (noSlash : '/' ∉ name.toList) :
    (path.joinName name).segments.getLast? = some name := by
  obtain ⟨relative, single⟩ := segments_of_noSlash noSlash
  rw [joinName, segments_join relative, single, List.getLast?_concat]

theorem components_leading {path : Path} {front back : List String}
    (whole : path.segments = front ++ back) :
    (path.leading front).components = componentsOf path.isAbsolute front := by
  obtain ⟨absolute, pieces⟩ := segments_leading whole
  rw [← componentsOf_segments, absolute, pieces, ← componentsOf_trimEnd _ front]
  split
  · rename_i none
    rw [none]
    exact (componentsOf_concat path.isAbsolute [] (by decide)).trans (List.append_nil _)
  · rfl

/-! ### Tidied paths -/

/-- The path without the pieces at its end that do not count. -/
def tidied (path : Path) : Path :=
  path.leading path.stem

section Tidied

variable (path : Path)

theorem exists_segments_eq_stem : ∃ back, path.segments = path.stem ++ back := by
  rcases path.segments_eq_stem with whole | whole
  · exact ⟨[], by rw [whole, List.append_nil]⟩
  · exact ⟨_, whole⟩

theorem isAbsolute_tidied : path.tidied.isAbsolute = path.isAbsolute := by
  obtain ⟨_, whole⟩ := path.exists_segments_eq_stem
  exact (segments_leading whole).1

theorem stem_tidied : path.tidied.stem = trimEnd path.isAbsolute path.stem := by
  obtain ⟨_, whole⟩ := path.exists_segments_eq_stem
  by_cases none : trimEnd path.isAbsolute path.stem = []
  · unfold tidied leading
    rw [none]
    cases path.isAbsolute <;> decide
  · have pieces := (segments_leading whole).2
    rw [if_neg none] at pieces
    rcases path.tidied.segments_eq_stem with same | blank
    · rw [← same]
      exact pieces
    · have last : (trimEnd path.isAbsolute path.stem).getLast? = some "" := by
        rw [← pieces]
        change path.tidied.segments.getLast? = _
        rw [blank, List.getLast?_concat]
      exact absurd last (getLast?_trimEnd _ _)

theorem tidied_tidied : path.tidied.tidied = path.tidied := by
  rw [tidied, leading, isAbsolute_tidied, stem_tidied, trimEnd_trimEnd]
  rfl

theorem withFileName_eq_tidied {name : String} (other : String) (valid : isEntryName name = true) :
    (path.joinName name).withFileName other = path.tidied.joinName other := by
  unfold withFileName
  rw [fileName?_joinName path valid, parent?_joinName path valid]
  rfl

theorem components_tidied : path.tidied.components = path.components := by
  obtain ⟨_, whole⟩ := path.exists_segments_eq_stem
  exact (components_leading whole).trans path.componentsOf_stem

theorem components_tidied_joinName {name : String} (valid : isEntryName name = true) :
    (path.tidied.joinName name).components = (path.joinName name).components := by
  obtain ⟨-, noDot, -, noSlash, -⟩ := isEntryName_iff.mp valid
  rw [components_joinName _ noSlash noDot, components_joinName _ noSlash noDot, components_tidied]

end Tidied

/-! ### Last names -/

/-- A piece behind others, with a slash between. -/
private theorem intercalate_concat (front : List String) (last : String) :
    "/".intercalate (front ++ [last]) =
      (if front = [] then "" else "/".intercalate front ++ "/") ++ last := by
  split
  · rename_i none
    rw [none, List.nil_append, String.intercalate_singleton, String.empty_append]
  · rename_i some
    rw [String.intercalate_append_of_ne_nil some (by simp), String.intercalate_singleton]

/-- A name behind a tidied path leaves out a part of the text before it. -/
theorem text_tidied_joinName (path : Path) : ∃ front middle, ∀ name : String,
    '/' ∉ name.toList → (path.joinName name).text = front ++ middle ++ name ∧
      (path.tidied.joinName name).text = front ++ name := by
  have spelled : ∀ (base : Path) (name : String), '/' ∉ name.toList → (base.joinName name).text =
      (if base.isAbsolute then "/" else "") ++
        ((if base.stem = [] then "" else "/".intercalate base.stem ++ "/") ++ name) := by
    intro base name noSlash
    obtain ⟨relative, single⟩ := segments_of_noSlash noSlash
    have own := congrArg Path.text (ofSegments_segments (base.joinName name))
    rw [joinName, segments_join relative, isAbsolute_join relative, single] at own
    rw [joinName, ← own, ← intercalate_concat]
    rfl
  obtain ⟨rest, whole, -⟩ := trimEnd_append_idle path.isAbsolute path.stem
  refine ⟨(if path.isAbsolute then "/" else "") ++
      (if path.tidied.stem = [] then "" else "/".intercalate path.tidied.stem ++ "/"),
    if rest = [] then "" else "/".intercalate rest ++ "/", fun name noSlash => ?_⟩
  rw [spelled _ _ noSlash, spelled _ _ noSlash, isAbsolute_tidied]
  rw [← stem_tidied] at whole
  refine ⟨?_, by rw [String.append_assoc]⟩
  rw [whole]
  by_cases noneKept : path.tidied.stem = []
  · simp [noneKept, String.append_assoc]
  · by_cases noneLeft : rest = []
    · simp [noneKept, noneLeft, String.append_assoc]
    · have some : path.tidied.stem ++ rest ≠ [] := fun none =>
        noneKept (List.append_eq_nil_iff.mp none).1
      rw [if_neg some, if_neg noneKept, if_neg noneLeft,
        String.intercalate_append_of_ne_nil noneKept noneLeft]
      simp only [String.append_assoc]

/-- A path with a last name starts with the path of its directory and the name. -/
theorem exists_joinName_of_fileName? {path : Path} {name : String}
    (own : path.fileName? = some name) (valid : isEntryName name = true) :
    ∃ (front rest : List String) (directory : Path), path.segments = (front ++ [name]) ++ rest ∧
      (∀ segment ∈ rest, isIdle segment = true) ∧
      path.leading (front ++ [name]) = directory.joinName name ∧
      ∀ other, path.withFileName other = directory.tidied.joinName other := by
  have counts : isIdle name = false := by
    obtain ⟨nonempty, dot, -⟩ := isEntryName_iff.mp valid
    simp [isIdle, nonempty, dot]
  obtain ⟨last, -⟩ := Option.filter_eq_some_iff.mp own
  obtain ⟨front, kept⟩ := List.getLast?_eq_some_iff.mp last
  obtain ⟨rest, whole, idle⟩ := trimEnd_append_idle path.isAbsolute path.segments
  have pieces : path.segments = (front ++ [name]) ++ rest := by
    rw [← kept]
    exact whole
  have trimmed := trimmed_leading pieces
  obtain ⟨absolute, shortPieces⟩ := segments_leading pieces
  rw [trimEnd_eq_self counts] at trimmed shortPieces
  rw [if_neg (by simp)] at shortPieces
  obtain ⟨directory, short⟩ := exists_eq_joinName shortPieces valid
  refine ⟨front, rest, directory, pieces, idle, short, fun other => ?_⟩
  have sameName : (path.leading (front ++ [name])).fileName? = some name := by
    rw [short, fileName?_joinName directory valid]
  have parents : ∃ parent, path.parent? = some parent ∧
      (path.leading (front ++ [name])).parent? = some parent := by
    obtain ⟨first, others, some⟩ := List.exists_cons_of_ne_nil (List.concat_ne_nil name front)
    unfold parent?
    rw [trimmed, kept, absolute, some]
    exact ⟨_, rfl, rfl⟩
  obtain ⟨parent, own', short'⟩ := parents
  rw [← directory.withFileName_eq_tidied other valid, ← short]
  unfold withFileName
  rw [own, own', sameName, short']
  rfl

end CrossBuild.Files.Path
