/-
The parts of a file.

Cutting a content into parts and joining them gives the content back, and no two parts that two
digits can tell apart share a name. The names of directories of parts are those of files with the
suffix behind. No disk is involved here; what splitting and merging do to one is said elsewhere.
-/

import CrossBuild.Artifacts.Chunk
import CrossBuild.Proofs.Files.Spelling
import Std.Data.String.ToNat

namespace CrossBuild.Artifacts

open Files

/-! ### Contents -/

theorem joinParts_nil : joinParts [] = .empty := rfl

theorem joinParts_concat (parts : List ByteArray) (last : ByteArray) :
    joinParts (parts ++ [last]) = joinParts parts ++ last := by
  unfold joinParts
  rw [List.foldl_append, List.foldl_cons, List.foldl_nil]

/-- The first pieces of some length make up the front of a content. -/
private theorem joinParts_pieces (content : ByteArray) (bytes count : Nat) :
    joinParts ((List.range count).map fun index =>
      content.extract (index * bytes) ((index + 1) * bytes)) = content.extract 0 (count * bytes) := by
  induction count with
  | zero => rw [List.range_zero, List.map_nil, Nat.zero_mul, ByteArray.extract_same, joinParts_nil]
  | succ count ih =>
      rw [List.range_succ, List.map_append, List.map_singleton, joinParts_concat, ih]
      refine (ByteArray.extract_eq_extract_append_extract (count * bytes) (Nat.zero_le _) ?_).symm
      exact Nat.mul_le_mul_right bytes (Nat.le_succ count)

namespace Threshold

theorem length_parts (threshold : Threshold) (content : ByteArray) :
    (threshold.parts content).length = threshold.partCount content.size := by
  unfold parts
  rw [List.length_map, List.length_range]

/-- The parts reach to the end of the content. -/
theorem size_le_partCount_mul (threshold : Threshold) (size : Nat) :
    size ≤ threshold.partCount size * threshold.bytes := by
  have positive := threshold.positive
  have reached : size + threshold.bytes - 1 <
      ((size + threshold.bytes - 1) / threshold.bytes + 1) * threshold.bytes := by
    rw [Nat.mul_comm]
    exact Nat.lt_mul_div_succ _ positive
  unfold partCount
  rw [Nat.add_mul, Nat.one_mul] at reached
  omega

theorem partCount_pos (threshold : Threshold) {size : Nat} (large : threshold.bytes < size) :
    0 < threshold.partCount size := by
  have reached := threshold.size_le_partCount_mul size
  apply Nat.pos_of_ne_zero
  intro none_
  rw [none_, Nat.zero_mul] at reached
  omega

theorem joinParts_parts (threshold : Threshold) (content : ByteArray) :
    joinParts (threshold.parts content) = content := by
  have reached := threshold.size_le_partCount_mul content.size
  unfold parts
  rw [joinParts_pieces]
  calc content.extract 0 (threshold.partCount content.size * threshold.bytes)
      = content.extract 0 (max (threshold.partCount content.size * threshold.bytes)
          content.size) := by rw [Nat.max_eq_left reached]
    _ = content := ByteArray.extract_zero_max_size

end Threshold

/-! ### Names of parts -/

private theorem toList_twoDigits {value : Nat} (fits : value < maxParts) :
    (twoDigits value).toList = [(value / 10).digitChar, (value % 10).digitChar] := by
  unfold maxParts at fits
  unfold twoDigits
  split
  · rename_i single
    rw [String.toList_append, Nat.toString_eq_repr, Nat.toList_repr,
      Nat.toDigits_of_lt_base single, Nat.div_eq_of_lt single, Nat.mod_eq_of_lt single]
    rfl
  · rename_i double
    rw [Nat.toString_eq_repr, Nat.toList_repr, Nat.toDigits_of_base_le (by decide) (by omega),
      Nat.toDigits_of_lt_base (by omega)]
    rfl

/-- Digits are different characters. -/
private theorem digitChar_eq_iff {left right : Nat} (leftFits : left < 10) (rightFits : right < 10) :
    left.digitChar = right.digitChar ↔ left = right := by
  constructor
  · intro same
    have values := congrArg Char.toNat same
    rw [Nat.toNat_digitChar_of_lt_ten leftFits, Nat.toNat_digitChar_of_lt_ten rightFits] at values
    omega
  · rintro rfl
    rfl

theorem toList_partName {index : Nat} (fits : index < maxParts) : (partName index).toList =
    ['x', 'x', '.', (index / 10).digitChar, (index % 10).digitChar] := by
  unfold partName
  rw [String.toList_append, toList_twoDigits fits]
  rfl

theorem isEntryName_partName (index : Nat) : isEntryName (partName index) = true := by
  have start : ∃ digits, (partName index).toList = 'x' :: digits ∧
      ∀ char ∈ digits, char = 'x' ∨ char = '.' ∨ char.isDigit = true := by
    unfold partName twoDigits
    rw [String.toList_append, Nat.toString_eq_repr]
    have digits : ∀ char ∈ index.repr.toList, char.isDigit = true := by
      intro char member
      rw [Nat.toList_repr] at member
      exact Nat.isDigit_of_mem_toDigits (by decide) (by decide) member
    split
    · refine ⟨['x', '.', '0'] ++ index.repr.toList, by rw [String.toList_append]; rfl, ?_⟩
      intro char member
      rcases List.mem_append.mp member with front | digit
      · simp only [List.mem_cons, List.not_mem_nil, or_false] at front
        rcases front with rfl | rfl | rfl <;> decide
      · exact .inr (.inr (digits char digit))
    · refine ⟨['x', '.'] ++ index.repr.toList, rfl, ?_⟩
      intro char member
      rcases List.mem_append.mp member with front | digit
      · simp only [List.mem_cons, List.not_mem_nil, or_false] at front
        rcases front with rfl | rfl <;> decide
      · exact .inr (.inr (digits char digit))
  obtain ⟨digits, chars, kinds⟩ := start
  have starts : ∀ text : String, text.toList.head? ≠ some 'x' → partName index ≠ text := by
    intro text first same
    rw [← same, chars] at first
    exact first rfl
  have absent : ∀ char, char ≠ 'x' → char ≠ '.' → char.isDigit = false →
      char ∉ (partName index).toList := by
    intro char other dot digit member
    rw [chars] at member
    rcases List.mem_cons.mp member with same | member
    · exact other same
    · rcases kinds char member with same | same | same
      · exact other same
      · exact dot same
      · rw [digit] at same
        cases same
  exact isEntryName_iff.mpr ⟨starts _ (by decide), starts _ (by decide), starts _ (by decide),
    absent '/' (by decide) (by decide) (by decide), absent _ (by decide) (by decide) (by decide)⟩

/-- The names of parts that two digits can tell apart are different. -/
theorem partName_inj {left right : Nat} (leftFits : left < maxParts) (rightFits : right < maxParts)
    (same : partName left = partName right) : left = right := by
  have chars := congrArg String.toList same
  rw [toList_partName leftFits, toList_partName rightFits] at chars
  unfold maxParts at leftFits rightFits
  simp only [List.cons.injEq, true_and, and_true] at chars
  obtain ⟨tens, ones⟩ := chars
  rw [digitChar_eq_iff (by omega) (by omega)] at tens ones
  omega

theorem partName_ne_scriptName {index : Nat} (fits : index < maxParts) :
    partName index ≠ scriptName := by
  intro same
  have first := congrArg (fun text => text.toList.head?) same
  simp [toList_partName fits, scriptName] at first

/-! ### Names of directories of parts -/

theorem dropEnding?_eq_some_iff {ending text base : String} :
    Text.dropEnding? ending text = some base ↔ text = base ++ ending := by
  unfold Text.dropEnding?
  simp only [← String.toList_inj, String.toList_append]
  constructor
  · intro found
    split at found
    · rename_i ends
      rw [Option.some.injEq, ← String.toList_inj, String.toList_ofList] at found
      have whole := List.take_append_drop (text.toList.length - ending.toList.length) text.toList
      rw [found, ends] at whole
      exact whole.symm
    · cases found
  · intro whole
    rw [whole, List.length_append, Nat.add_sub_cancel, List.drop_left, List.take_left, if_pos rfl,
      Option.some.injEq, String.ofList_toList]

theorem mergedName?_eq_some_iff {name base : String} :
    mergedName? name = some base ↔ name = base ++ splitSuffix ∧ base ≠ "" := by
  unfold mergedName?
  simp [Option.filter_eq_some_iff, dropEnding?_eq_some_iff]

theorem mergedName?_append_splitSuffix {base : String} (some : base ≠ "") :
    mergedName? (base ++ splitSuffix) = .some base :=
  mergedName?_eq_some_iff.mpr ⟨rfl, some⟩

theorem mergedName?_of_endsWith {name : String} (plain : Text.endsWith splitSuffix name = false) :
    mergedName? name = none := by
  unfold Text.endsWith at plain
  unfold mergedName?
  rw [Option.isSome_eq_false_iff, Option.isNone_iff_eq_none] at plain
  rw [plain, Option.filter_none]

theorem endsWith_append (ending base : String) : Text.endsWith ending (base ++ ending) = true := by
  unfold Text.endsWith
  rw [dropEnding?_eq_some_iff.mpr rfl, Option.isSome_some]

theorem append_splitSuffix_ne (name : String) : name ++ splitSuffix ≠ name := by
  intro same
  have lengths := congrArg (fun text => text.toList.length) same
  simp [splitSuffix] at lengths

/-- No text shorter than the suffix ends with it. -/
theorem append_splitSuffix_ne_of_length_lt {base text : String}
    (short : text.toList.length < splitSuffix.toList.length) : base ++ splitSuffix ≠ text := by
  intro same
  have lengths := congrArg (fun other => other.toList.length) same
  simp only [String.toList_append, List.length_append] at lengths
  omega

theorem isEntryName_append_splitSuffix {base : String} (valid : isEntryName base = true) :
    isEntryName (base ++ splitSuffix) = true := by
  obtain ⟨-, -, -, noSlash, noNull⟩ := isEntryName_iff.mp valid
  refine isEntryName_iff.mpr ⟨append_splitSuffix_ne_of_length_lt (by decide),
    append_splitSuffix_ne_of_length_lt (by decide), append_splitSuffix_ne_of_length_lt (by decide),
    ?_, ?_⟩
  · rw [String.toList_append, List.mem_append, not_or]
    exact ⟨noSlash, by decide⟩
  · rw [String.toList_append, List.mem_append, not_or]
    exact ⟨noNull, by decide⟩

/-- The name of a file that a directory of parts stands for is a name, but for a dot or two. -/
theorem isEntryName_of_append_splitSuffix {base : String} (some : base ≠ "")
    (valid : isEntryName (base ++ splitSuffix) = true) :
    isEntryName base = true ∨ base = "." ∨ base = ".." := by
  obtain ⟨-, -, -, noSlash, noNull⟩ := isEntryName_iff.mp valid
  rw [String.toList_append, List.mem_append, not_or] at noSlash noNull
  by_cases dot : base = "."
  · exact .inr (.inl dot)
  · by_cases dots : base = ".."
    · exact .inr (.inr dots)
    · exact .inl (isEntryName_iff.mpr ⟨some, dot, dots, noSlash.1, noNull.1⟩)

/-! ### What a directory of parts holds -/

/-- What stands at a place in the directory of parts of a file. -/
def partEntryAt? (threshold : Threshold) (name : String) (content : ByteArray) :
    Location → Option Entry
  | [] => some .directory
  | [entry] =>
      if entry = scriptName then some (.file (reassembleScript name).toUTF8)
      else
        let parts := threshold.parts content
        ((List.range parts.length).find? fun index => partName index = entry).bind fun index =>
          parts[index]?.map Entry.file
  | _ => none

section PartEntry

variable {threshold : Threshold} {name : String} {content : ByteArray}

theorem partEntryAt?_script : partEntryAt? threshold name content [scriptName] =
    some (.file (reassembleScript name).toUTF8) := by
  rw [partEntryAt?, if_pos rfl]

theorem partEntryAt?_part {index : Nat} (fits : (threshold.parts content).length ≤ maxParts)
    (within : index < (threshold.parts content).length) :
    partEntryAt? threshold name content [partName index] =
      some (.file (threshold.parts content)[index]) := by
  have first : (List.range (threshold.parts content).length).find?
      (fun other => decide (partName other = partName index)) = some index := by
    rw [List.find?_range_eq_some]
    refine ⟨by simp, List.mem_range.mpr within, ?_⟩
    intro earlier before
    have different : partName earlier ≠ partName index := fun same =>
      absurd (partName_inj (by omega) (by omega) same) (by omega)
    simpa using different
  rw [partEntryAt?, if_neg (partName_ne_scriptName (by omega))]
  simp only [first, Option.bind_some, List.getElem?_eq_getElem within, Option.map_some]

theorem partEntryAt?_other {entry : String} (noScript : entry ≠ scriptName)
    (noPart : ∀ index < (threshold.parts content).length, partName index ≠ entry) :
    partEntryAt? threshold name content [entry] = none := by
  have absent : (List.range (threshold.parts content).length).find?
      (fun index => decide (partName index = entry)) = none := by
    rw [List.find?_eq_none]
    intro index member
    simpa using noPart index (List.mem_range.mp member)
  rw [partEntryAt?, if_neg noScript]
  simp only [absent, Option.bind_none]

/-- The names in a directory of parts are those of the script and of the parts. -/
theorem partEntryAt?_eq_some {entry : String} {found : Entry}
    (there : partEntryAt? threshold name content [entry] = some found) :
    entry = scriptName ∧ found = .file (reassembleScript name).toUTF8 ∨
      ∃ index, ∃ within : index < (threshold.parts content).length,
        entry = partName index ∧ found = .file (threshold.parts content)[index] := by
  rw [partEntryAt?] at there
  split at there
  · rename_i script
    rw [Option.some.injEq] at there
    exact .inl ⟨script, there.symm⟩
  · simp only [Option.bind_eq_some_iff, Option.map_eq_some_iff] at there
    obtain ⟨index, named, part, stored, rfl⟩ := there
    have same := List.find?_some named
    rw [decide_eq_true_eq] at same
    obtain ⟨within, isPart⟩ := List.getElem?_eq_some_iff.mp stored
    exact .inr ⟨index, within, same.symm, by rw [isPart]⟩

end PartEntry

end CrossBuild.Artifacts
