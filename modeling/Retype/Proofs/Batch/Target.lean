import Retype.Batch.File
import Retype.Discovery.Basic
import Retype.Proofs.Source.Files
/-!
# Where files are written to

A rewritten file is written beside its source, under the same stem. Sources
whose stems differ, and that do not have the suffix of a rewritten file, do
not get into each other's way (`Apart`): then each has a place of its own,
which is the place of no source. The sources of one repository are so if all
of them have the same suffix (`apart_of_found`).
-/

namespace Retype

namespace Batch

/-- The suffixes of rewritten files. -/
def suffixOf (hasJsx : Bool) : String := if hasJsx then ".tsx" else ".ts"

theorem isSuffix_suffixOf (hasJsx : Bool) : Path.IsSuffix (suffixOf hasJsx) := by
  cases hasJsx with
  | false => exact Path.isSuffix_ts
  | true => exact Path.isSuffix_tsx

variable {path target : String} {hasJsx : Bool}

/-- The target is what the source is with another suffix. -/
theorem parse_target (h : targetPath? path hasJsx = some target) :
    (Path.parse path).withSuffix? (suffixOf hasJsx) = some (Path.parse target) := by
  obtain ⟨q, hq, rfl⟩ := Option.map_eq_some_iff.1 h
  have hq : (Path.parse path).withSuffix? (suffixOf hasJsx) = some q := hq
  rw [Path.parse_toText
    (Path.proper_withSuffix? (isSuffix_suffixOf hasJsx) hq (Path.proper_parse path))]
  exact hq

theorem isNormal_target (h : targetPath? path hasJsx = some target)
    (hpath : (Path.parse path).IsNormal) : (Path.parse target).IsNormal :=
  Path.isNormal_withSuffix? (isSuffix_suffixOf hasJsx) (parse_target h)
    (Path.proper_parse path) hpath

/-! ## Sources that stand apart -/

/-- **Sources that stand apart**: no two of them differ in their suffixes only,
and none has the suffix of a rewritten file. -/
structure Apart (paths : List String) : Prop where
  normal : ∀ path ∈ paths, (Path.parse path).IsNormal
  unwritten : ∀ path ∈ paths, ∀ hasJsx, (Path.parse path).suffix ≠ suffixOf hasJsx
  stems : ∀ path ∈ paths, ∀ other ∈ paths,
    (Path.parse path).stem.parts = (Path.parse other).stem.parts → path = other

namespace Apart

variable {paths : List String} (h : Apart paths)
include h

/-- **No source is written over.** -/
theorem ne_source (htarget : targetPath? path hasJsx = some target) {source : String}
    (hsource : source ∈ paths) : (Path.parse source).parts ≠ (Path.parse target).parts := by
  intro hparts
  have hsuffix := Path.suffix_withSuffix? (isSuffix_suffixOf hasJsx) (parse_target htarget)
  rw [Path.suffix, Path.name, ← hparts] at hsuffix
  exact h.unwritten source hsource hasJsx hsuffix

/-- **No two sources are written to one place.** -/
theorem eq_of_target (hpath : path ∈ paths) (htarget : targetPath? path hasJsx = some target)
    {path' target' : String} {hasJsx' : Bool} (hpath' : path' ∈ paths)
    (htarget' : targetPath? path' hasJsx' = some target')
    (hparts : (Path.parse target).parts = (Path.parse target').parts) : path = path' := by
  refine h.stems path hpath path' hpath' ?_
  rw [← Path.stem_withSuffix? (isSuffix_suffixOf hasJsx) (parse_target htarget),
    ← Path.stem_withSuffix? (isSuffix_suffixOf hasJsx') (parse_target htarget'),
    Path.stem, Path.stem, Path.name, Path.name, hparts]

end Apart

end Batch

/-! ## The sources of a repository -/

namespace Discovery

/-- **A path that is found** in a repository: the listing shows a file below the
root by its path from there, and it is wanted. -/
def IsFound (root : String) (extensions ignoredDirs : List String) (path : String) : Prop :=
  ∃ entry, (Path.parse entry).isAbsolute = false ∧ (Path.parse entry).parts ≠ [] ∧
    ".." ∉ (Path.parse entry).parts ∧ isWanted extensions ignoredDirs entry = true ∧
    path = pathIn root entry

variable {root : String} {extensions ignoredDirs : List String} {path : String}

namespace IsFound

theorem parse_eq (h : IsFound root extensions ignoredDirs path) : ∃ entry,
    (Path.parse entry).isAbsolute = false ∧ (Path.parse entry).parts ≠ [] ∧
      Path.parse path = (Path.parse root).join (Path.parse entry) ∧
      path = (Path.parse path).toText := by
  obtain ⟨entry, hrelative, hne, -, -, rfl⟩ := h
  have hparse := Path.parse_toText
    (Path.proper_join (Path.proper_parse root) (Path.proper_parse entry))
  refine ⟨entry, hrelative, hne, hparse, ?_⟩
  rw [pathIn, hparse]

theorem isNormal (h : IsFound root extensions ignoredDirs path)
    (hroot : (Path.parse root).IsNormal) :
    (Path.parse path).IsNormal := by
  obtain ⟨entry, hrelative, -, hup, -, rfl⟩ := h
  rw [pathIn,
    Path.parse_toText (Path.proper_join (Path.proper_parse root) (Path.proper_parse entry))]
  exact Path.isNormal_join hroot hrelative hup

theorem suffix_mem (h : IsFound root extensions ignoredDirs path) :
    (Path.parse path).suffix ∈ extensions := by
  obtain ⟨entry, hrelative, hne, -, hwanted, rfl⟩ := h
  rw [pathIn,
    Path.parse_toText (Path.proper_join (Path.proper_parse root) (Path.proper_parse entry)),
    Path.suffix, Path.name_join hrelative hne]
  rw [isWanted, Bool.and_eq_true] at hwanted
  exact List.contains_iff_mem.1 hwanted.1

/-- A path that is found is known by its stem and its suffix. -/
theorem eq_of_stem_eq (h : IsFound root extensions ignoredDirs path) {other : String}
    (hother : IsFound root extensions ignoredDirs other)
    (hstem : (Path.parse path).stem.parts = (Path.parse other).stem.parts)
    (hsuffix : (Path.parse path).suffix = (Path.parse other).suffix) : path = other := by
  obtain ⟨entry, hrelative, hne, hparse, htext⟩ := h.parse_eq
  obtain ⟨entry', hrelative', hne', hparse', htext'⟩ := hother.parse_eq
  rw [Path.join_of_relative hrelative] at hparse
  rw [Path.join_of_relative hrelative'] at hparse'
  have heq : Path.parse path = Path.parse other := by
    refine Path.eq_of_stem_eq ?_ ?_ ?_ hsuffix
    · rw [hparse]
      exact fun hnil => hne (List.append_eq_nil_iff.1 hnil).2
    · rw [hparse']
      exact fun hnil => hne' (List.append_eq_nil_iff.1 hnil).2
    · refine Path.eq_of_parts_eq ?_ hstem
      rw [Path.stem, Path.stem, hparse, hparse']
  rw [htext, htext', heq]

end IsFound

/-- **Found sources stand apart** if no suffix that is looked for is one of a
rewritten file, and no two of them have the same stem and different suffixes. -/
theorem apart_of_found {paths : List String} (hroot : (Path.parse root).IsNormal)
    (hfound : ∀ path ∈ paths, IsFound root extensions ignoredDirs path)
    (hsuffixes : ∀ hasJsx, Batch.suffixOf hasJsx ∉ extensions)
    (hstems : ∀ path ∈ paths, ∀ other ∈ paths,
      (Path.parse path).stem = (Path.parse other).stem →
        (Path.parse path).suffix = (Path.parse other).suffix) : Batch.Apart paths := by
  refine ⟨fun path hpath => (hfound path hpath).isNormal hroot, fun path hpath hasJsx hsuffix => ?_,
    fun path hpath other hother hstem => ?_⟩
  · exact hsuffixes hasJsx (hsuffix ▸ (hfound path hpath).suffix_mem)
  · refine (hfound path hpath).eq_of_stem_eq (hfound other hother) hstem ?_
    refine hstems path hpath other hother ?_
    obtain ⟨entry, hrelative, -, hparse, -⟩ := (hfound path hpath).parse_eq
    obtain ⟨entry', hrelative', -, hparse', -⟩ := (hfound other hother).parse_eq
    refine Path.eq_of_parts_eq ?_ hstem
    rw [Path.stem, Path.stem, hparse, hparse', Path.join_of_relative hrelative,
      Path.join_of_relative hrelative']

end Discovery

end Retype
