import Retype.Proofs.Report.Merge
import Retype.Report.Render
/-!
# The algebra of merging

Reports may be merged in any order and in any groups: merging the reports that
merging has made of groups is merging all of them at once (`merge_groups`),
so that merging is associative and normalises a report. `Gathers` says what a
merged report holds of the reports it is made of: all their paths and
locations, the sums of their counts, the union of their names.
-/

namespace Retype.Report

/-- Each alias has one count. -/
def CountsApart (r : Report) : Prop := (r.aliasUsage.map (·.1)).Nodup

/-! ## What a merged report holds -/

theorem files_merge (reports : List Report) (c : PathCategory) :
    (merge reports).files c = sortText (reports.flatMap (·.files c)) := rfl

theorem places_merge (reports : List Report) (c : PlaceCategory) :
    (merge reports).places c = sortLocations (reports.flatMap (·.places c)) := rfl

theorem utilityTypes_merge (reports : List Report) :
    (merge reports).utilityTypes = sortText (reports.flatMap (·.utilityTypes)).eraseDups := rfl

theorem mem_sortText_eraseDups {xs : List String} {x : String} :
    x ∈ sortText xs.eraseDups ↔ x ∈ xs := by
  rw [sortText, List.mem_mergeSort, List.mem_eraseDups]

theorem nodup_sortText_eraseDups (xs : List String) : (sortText xs.eraseDups).Nodup :=
  (List.mergeSort_perm ..).nodup_iff.2 (nodup_eraseDups xs)

theorem aliasNames_merge (reports : List Report) :
    (merge reports).aliasUsage.map (·.1) =
      sortText ((reports.flatMap (·.aliasUsage)).map (·.1)).eraseDups := by
  rw [merge, List.map_map]
  exact List.map_id _

theorem mem_aliasNames_merge {reports : List Report} {name : String} :
    name ∈ (merge reports).aliasUsage.map (·.1) ↔
      ∃ r ∈ reports, name ∈ r.aliasUsage.map (·.1) := by
  rw [aliasNames_merge, mem_sortText_eraseDups, List.map_flatMap, List.mem_flatMap]

theorem countsApart_merge (reports : List Report) : (merge reports).CountsApart := by
  rw [CountsApart, aliasNames_merge]
  exact nodup_sortText_eraseDups _

theorem mem_utilityTypes_merge {reports : List Report} {name : String} :
    name ∈ (merge reports).utilityTypes ↔ ∃ r ∈ reports, name ∈ r.utilityTypes := by
  rw [utilityTypes_merge, mem_sortText_eraseDups, List.mem_flatMap]

/-! ## Totals -/

theorem totalUsage_append (reports reports' : List Report) (name : String) :
    totalUsage (reports ++ reports') name = totalUsage reports name + totalUsage reports' name := by
  rw [totalUsage_eq, totalUsage_eq, totalUsage_eq, List.flatMap_append, List.filter_append,
    List.map_append, List.sum_append]

/-- A name that is not there has no entries. -/
theorem filter_eq_nil_of_not_mem {entries : List (String × Int)} {name : String}
    (h : name ∉ entries.map (·.1)) : entries.filter (·.1 = name) = [] := by
  refine List.filter_eq_nil_iff.2 fun entry hentry hname => h ?_
  exact List.mem_map.2 ⟨entry, hentry, of_decide_eq_true hname⟩

/-- What no report names counts nothing. -/
theorem totalUsage_eq_zero {reports : List Report} {name : String}
    (h : name ∉ (reports.flatMap (·.aliasUsage)).map (·.1)) : totalUsage reports name = 0 := by
  rw [totalUsage_eq, filter_eq_nil_of_not_mem h]
  rfl

/-- A merged report counts what it is made of. -/
theorem totalUsage_merge (reports : List Report) (name : String) :
    totalUsage [merge reports] name = totalUsage reports name := by
  rw [totalUsage_eq [merge reports], List.flatMap_singleton, merge,
    sum_entries (nodup_sortText_eraseDups _)]
  split
  next => rfl
  next h => exact (totalUsage_eq_zero (mt mem_sortText_eraseDups.2 h)).symm

/-- The entry that is found for an alias is all that counts for it. -/
theorem totalUsage_singleton {r : Report} (h : r.CountsApart) (name : String) :
    totalUsage [r] name = r.usageOf name := by
  rw [totalUsage_eq, List.flatMap_singleton, usageOf]
  rw [CountsApart] at h
  generalize r.aliasUsage = entries at h ⊢
  induction entries with
  | nil => rfl
  | cons entry rest ih =>
    obtain ⟨first, count⟩ := entry
    rw [List.map_cons, List.nodup_cons] at h
    by_cases hname : first = name
    · subst hname
      simp [filter_eq_nil_of_not_mem h.1]
    · have hne : ¬ name = first := fun heq => hname heq.symm
      simp [hname, List.lookup_cons, beq_eq_false_iff_ne.2 hne, ih h.2]

/-- Reports with one count for each alias count the sum of what each counts. -/
theorem totalUsage_eq_sum {reports : List Report} (h : ∀ r ∈ reports, r.CountsApart)
    (name : String) : totalUsage reports name = (reports.map (·.usageOf name)).sum := by
  induction reports with
  | nil => rfl
  | cons r reports ih =>
    rw [List.forall_mem_cons] at h
    rw [← List.singleton_append, totalUsage_append, totalUsage_singleton h.1, ih h.2,
      List.singleton_append, List.map_cons, List.sum_cons]

/-! ## Merging what was merged -/

/-- **Reports may be merged in groups first.** -/
theorem merge_groups (groups : List (List Report)) :
    merge (groups.map merge) = merge groups.flatten := by
  -- A merged report depends on its parts by five things only; a group differs from
  -- its report in their order, which none of the five shows.
  refine merge_congr (fun c => ?_) (fun c => ?_) (fun name => ?_) (fun name => ?_) fun name => ?_
  · rw [List.flatMap_map, ← List.flatMap_id, List.flatMap_assoc]
    exact List.Perm.flatMap_left _ fun _ _ => List.mergeSort_perm ..
  · rw [List.flatMap_map, ← List.flatMap_id, List.flatMap_assoc]
    exact List.Perm.flatMap_left _ fun _ _ => List.mergeSort_perm ..
  · simp only [List.map_flatMap, List.mem_flatMap, List.mem_map (f := merge),
      exists_exists_and_eq_and, mem_aliasNames_merge, List.mem_flatten]
    grind
  · induction groups with
    | nil => rfl
    | cons group groups ih =>
      rw [List.map_cons, ← List.singleton_append, totalUsage_append, totalUsage_merge, ih,
        List.flatten_cons, totalUsage_append]
  · simp only [List.mem_flatMap, List.mem_map, exists_exists_and_eq_and, mem_utilityTypes_merge,
      List.mem_flatten]
    grind

/-- What a report has gathered from several: each path and location as often as
all of them together, one count for each alias that any of them counts, which
is the sum of theirs, and each name that any of them has, once. -/
structure Gathers (reports : List Report) (r : Report) : Prop where
  files (c : PathCategory) (path : String) :
    (r.files c).count path = (reports.map fun part => (part.files c).count path).sum
  places (c : PlaceCategory) (location : Location) :
    (r.places c).count location = (reports.map fun part => (part.places c).count location).sum
  countsApart : r.CountsApart
  named (name : String) :
    name ∈ r.aliasUsage.map (·.1) ↔ ∃ part ∈ reports, name ∈ part.aliasUsage.map (·.1)
  usage (name : String) : r.usageOf name = (reports.map (·.usageOf name)).sum
  utilityTypes (name : String) :
    r.utilityTypes.count name = if ∃ part ∈ reports, name ∈ part.utilityTypes then 1 else 0

/-- **Nothing is lost, and nothing is invented.** -/
theorem gathers_merge {reports : List Report} (h : ∀ r ∈ reports, r.CountsApart) :
    Gathers reports (merge reports) where
  files c path := by
    rw [files_merge, sortText, (List.mergeSort_perm ..).count_eq, List.count_flatMap]
    rfl
  places c location := by
    rw [places_merge, sortLocations, (List.mergeSort_perm ..).count_eq, List.count_flatMap]
    rfl
  countsApart := countsApart_merge reports
  named _ := mem_aliasNames_merge
  usage name := by
    rw [← totalUsage_singleton (countsApart_merge reports), totalUsage_merge,
      totalUsage_eq_sum h]
  utilityTypes name := by
    rw [utilityTypes_merge, (nodup_sortText_eraseDups _).count, ← utilityTypes_merge]
    simp only [mem_utilityTypes_merge]

/-- **Merging is an algebra of bags.** The order of the reports does not show;
merging is associative, and it normalises what it has merged; and a merged
report has gathered its parts. -/
theorem merge_algebra :
    (∀ {reports reports' : List Report}, reports.Perm reports' → merge reports = merge reports') ∧
    (∀ reports reports' : List Report,
      merge [merge reports, merge reports'] = merge (reports ++ reports')) ∧
    (∀ reports : List Report, merge [merge reports] = merge reports) ∧
    ∀ {reports : List Report},
      (∀ r ∈ reports, r.CountsApart) → Gathers reports (merge reports) := by
  refine ⟨merge_perm, fun reports reports' => ?_, fun reports => ?_, gathers_merge⟩
  · have h := merge_groups [reports, reports']
    rwa [List.flatten_cons, List.flatten_singleton] at h
  · have h := merge_groups [reports]
    rwa [List.flatten_singleton] at h

/-- Two reports that share a file and an alias. -/
def sharingReports : List Report :=
  [{ Report.empty with files := fun _ => ["b.js", "a.js"], aliasUsage := [("FlowAnyObject", 2)] },
    { Report.empty with
      files := fun _ => ["a.js"], aliasUsage := [("FlowAnyFunction", 1), ("FlowAnyObject", 3)] }]

/-- The shared file stays twice, and the counts are added up. -/
theorem merge_algebra_sharing :
    (sharingReports.reverse.Perm sharingReports ∧ ∀ r ∈ sharingReports, r.CountsApart) ∧
      merge sharingReports.reverse = merge sharingReports ∧
      ((merge sharingReports).files .failedFiles).count "a.js" = 2 ∧
      (merge sharingReports).usageOf "FlowAnyObject" = 5 := by
  have happart : ∀ r ∈ sharingReports, r.CountsApart := by
    simp [sharingReports, CountsApart]
  have hperm : sharingReports.reverse.Perm sharingReports := List.reverse_perm _
  obtain ⟨hcomm, -, -, hgathers⟩ := merge_algebra
  have hall := hgathers happart
  exact ⟨⟨hperm, happart⟩, hcomm hperm, hall.files .failedFiles "a.js", hall.usage "FlowAnyObject"⟩

end Retype.Report
