import Mathlib
import Retype.Report.Basic
/-!
# A merged report does not show who reported

`Report.merge` sorts what it joins, so that the order of the reports does not
show (`merge_perm`), and neither does how the findings were shared out among
those who report: the merged report of several is that of one who has found
everything, in any order (`merge_ofFindings`).
-/

namespace Retype

/-! ## The orders of positions and locations -/

namespace Position

theorem le_iff {a b : Position} :
    a.le b ↔ a.line < b.line ∨ (a.line = b.line ∧ a.column ≤ b.column) := by
  simp [le]

theorem le_total (a b : Position) : a.le b ∨ b.le a := by
  rw [le_iff, le_iff]
  omega

theorem le_trans {a b c : Position} (hab : a.le b) (hbc : b.le c) : a.le c := by
  rw [le_iff] at *
  omega

theorem le_antisymm {a b : Position} (hab : a.le b) (hba : b.le a) : a = b := by
  rw [le_iff] at hab hba
  rcases a with ⟨line, column⟩
  rcases b with ⟨line', column'⟩
  simp only [mk.injEq] at *
  omega

end Position

namespace Location

theorem le_iff {a b : Location} :
    a.le b ↔ a.path < b.path ∨ (a.path = b.path ∧
      ((a.start ≠ b.start ∧ a.start.le b.start) ∨ (a.start = b.start ∧ a.stop.le b.stop))) := by
  simp [le]

theorem le_total (a b : Location) : a.le b ∨ b.le a := by
  rw [le_iff, le_iff]
  rcases lt_trichotomy a.path b.path with hpath | hpath | hpath
  · exact .inl (.inl hpath)
  · by_cases hstart : a.start = b.start
    · rcases Position.le_total a.stop b.stop with hstop | hstop
      · exact .inl (.inr ⟨hpath, .inr ⟨hstart, hstop⟩⟩)
      · exact .inr (.inr ⟨hpath.symm, .inr ⟨hstart.symm, hstop⟩⟩)
    · rcases Position.le_total a.start b.start with hle | hle
      · exact .inl (.inr ⟨hpath, .inl ⟨hstart, hle⟩⟩)
      · exact .inr (.inr ⟨hpath.symm, .inl ⟨fun h => hstart h.symm, hle⟩⟩)
  · exact .inr (.inl hpath)

theorem le_trans {a b c : Location} (hab : a.le b) (hbc : b.le c) : a.le c := by
  rw [le_iff] at *
  rcases hab with hab | ⟨hab, hspan⟩
  · rcases hbc with hbc | ⟨hbc, -⟩
    · exact .inl (hab.trans hbc)
    · exact .inl (hbc ▸ hab)
  · rcases hbc with hbc | ⟨hbc, hspan'⟩
    · exact .inl (hab ▸ hbc)
    · refine .inr ⟨hab.trans hbc, ?_⟩
      rcases hspan with ⟨hne, hle⟩ | ⟨heq, hle⟩
      · rcases hspan' with ⟨hne', hle'⟩ | ⟨heq', -⟩
        · -- both spans begin later, so the first and the last differ
          refine .inl ⟨fun h => hne (Position.le_antisymm hle (h ▸ hle')), ?_⟩
          exact Position.le_trans hle hle'
        · exact .inl ⟨heq' ▸ hne, heq' ▸ hle⟩
      · rcases hspan' with ⟨hne', hle'⟩ | ⟨heq', hle'⟩
        · exact .inl ⟨heq ▸ hne', heq ▸ hle'⟩
        · exact .inr ⟨heq.trans heq', Position.le_trans hle hle'⟩

theorem le_antisymm {a b : Location} (hab : a.le b) (hba : b.le a) : a = b := by
  rw [le_iff] at hab hba
  rcases hab with hab | ⟨hpath, hspan⟩
  · rcases hba with hba | ⟨hba, -⟩
    · exact absurd (hab.trans hba) (lt_irrefl _)
    · exact absurd (hba ▸ hab) (lt_irrefl _)
  · rcases hba with hba | ⟨-, hspan'⟩
    · exact absurd (hpath ▸ hba) (lt_irrefl _)
    · have hstart : a.start = b.start := by
        rcases hspan with ⟨-, hle⟩ | ⟨heq, -⟩
        · rcases hspan' with ⟨-, hle'⟩ | ⟨heq', -⟩
          · exact Position.le_antisymm hle hle'
          · exact heq'.symm
        · exact heq
      have hstop : a.stop = b.stop := by
        rcases hspan with ⟨hne, -⟩ | ⟨-, hle⟩
        · exact absurd hstart hne
        · rcases hspan' with ⟨hne', -⟩ | ⟨-, hle'⟩
          · exact absurd hstart.symm hne'
          · exact Position.le_antisymm hle hle'
      rcases a with ⟨path, start, stop⟩
      rcases b with ⟨path', start', stop'⟩
      simp only at hpath hstart hstop
      rw [hpath, hstart, hstop]

end Location

/-! ## Sorted lists -/

/-- A list is sorted in one way, in whatever order its members come. -/
theorem mergeSort_eq_of_perm {α : Type} {le : α → α → Bool}
    (total : ∀ a b, le a b ∨ le b a) (trans : ∀ a b c, le a b → le b c → le a c)
    (antisymm : ∀ {a b}, le a b → le b a → a = b) {xs ys : List α} (h : xs.Perm ys) :
    xs.mergeSort le = ys.mergeSort le := by
  have hsorted (zs : List α) : (zs.mergeSort le).Pairwise fun a b => le a b = true := by
    refine List.pairwise_mergeSort trans (fun a b => ?_) zs
    rw [Bool.or_eq_true]
    exact total a b
  refine List.Perm.eq_of_pairwise (fun _ _ _ _ => antisymm) (hsorted xs) (hsorted ys) ?_
  exact (List.mergeSort_perm ..).trans (h.trans (List.mergeSort_perm ..).symm)

namespace Report

theorem sortText_perm {xs ys : List String} (h : xs.Perm ys) : sortText xs = sortText ys :=
  mergeSort_eq_of_perm (fun a b => by simpa using le_total a b)
    (fun _ _ _ hab hbc => by simpa using (of_decide_eq_true hab).trans (of_decide_eq_true hbc))
    (fun hab hba => (of_decide_eq_true hab).antisymm (of_decide_eq_true hba)) h

theorem sortLocations_perm {xs ys : List Location} (h : xs.Perm ys) :
    sortLocations xs = sortLocations ys :=
  mergeSort_eq_of_perm Location.le_total (fun _ _ _ => Location.le_trans) Location.le_antisymm h

/-- Nothing is left twice. -/
theorem nodup_eraseDups : ∀ xs : List String, xs.eraseDups.Nodup
  | [] => List.nodup_nil
  | x :: xs => by
    rw [List.eraseDups_cons, List.nodup_cons, List.mem_eraseDups, List.mem_filter]
    exact ⟨by simp, nodup_eraseDups _⟩
termination_by xs => xs.length
decreasing_by exact Nat.lt_succ_of_le (List.length_filter_le ..)

/-- Sets of texts are sorted to the same list. -/
theorem sortText_eraseDups {xs ys : List String} (h : ∀ x, x ∈ xs ↔ x ∈ ys) :
    sortText xs.eraseDups = sortText ys.eraseDups := by
  refine sortText_perm ?_
  rw [List.perm_ext_iff_of_nodup (nodup_eraseDups xs) (nodup_eraseDups ys)]
  intro x
  rw [List.mem_eraseDups, List.mem_eraseDups, h]

/-! ## Merging -/

/-- The count of a name in the entries of reports, as a sum. -/
theorem totalUsage_eq (reports : List Report) (name : String) :
    totalUsage reports name =
      (((reports.flatMap (·.aliasUsage)).filter (·.1 = name)).map (·.2)).sum := by
  rw [totalUsage, List.sum_eq_foldl, List.foldl_map]

theorem totalUsage_perm {reports reports' : List Report} (h : reports.Perm reports')
    (name : String) : totalUsage reports name = totalUsage reports' name := by
  rw [totalUsage_eq, totalUsage_eq]
  exact (((h.flatMap_right _).filter _).map _).sum_eq

/-- What a merged report depends on: the paths and locations in any order, which
aliases and utility types are named, and the total of each alias. -/
theorem merge_congr {reports reports' : List Report}
    (hfiles : ∀ c, (reports.flatMap (·.files c)).Perm (reports'.flatMap (·.files c)))
    (hplaces : ∀ c, (reports.flatMap (·.places c)).Perm (reports'.flatMap (·.places c)))
    (hnames : ∀ name, name ∈ (reports.flatMap (·.aliasUsage)).map (·.1) ↔
      name ∈ (reports'.flatMap (·.aliasUsage)).map (·.1))
    (husage : ∀ name, totalUsage reports name = totalUsage reports' name)
    (hutility : ∀ name, name ∈ reports.flatMap (·.utilityTypes) ↔
      name ∈ reports'.flatMap (·.utilityTypes)) :
    merge reports = merge reports' := by
  rw [merge, merge, sortText_eraseDups hnames, sortText_eraseDups hutility]
  simp only [mk.injEq, and_true]
  refine ⟨?_, ?_, ?_⟩
  · funext c
    exact sortText_perm (hfiles c)
  · funext c
    exact sortLocations_perm (hplaces c)
  · exact List.map_congr_left fun name _ => by rw [husage]

/-- **The order of the reports does not show.** -/
theorem merge_perm {reports reports' : List Report} (h : reports.Perm reports') :
    merge reports = merge reports' :=
  merge_congr (fun _ => h.flatMap_right _) (fun _ => h.flatMap_right _)
    (fun _ => ((h.flatMap_right _).map _).mem_iff) (totalUsage_perm h)
    (fun _ => (h.flatMap_right _).mem_iff)

/-- The entry of a name is the only one that counts for it. -/
theorem sum_entries {names : List String} (hnodup : names.Nodup) (f : String → Int)
    (name : String) :
    (((names.map fun n => (n, f n)).filter (·.1 = name)).map (·.2)).sum =
      if name ∈ names then f name else 0 := by
  induction names with
  | nil => rfl
  | cons n names ih =>
    rw [List.nodup_cons] at hnodup
    by_cases hn : n = name
    · subst hn
      simp [ih hnodup.2, hnodup.1]
    · have hne : ¬ name = n := fun h => hn h.symm
      simp [ih hnodup.2, hn, hne]

/-- A report counts each alias as often as it was found. -/
theorem sum_aliasUsage (fs : List Finding) (name : String) :
    (((ofFindings fs).aliasUsage.filter (·.1 = name)).map (·.2)).sum =
      ((fs.filterMap aliasIn?).count name : Int) := by
  rw [ofFindings, sum_entries (nodup_eraseDups _)]
  by_cases hmem : name ∈ fs.filterMap aliasIn?
  · rw [if_pos (List.mem_eraseDups.2 hmem)]
  · rw [if_neg (mt List.mem_eraseDups.1 hmem), List.count_eq_zero_of_not_mem hmem]
    rfl

/-- Several reports count each alias as often as it was found. -/
theorem totalUsage_ofFindings (chunks : List (List Finding)) (name : String) :
    totalUsage (chunks.map ofFindings) name =
      ((chunks.flatten.filterMap aliasIn?).count name : Int) := by
  rw [totalUsage_eq]
  induction chunks with
  | nil => rfl
  | cons fs chunks ih =>
    rw [List.map_cons, List.flatMap_cons, List.filter_append, List.map_append, List.sum_append, ih,
      sum_aliasUsage, List.flatten_cons, List.filterMap_append, List.count_append, Int.natCast_add]

/-- What several reports say of a part of the findings. -/
theorem flatMap_filterMap {α : Type} (f : Finding → Option α) (chunks : List (List Finding)) :
    (chunks.flatMap fun fs => fs.filterMap f) = chunks.flatten.filterMap f := by
  rw [List.filterMap_flatten, List.flatMap]

/-- Several reports count the aliases that were found. -/
theorem mem_aliases {chunks : List (List Finding)} {name : String} :
    name ∈ ((chunks.map ofFindings).flatMap (·.aliasUsage)).map (·.1) ↔
      name ∈ chunks.flatten.filterMap aliasIn? := by
  simp only [ofFindings, List.mem_map, List.mem_flatMap, exists_exists_and_eq_and,
    List.mem_eraseDups, List.mem_filterMap, List.mem_flatten]
  constructor
  · rintro ⟨_, ⟨fs, hfs, n, ⟨f, hf, hn⟩, rfl⟩, rfl⟩
    exact ⟨f, ⟨fs, hfs, hf⟩, hn⟩
  · rintro ⟨f, ⟨fs, hfs, hf⟩, hn⟩
    exact ⟨_, ⟨fs, hfs, name, ⟨f, hf, hn⟩, rfl⟩, rfl⟩

/-- Several reports name the utility types that were found. -/
theorem mem_utilityTypes {chunks : List (List Finding)} {name : String} :
    name ∈ (chunks.map ofFindings).flatMap (·.utilityTypes) ↔
      name ∈ chunks.flatten.filterMap utilityIn? := by
  simp only [ofFindings, sortText, List.mem_flatMap, List.mem_map, exists_exists_and_eq_and,
    List.mem_mergeSort, List.mem_eraseDups, List.mem_filterMap, List.mem_flatten]
  constructor
  · rintro ⟨fs, hfs, f, hf, hn⟩
    exact ⟨f, ⟨fs, hfs, hf⟩, hn⟩
  · rintro ⟨f, ⟨fs, hfs, hf⟩, hn⟩
    exact ⟨fs, hfs, f, hf, hn⟩

/-- **How the findings are shared out does not show**, and neither does
their order. -/
theorem merge_ofFindings {chunks : List (List Finding)} {fs : List Finding}
    (h : chunks.flatten.Perm fs) : merge (chunks.map ofFindings) = merge [ofFindings fs] := by
  -- one reporter who has found everything is a list of one chunk
  have hflatten : [fs].flatten = fs := List.flatten_singleton
  rw [← List.map_singleton (f := ofFindings)]
  refine merge_congr (fun c => ?_) (fun c => ?_) (fun name => ?_) (fun name => ?_) fun name => ?_
  · rw [List.flatMap_map, List.flatMap_map, List.flatMap_singleton]
    exact flatMap_filterMap _ chunks ▸ h.filterMap _
  · rw [List.flatMap_map, List.flatMap_map, List.flatMap_singleton]
    exact flatMap_filterMap _ chunks ▸ h.filterMap _
  · rw [mem_aliases, mem_aliases, hflatten]
    exact (h.filterMap _).mem_iff
  · rw [totalUsage_ofFindings, totalUsage_ofFindings, hflatten, (h.filterMap _).count_eq]
  · rw [mem_utilityTypes, mem_utilityTypes, hflatten]
    exact (h.filterMap _).mem_iff

/-- A merged report names the files that the reports name. -/
theorem mem_files_merge {reports : List Report} {c : PathCategory} {path : String} :
    path ∈ (merge reports).files c ↔ ∃ r ∈ reports, path ∈ r.files c := by
  simp [merge, sortText]

end Report

end Retype
