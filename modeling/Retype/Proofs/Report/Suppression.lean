import Retype.Proofs.Report.Algebra
/-!
# What is left of a report

How a report is printed is said here by itself (`Prints`): for each category
its entries in their order, each on its line, without those that have been
reviewed, under a heading unless none is left. The printed report is the only
one of this form (`prints_iff`). Since a line with an entry begins with a
bullet, a heading stands in the report just if an entry is left under it
(`title_mem_render`).

A category depends on its own allowlist only, and more reviewed entries never
bring a line back.
-/

namespace Retype

/-- One allowlist has an entry of a category more than another. -/
def Allowlists.Adds (lists : Allowlists) (c : Category) (entry : String) (more : Allowlists) :
    Prop :=
  ∀ c' e, e ∈ more.allowed c' ↔ e ∈ lists.allowed c' ∨ c' = c ∧ e = entry

/-- All that one allowlist allows is allowed by another. -/
def Allowlists.Within (lists more : Allowlists) : Prop := ∀ c, lists.allowed c ⊆ more.allowed c

namespace Category

theorem mem_all (c : Category) : c ∈ all := by
  cases c with
  | path c => cases c <;> decide
  | place c => cases c <;> decide
  | _ => decide

/-- Each category has a heading of its own. -/
theorem title_inj {c c' : Category} (h : c.title = c'.title) : c = c' := by
  have hall : ∀ c ∈ all, ∀ c' ∈ all, c.title = c'.title → c = c' := by decide
  exact hall c (mem_all c) c' (mem_all c') h

/-- A heading is no empty line and begins with no bullet. -/
theorem title_ne (c : Category) : c.title ≠ "" ∧ ∀ entry, c.title ≠ "• " ++ entry := by
  have hall : ∀ c ∈ all, c.title ≠ "" ∧ c.title.toList.head? ≠ some '•' := by decide
  refine ⟨(hall c (mem_all c)).1, fun entry h => (hall c (mem_all c)).2 ?_⟩
  rw [h, String.toList_append]
  rfl

end Category

namespace Report

variable {r : Report} {lists more : Allowlists} {cwd : String} {c : Category}

/-! ## How a report is printed -/

/-- An alias count stands before another one: the higher before the lower, and
equal ones by name. -/
def Outranks (a b : String × Int) : Prop := b.2 < a.2 ∨ a.2 = b.2 ∧ a.1 ≤ b.1

/-- The entries of a category in their order, each with its line. -/
inductive Shows (r : Report) (cwd : String) : Category → List (String × String) → Prop
  | paths (c : PathCategory) : Shows r cwd (.path c)
      ((r.files c).map fun path => (Path.display path cwd, "• " ++ Path.display path cwd))
  | places (c : PlaceCategory) : Shows r cwd (.place c)
      ((r.places c).map fun location => (location.display cwd, "• " ++ location.display cwd))
  | aliases {ranked : List (String × Int)} (perm : ranked.Perm r.aliasUsage)
      (order : ranked.Pairwise Outranks) : Shows r cwd .anyAliasUsage
      (ranked.map fun usage =>
        (usage.1, "• " ++ usage.1 ++ ": " ++ toString usage.2 ++ " time(s)"))
  | names : Shows r cwd .unrecognizedUtilityTypes
      (r.utilityTypes.map fun name => (name, "• " ++ name))

/-- How some categories are printed one after the other: an entry that has been
reviewed is left out, and so is a category without entries left. -/
inductive Prints (r : Report) (lists : Allowlists) (cwd : String) :
    List Category → List String → Prop
  | nil : Prints r lists cwd [] []
  | silent {c : Category} {cs : List Category} {shown : List (String × String)}
      {lines : List String} (shows : r.Shows cwd c shown)
      (reviewed : ∀ entry ∈ shown, entry.1 ∈ lists.allowed c) (rest : Prints r lists cwd cs lines) :
      Prints r lists cwd (c :: cs) lines
  | headed {c : Category} {cs : List Category} {shown : List (String × String)}
      {lines : List String} (shows : r.Shows cwd c shown)
      (left : ∃ entry ∈ shown, entry.1 ∉ lists.allowed c) (rest : Prints r lists cwd cs lines) :
      Prints r lists cwd (c :: cs)
        ("" :: c.title :: (shown.filter fun entry => entry.1 ∉ lists.allowed c).map (·.2) ++ lines)

/-! ## Entries and their lines -/

theorem outranks_antisymm {a b : String × Int} (h : Outranks a b) (h' : Outranks b a) : a = b := by
  rcases h with h | ⟨hcount, hname⟩ <;> rcases h' with h' | ⟨hcount', hname'⟩
  · omega
  · omega
  · omega
  · exact Prod.ext (String.le_antisymm hname hname') hcount

theorem rankedUsage_perm (r : Report) : r.rankedUsage.Perm r.aliasUsage := List.mergeSort_perm ..

theorem rankedUsage_pairwise (r : Report) : r.rankedUsage.Pairwise Outranks := by
  have houtranks (a b : String × Int) :
      (decide (b.2 < a.2) || (a.2 == b.2 && decide (a.1 ≤ b.1))) = true ↔ Outranks a b := by
    simp [Outranks]
  refine (List.pairwise_mergeSort (fun a b c hab hbc => ?_) (fun a b => ?_) r.aliasUsage).imp
    fun h => (houtranks _ _).1 h
  · rw [houtranks] at hab hbc ⊢
    rcases hab with hab | ⟨hab, hname⟩ <;> rcases hbc with hbc | ⟨hbc, hname'⟩
    · exact .inl (by omega)
    · exact .inl (by omega)
    · exact .inl (by omega)
    · exact .inr ⟨hab.trans hbc, String.le_trans hname hname'⟩
  · rw [Bool.or_eq_true, houtranks, houtranks]
    rcases Int.lt_trichotomy a.2 b.2 with h | h | h
    · exact .inr (.inl h)
    · rcases String.le_total a.1 b.1 with hname | hname
      · exact .inl (.inr ⟨h, hname⟩)
      · exact .inr (.inr ⟨h.symm, hname⟩)
    · exact .inl (.inl h)

theorem lookup_of_mem {usages : List (String × Int)} (h : (usages.map (·.1)).Nodup)
    {usage : String × Int} (hmem : usage ∈ usages) : usages.lookup usage.1 = some usage.2 := by
  induction usages with
  | nil => cases hmem
  | cons first rest ih =>
    rw [List.map_cons, List.nodup_cons] at h
    rcases List.mem_cons.1 hmem with rfl | hmem
    · exact List.lookup_cons_self
    · have hne : (usage.1 == first.1) = false :=
        beq_false_of_ne fun hsame => h.1 (hsame ▸ List.mem_map_of_mem hmem)
      rw [List.lookup_cons, hne]
      exact ih h.2 hmem

/-- Where each alias has one count, that is the count of its name. -/
theorem usageOf_eq (h : r.CountsApart) {usage : String × Int} (hmem : usage ∈ r.aliasUsage) :
    r.usageOf usage.1 = usage.2 := by
  rw [usageOf, lookup_of_mem h hmem, Option.getD_some]

/-- The entries of a category with their lines. -/
def shown (r : Report) (cwd : String) (c : Category) : List (String × String) :=
  (r.entries cwd c).map fun entry => (entry, r.entryLine c entry)

theorem shows_shown (h : r.CountsApart) (c : Category) : r.Shows cwd c (r.shown cwd c) := by
  cases c with
  | path c =>
    rw [shown, entries, List.map_map]
    exact .paths c
  | place c =>
    rw [shown, entries, List.map_map]
    exact .places c
  | anyAliasUsage =>
    have hlines : r.shown cwd .anyAliasUsage = r.rankedUsage.map fun usage =>
        (usage.1, "• " ++ usage.1 ++ ": " ++ toString usage.2 ++ " time(s)") := by
      rw [shown, entries, List.map_map]
      refine List.map_congr_left fun usage husage => ?_
      have hcount := usageOf_eq h (r.rankedUsage_perm.mem_iff.1 husage)
      simp [entryLine, hcount]
    exact hlines ▸ .aliases r.rankedUsage_perm r.rankedUsage_pairwise
  | unrecognizedUtilityTypes =>
    rw [shown, entries]
    exact .names

/-- There is one way to show a category. -/
theorem Shows.eq {s t : List (String × String)} (hs : r.Shows cwd c s) (ht : r.Shows cwd c t) :
    s = t := by
  cases hs with
  | paths c => cases ht; rfl
  | places c => cases ht; rfl
  | names => cases ht; rfl
  | aliases perm order =>
    cases ht with
    | aliases perm' order' =>
      rw [(perm.trans perm'.symm).eq_of_pairwise (fun _ _ _ _ => outranks_antisymm) order order']

theorem openEntries_eq_nil_iff :
    r.openEntries lists cwd c = [] ↔ ∀ entry ∈ r.entries cwd c, entry ∈ lists.allowed c := by
  simp [openEntries]

/-- The lines of the entries that are left. -/
theorem map_openEntries (r : Report) (lists : Allowlists) (cwd : String) (c : Category) :
    (r.openEntries lists cwd c).map (r.entryLine c) =
      ((r.shown cwd c).filter fun entry => entry.1 ∉ lists.allowed c).map (·.2) := by
  rw [shown, List.filter_map, List.map_map, openEntries]
  refine congrArg (List.map (r.entryLine c)) (List.filter_congr fun entry _ => ?_)
  simp

theorem forall_shown {P : String → Prop} :
    (∀ entry ∈ r.shown cwd c, P entry.1) ↔ ∀ entry ∈ r.entries cwd c, P entry := by
  simp [shown]

/-! ## The printed report -/

theorem categoryLines_of_nil (h : r.openEntries lists cwd c = []) :
    r.categoryLines lists cwd c = [] := by
  rw [categoryLines, h]

theorem categoryLines_of_ne_nil (h : r.openEntries lists cwd c ≠ []) :
    r.categoryLines lists cwd c =
      "" :: c.title :: (r.openEntries lists cwd c).map (r.entryLine c) := by
  rw [categoryLines]
  split
  next hnil => exact absurd hnil h
  next => rfl

theorem prints_flatMap (h : r.CountsApart) (lists : Allowlists) (cwd : String)
    (cs : List Category) : r.Prints lists cwd cs (cs.flatMap (r.categoryLines lists cwd)) := by
  induction cs with
  | nil => exact .nil
  | cons c cs ih =>
    rw [List.flatMap_cons]
    by_cases hnil : r.openEntries lists cwd c = []
    · rw [categoryLines_of_nil hnil]
      exact .silent (shows_shown h c) (forall_shown.2 (openEntries_eq_nil_iff.1 hnil)) ih
    · have hleft : ∃ entry ∈ r.shown cwd c, entry.1 ∉ lists.allowed c := by
        by_contra hnone
        refine hnil (openEntries_eq_nil_iff.2 (forall_shown.1 fun entry hentry => ?_))
        by_contra hopen
        exact hnone ⟨entry, hentry, hopen⟩
      rw [categoryLines_of_ne_nil hnil, map_openEntries]
      exact .headed (shows_shown h c) hleft ih

theorem Prints.eq {cs : List Category} {lines lines' : List String}
    (h : r.Prints lists cwd cs lines) (h' : r.Prints lists cwd cs lines') : lines = lines' := by
  induction h generalizing lines' with
  | nil => cases h'; rfl
  | silent shows reviewed _ ih =>
    cases h' with
    | silent _ _ rest' => exact ih rest'
    | headed shows' left' _ =>
      obtain ⟨entry, hentry, hopen⟩ := left'
      exact absurd (reviewed entry (shows.eq shows' ▸ hentry)) hopen
  | headed shows left _ ih =>
    cases h' with
    | silent shows' reviewed' _ =>
      obtain ⟨entry, hentry, hopen⟩ := left
      exact absurd (reviewed' entry (shows.eq shows' ▸ hentry)) hopen
    | headed shows' _ rest' => rw [shows.eq shows', ih rest']

/-- **A report is printed in one way.** -/
theorem prints_iff (h : r.CountsApart) {lines : List String} :
    r.Prints lists cwd Category.all lines ↔ lines = r.render lists cwd :=
  ⟨fun hprints => hprints.eq (prints_flatMap h lists cwd _),
    fun hlines => hlines ▸ prints_flatMap h lists cwd _⟩

/-! ## Headings -/

theorem entryLine_bullet (r : Report) (c : Category) (entry : String) :
    ∃ rest, r.entryLine c entry = "• " ++ rest := by
  cases c with
  | anyAliasUsage =>
    exact ⟨entry ++ ": " ++ toString (r.usageOf entry) ++ " time(s)", by
      simp only [entryLine, String.append_assoc]⟩
  | _ => exact ⟨entry, rfl⟩

/-- A heading stands among the lines of its own category only. -/
theorem title_mem_categoryLines {c' : Category} :
    c.title ∈ r.categoryLines lists cwd c' ↔ c = c' ∧ r.openEntries lists cwd c' ≠ [] := by
  by_cases hnil : r.openEntries lists cwd c' = []
  · simp [categoryLines_of_nil hnil, hnil]
  · rw [categoryLines_of_ne_nil hnil, List.mem_cons, List.mem_cons]
    refine ⟨?_, fun ⟨hsame, _⟩ => .inr (.inl (congrArg Category.title hsame))⟩
    rintro (hempty | htitle | hentry)
    · exact absurd hempty c.title_ne.1
    · exact ⟨Category.title_inj htitle, hnil⟩
    · obtain ⟨entry, -, hline⟩ := List.mem_map.1 hentry
      obtain ⟨rest, hbullet⟩ := r.entryLine_bullet c' entry
      exact absurd (hline.symm.trans hbullet) (c.title_ne.2 rest)

/-- **A heading is printed just if an entry is left under it.** -/
theorem title_mem_render :
    c.title ∈ r.render lists cwd ↔ ∃ entry ∈ r.entries cwd c, entry ∉ lists.allowed c := by
  have hleft : r.openEntries lists cwd c ≠ [] ↔
      ∃ entry ∈ r.entries cwd c, entry ∉ lists.allowed c := by
    rw [Ne, openEntries_eq_nil_iff]
    simp only [not_forall, exists_prop]
  rw [render, List.mem_flatMap, ← hleft]
  refine ⟨fun ⟨c', _, htitle⟩ => ?_, fun h => ⟨c, c.mem_all, title_mem_categoryLines.2 ⟨rfl, h⟩⟩⟩
  obtain ⟨rfl, h⟩ := title_mem_categoryLines.1 htitle
  exact h

/-! ## More reviewed entries -/

/-- One more entry is left out wherever it stands. -/
theorem openEntries_of_adds {entry : String} (h : lists.Adds c entry more) :
    r.openEntries more cwd c = (r.openEntries lists cwd c).filter (· ≠ entry) := by
  rw [openEntries, openEntries, List.filter_filter]
  refine List.filter_congr fun e _ => ?_
  have hmem := h c e
  by_cases hsame : e = entry <;> by_cases hold : e ∈ lists.allowed c <;> simp_all

/-- Another category is printed as before. -/
theorem categoryLines_of_adds {c' : Category} {entry : String} (h : lists.Adds c entry more)
    (hne : c' ≠ c) : r.categoryLines more cwd c' = r.categoryLines lists cwd c' := by
  have hopen : r.openEntries more cwd c' = r.openEntries lists cwd c' := by
    refine List.filter_congr fun e _ => ?_
    have hmem := h c' e
    by_cases hold : e ∈ lists.allowed c' <;> simp_all
  rw [categoryLines, categoryLines, hopen]

/-- The lines of one category and those around them. -/
theorem exists_around (h : ∀ c' ≠ c, r.categoryLines more cwd c' = r.categoryLines lists cwd c') :
    ∃ before after, r.render lists cwd = before ++ r.categoryLines lists cwd c ++ after ∧
      r.render more cwd = before ++ r.categoryLines more cwd c ++ after := by
  obtain ⟨front, back, hall⟩ := List.append_of_mem c.mem_all
  have hnodup : (front ++ c :: back).Nodup := hall ▸ by decide
  have hother (cs : List Category) (hcs : c ∉ cs) :
      cs.flatMap (r.categoryLines more cwd) = cs.flatMap (r.categoryLines lists cwd) :=
    List.flatMap_congr fun c' hc' => h c' fun hsame => hcs (hsame ▸ hc')
  obtain ⟨-, hback, hapart⟩ := List.nodup_append.1 hnodup
  refine ⟨front.flatMap (r.categoryLines lists cwd), back.flatMap (r.categoryLines lists cwd),
    ?_, ?_⟩
  · rw [render, hall, List.flatMap_append, List.flatMap_cons, List.append_assoc]
  · rw [render, hall, List.flatMap_append, List.flatMap_cons, List.append_assoc,
      hother front fun hmem => hapart c hmem c List.mem_cons_self rfl,
      hother back (List.nodup_cons.1 hback).1]

theorem categoryLines_sublist (h : lists.Within more) :
    (r.categoryLines more cwd c).Sublist (r.categoryLines lists cwd c) := by
  have hopen : (r.openEntries more cwd c).Sublist (r.openEntries lists cwd c) := by
    refine List.monotone_filter_right _ fun e he => ?_
    simp only [Bool.not_eq_true', List.contains_eq_mem, decide_eq_false_iff_not] at he ⊢
    exact fun hold => he (h c hold)
  by_cases hnil : r.openEntries more cwd c = []
  · rw [categoryLines_of_nil hnil]
    exact List.nil_sublist _
  · have hne : r.openEntries lists cwd c ≠ [] := fun hold =>
      hnil (List.sublist_nil.1 (hold ▸ hopen))
    rw [categoryLines_of_ne_nil hnil, categoryLines_of_ne_nil hne]
    exact ((hopen.map _).cons_cons _).cons_cons _

/-- **What has been reviewed is left out, and nothing else.** A report is printed
as `Prints` says, and a heading just if an entry is left under it. With one more
reviewed entry of a category that category loses all its occurrences, and no line
before or behind changes. With more reviewed entries no line is added or moved. -/
theorem render_suppresses (h : r.CountsApart) (cwd : String) :
    (∀ lists lines, r.Prints lists cwd Category.all lines ↔ lines = r.render lists cwd) ∧
    (∀ lists c, c.title ∈ r.render lists cwd ↔
      ∃ entry ∈ r.entries cwd c, entry ∉ lists.allowed c) ∧
    (∀ lists c entry more, lists.Adds c entry more →
      r.openEntries more cwd c = (r.openEntries lists cwd c).filter (· ≠ entry) ∧
      ∃ before after, r.render lists cwd = before ++ r.categoryLines lists cwd c ++ after ∧
        r.render more cwd = before ++ r.categoryLines more cwd c ++ after) ∧
    ∀ lists more, lists.Within more → (r.render more cwd).Sublist (r.render lists cwd) := by
  refine ⟨fun lists lines => prints_iff h, fun lists c => title_mem_render,
    fun lists c entry more hadds => ⟨openEntries_of_adds hadds, ?_⟩, fun lists more hwithin => ?_⟩
  · exact exists_around fun c' hne => categoryLines_of_adds hadds hne
  · exact .flatMap_right _ fun c _ => categoryLines_sublist hwithin

/-- A file that was skipped twice beside another one, and three aliases. -/
def sample : Report :=
  { empty with
    files := fun
      | .skippedLargeFiles => ["/repo/a.js", "/repo/b.js", "/repo/a.js"]
      | .failedFiles => []
    aliasUsage := [("b", 1), ("c", 2), ("a", 2)] }

/-- One alias has been reviewed; then one of the files is as well. -/
theorem render_suppresses_sample :
    let lists : Allowlists := [(.anyAliasUsage, ["c"])]
    let more : Allowlists := (.path .skippedLargeFiles, ["a.js"]) :: lists
    sample.CountsApart ∧ lists.Adds (.path .skippedLargeFiles) "a.js" more ∧ lists.Within more ∧
      sample.Prints lists "/repo" Category.all
        ["", "Skipped large files:", "• a.js", "• b.js", "• a.js",
          "", "Unsound type aliases inserted:", "• a: 2 time(s)", "• b: 1 time(s)"] ∧
      sample.openEntries more "/repo" (.path .skippedLargeFiles) = ["b.js"] ∧
      (sample.render more "/repo").Sublist (sample.render lists "/repo") := by
  intro lists more
  have hcounts : sample.CountsApart := by unfold CountsApart; decide
  have hadds : lists.Adds (.path .skippedLargeFiles) "a.js" more := by
    intro c' e
    by_cases hc : c' = .path .skippedLargeFiles
    · subst hc
      simp [more, lists, Allowlists.allowed]
    · simp [more, lists, Allowlists.allowed, hc, Ne.symm hc]
  have hwithin : lists.Within more := fun c' e he => (hadds c' e).2 (.inl he)
  obtain ⟨hprints, -, hone, hall⟩ := render_suppresses hcounts "/repo"
  have hold : sample.openEntries lists "/repo" (.path .skippedLargeFiles) =
      ["a.js", "b.js", "a.js"] := by decide +kernel
  refine ⟨hcounts, hadds, hwithin, (hprints lists _).2 (by cbv), ?_, hall lists more hwithin⟩
  rw [(hone lists _ _ more hadds).1, hold]
  decide

end Report

end Retype
