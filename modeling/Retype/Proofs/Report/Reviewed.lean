import Retype.Proofs.Report.Suppression
import Retype.Proofs.Source.Display
import Retype.Proofs.Text.Lines
import Retype.Report.Allowlist
/-!
# Reviewed findings in a configuration

The entries of a category as they were printed may be kept in the table of
allowlists, as a list or in a file with one on each line. A table that can be
loaded without them can be loaded with them, and then allows what is read of
them besides (`exists_load_insert`).

What is read of an entry is trimmed, and in a file a `#` begins a comment. So an
entry is allowed as it is printed just if it is not empty and no end of it is
blank, and in a file holds no `#` besides; only where all entries of a category
are like that nothing more is printed of it (`reviewed_stay_suppressed`). A path
may well hold such characters (`reviewed_comes_back`).
-/

namespace Retype

namespace Category

theorem ofName?_name (c : Category) : ofName? c.name = some c := by
  have hall : ∀ c ∈ all, ofName? c.name = some c := by decide
  exact hall c (mem_all c)

theorem name_of_ofName? {c : Category} {key : String} (h : ofName? key = some c) :
    c.name = key := by
  simpa using List.find?_some h

end Category

namespace Allowlists

variable {levels : Nat} {files : Files} {root : Path} {key : String}
  {value : Setting} {c : Category}
  {entries : List String}

/-! ## Loading -/

theorem result_load_of_entries (hkey : Category.ofName? key = some c)
    (h : entriesOf levels files root value = some (.ok entries)) (rest : Table) :
    (load levels files root ((key, value) :: rest)).result =
      (load levels files root rest).result.map ((c, entries.eraseDups) :: ·) := by
  rw [load, hkey, h]

/-- **What a row does** to the table behind it: nothing, it breaks the loading
off, or it adds entries to the category of its name. -/
theorem result_load_cons (levels : Nat) (files : Files) (root : Path)
    (key : String) (value : Setting) :
    (∀ rest, (load levels files root ((key, value) :: rest)).result =
      (load levels files root rest).result) ∨
    (∃ e, ∀ rest, (load levels files root ((key, value) :: rest)).result = .error e) ∨
    ∃ (c : Category) (entries : List String), Category.ofName? key = some c ∧
      ∀ rest, (load levels files root ((key, value) :: rest)).result =
        (load levels files root rest).result.map ((c, entries.eraseDups) :: ·) := by
  cases hkey : Category.ofName? key with
  | none => exact .inl fun rest => by simp only [load, hkey]
  | some c =>
    rcases hvalue : entriesOf levels files root value with _ | (e | entries)
    · exact .inl fun rest => by simp only [load, hkey, hvalue]
    · exact .inr (.inl ⟨e, fun rest => by simp only [load, hkey, hvalue]⟩)
    · exact .inr (.inr ⟨c, entries, rfl, result_load_of_entries hkey hvalue⟩)

theorem exists_of_map_eq_ok {x : Except LoadError Allowlists}
    {added : Category × List String} {lists : Allowlists} (h : x.map (added :: ·) = .ok lists) :
    ∃ more, x = .ok more ∧ lists = added :: more := by
  cases x with
  | error e => cases h
  | ok more =>
    cases h
    exact ⟨more, rfl, rfl⟩

theorem mem_allowed_cons {added : Category × List String} {lists : Allowlists} {e : String} :
    e ∈ allowed (added :: lists) c ↔ c = added.1 ∧ e ∈ added.2 ∨ e ∈ lists.allowed c := by
  by_cases hc : added.1 = c
  · simp [allowed, hc]
  · simp [allowed, hc, Ne.symm hc]

/-- What a table gives a category comes from rows with its name. -/
theorem not_mem_allowed {table : Table} {lists : Allowlists}
    (h : (load levels files root table).result = .ok lists) (hnone : c.name ∉ table.map (·.1))
    (e : String) : e ∉ lists.allowed c := by
  induction table generalizing lists with
  | nil =>
    cases h
    exact List.not_mem_nil
  | cons row rest ih =>
    obtain ⟨key, value⟩ := row
    rw [List.map_cons, List.mem_cons, not_or] at hnone
    rcases result_load_cons levels files root key value with
      hskip | ⟨cause, hbreak⟩ | ⟨c', entries, hkey, hadd⟩
    · exact ih ((hskip rest).symm.trans h) hnone.2
    · rw [hbreak] at h
      cases h
    · rw [hadd] at h
      obtain ⟨more, hmore, rfl⟩ := exists_of_map_eq_ok h
      rw [mem_allowed_cons, not_or]
      refine ⟨fun hsame => hnone.1 ?_, ih hmore hnone.2⟩
      rw [hsame.1]
      exact Category.name_of_ofName? hkey

/-- **One more row.** A table that can be loaded can be loaded with one more row,
which adds its entries to those of its category. -/
theorem exists_load_insert {before after : Table} {others : Allowlists}
    (hkey : Category.ofName? key = some c)
    (hvalue : entriesOf levels files root value = some (.ok entries))
    (h : (load levels files root (before ++ after)).result = .ok others) :
    ∃ lists, (load levels files root (before ++ (key, value) :: after)).result = .ok lists ∧
      ∀ c' e, e ∈ lists.allowed c' ↔ c' = c ∧ e ∈ entries ∨ e ∈ others.allowed c' := by
  induction before generalizing others with
  | nil =>
    refine ⟨(c, entries.eraseDups) :: others, ?_, fun c' e => ?_⟩
    · rw [List.nil_append, result_load_of_entries hkey hvalue]
      exact congrArg (Except.map _) h
    · rw [mem_allowed_cons, List.mem_eraseDups]
  | cons row rest ih =>
    obtain ⟨key₁, value₁⟩ := row
    rw [List.cons_append] at h ⊢
    rcases result_load_cons levels files root key₁ value₁ with
      hskip | ⟨cause, hbreak⟩ | ⟨c₁, entries₁, -, hadd⟩
    · rw [hskip] at h ⊢
      exact ih h
    · rw [hbreak] at h
      cases h
    · rw [hadd] at h ⊢
      obtain ⟨more, hmore, rfl⟩ := exists_of_map_eq_ok h
      obtain ⟨lists, hlists, hmem⟩ := ih hmore
      refine ⟨(c₁, entries₁.eraseDups) :: lists, congrArg (Except.map _) hlists, fun c' e => ?_⟩
      rw [mem_allowed_cons, hmem, mem_allowed_cons]
      exact or_left_comm

/-! ## What is read of an entry -/

/-- An entry is read as it is: it is not empty and no end of it is blank. -/
structure Plain (entry : String) : Prop where
  ne_empty : entry ≠ ""
  trimmed : Text.Trimmed isBlank entry.toList

theorem lineEntry_of_not_mem {line : String} (h : '#' ∉ line.toList) :
    lineEntry line = Text.trim line := by
  have hall : line.toList.takeWhile (· ≠ '#') = line.toList :=
    List.takeWhile_eq_self_iff.2 fun x hx => decide_eq_true fun hsame => h (hsame ▸ hx)
  rw [lineEntry, hall, String.ofList_toList]

theorem not_mem_lineEntry (line : String) : '#' ∉ (lineEntry line).toList := by
  rw [lineEntry, Text.trim, String.toList_ofList, String.toList_ofList]
  exact fun h => by simpa using List.mem_takeWhile_imp (Text.mem_of_mem_trimList h)

theorem lineEntry_lineEntry (line : String) : lineEntry (lineEntry line) = lineEntry line := by
  rw [lineEntry_of_not_mem (not_mem_lineEntry line), lineEntry, Text.trim_trim]

/-- A line is its own entry just if no comment begins in it and no end is blank. -/
theorem lineEntry_eq_self_iff {line : String} :
    lineEntry line = line ↔ Text.Trimmed isBlank line.toList ∧ '#' ∉ line.toList := by
  refine ⟨fun h => ?_, fun ⟨htrimmed, hhash⟩ => ?_⟩
  · have hhash : '#' ∉ line.toList := h ▸ not_mem_lineEntry line
    rw [lineEntry_of_not_mem hhash] at h
    exact ⟨Text.trim_eq_self_iff.1 h, hhash⟩
  · rw [lineEntry_of_not_mem hhash, Text.trim_eq_self_iff.2 htrimmed]

theorem plain_iff {entry : String} : Plain entry ↔ entry ≠ "" ∧ Text.trim entry = entry := by
  rw [Text.trim_eq_self_iff]
  exact ⟨fun h => ⟨h.ne_empty, h.trimmed⟩, fun h => ⟨h.1, h.2⟩⟩

theorem plain_of_line_iff {entry : String} :
    Plain entry ∧ '#' ∉ entry.toList ↔ entry ≠ "" ∧ lineEntry entry = entry := by
  rw [lineEntry_eq_self_iff, plain_iff, Text.trim_eq_self_iff, and_assoc]

/-- All entries are found again just if each of them is read as it is. -/
theorem forall_mem_read_iff {read : String → String} (hread : ∀ e, read (read e) = read e) :
    (∀ e ∈ entries, e ∈ (entries.map read).filter (· ≠ "")) ↔
      ∀ e ∈ entries, e ≠ "" ∧ read e = e := by
  refine forall₂_congr fun e he => ?_
  -- What is found may have been read of another entry, but reading it again changes nothing.
  rw [List.mem_filter, List.mem_map, decide_eq_true_eq]
  refine ⟨fun ⟨⟨e', _, hsame⟩, hne⟩ => ⟨hne, ?_⟩, fun ⟨hne, hsame⟩ => ⟨⟨e, he, hsame⟩, hne⟩⟩
  rw [← hsame, hread]

/-- A list of texts can be written out. -/
theorem entriesOfItems_text (levels : Nat) (entries : List String) :
    entriesOfItems levels (entries.map Setting.text) =
      .ok ((entries.map Text.trim).filter (· ≠ "")) := by
  have htexts : (entries.map Setting.text).mapM (·.writtenOut levels) = .ok entries := by
    induction entries with
    | nil => rfl
    | cons entry rest ih =>
      rw [List.map_cons, List.mapM_cons, ih]
      rfl
  rw [entriesOfItems, htexts]

theorem entriesOfText_unlines (h : ∀ e ∈ entries, ∀ x ∈ e.toList, endsLine x = false) :
    entriesOfText (Text.unlines entries) = (entries.map lineEntry).filter (· ≠ "") := by
  rw [entriesOfText, Text.lines_unlines h]

end Allowlists

namespace Report

open Allowlists (Plain)

variable {r : Report} {c : Category} {cwd : String}

/-- No path and no name in a category of a report holds a character that ends a
line. -/
def Unbroken (r : Report) : Category → Prop
  | .path c => ∀ path ∈ r.files c, ∀ x ∈ path.toList, endsLine x = false
  | .place c => ∀ location ∈ r.places c, ∀ x ∈ location.path.toList, endsLine x = false
  | .anyAliasUsage => ∀ usage ∈ r.aliasUsage, ∀ x ∈ usage.1.toList, endsLine x = false
  | .unrecognizedUtilityTypes => ∀ name ∈ r.utilityTypes, ∀ x ∈ name.toList, endsLine x = false

theorem endsLine_display {path : String} (h : ∀ x ∈ path.toList, endsLine x = false) {x : Char}
    (hx : x ∈ (Path.display path cwd).toList) : endsLine x = false := by
  rcases Path.mem_display hx with hx | rfl | rfl
  · exact h x hx
  · rfl
  · rfl

theorem endsLine_toString {i : Int} {x : Char} (hx : x ∈ (toString i).toList) :
    endsLine x = false := by
  rcases Numeral.eq_or_isDigit_of_mem_toString hx with rfl | hdigit
  · rfl
  · obtain ⟨hlow, hhigh⟩ := toNat_of_isDigit hdigit
    simp only [endsLine, Bool.or_eq_false_iff, Bool.and_eq_false_iff, decide_eq_false_iff_not,
      beq_eq_false_iff_ne]
    omega

/-- Then no entry breaks a line either. -/
theorem Unbroken.entries (h : r.Unbroken c) (cwd : String) :
    ∀ entry ∈ r.entries cwd c, ∀ x ∈ entry.toList, endsLine x = false := by
  cases c with
  | path c =>
    refine List.forall_mem_map.2 fun path hpath x hx => ?_
    exact endsLine_display (h path hpath) hx
  | place c =>
    refine List.forall_mem_map.2 fun location hlocation x hx => ?_
    simp only [Location.display, String.toList_append, List.mem_append] at hx
    have hcolon {x : Char} (hx : x ∈ (":" : String).toList) : endsLine x = false := by
      obtain rfl : x = ':' := by simpa using hx
      rfl
    rcases hx with (((hx | hx) | hx) | hx) | hx
    · exact endsLine_display (h location hlocation) hx
    · exact hcolon hx
    · exact endsLine_toString hx
    · exact hcolon hx
    · exact endsLine_toString hx
  | anyAliasUsage =>
    exact List.forall_mem_map.2 fun usage husage => h usage (r.rankedUsage_perm.mem_iff.1 husage)
  | unrecognizedUtilityTypes => exact h

theorem categoryLines_eq_nil_iff {lists : Allowlists} : r.categoryLines lists cwd c = [] ↔
    ∀ entry ∈ r.entries cwd c, entry ∈ lists.allowed c := by
  rw [← openEntries_eq_nil_iff]
  refine ⟨fun h => ?_, categoryLines_of_nil⟩
  by_contra hne
  rw [categoryLines_of_ne_nil hne] at h
  cases h

/-- A file that was too large, of a given name in `/repo`. -/
def ofLarge (name : String) : Report :=
  ofFindings [.file .skippedLargeFiles ("/repo/" ++ name)]

/-- The table of one row for the files that are too large. -/
def largeRow (value : Setting) : Table := [(Category.name (.path .skippedLargeFiles), value)]

/-- The files of a root that holds one file of reviewed entries. -/
def reviewedFiles (entries : List String) : Files :=
  Files.ofList [(["allow.txt"], Utf8.encode (Text.unlines entries))]

/-- **Reviewed findings stay suppressed.** The entries of a category are stored in
one row of a table that can be loaded without it, as a list or in a file with
one entry on each line. Then the table is loaded, and after a list nothing is
printed of the category just if its entries are plain. Where no line is broken,
nothing is printed after a file just if they are plain and hold no `#`; such
entries are the same set in both. -/
theorem reviewed_stay_suppressed (levels : Nat) (r : Report) (c : Category) (cwd : String)
    {files : Files} {root : Path} {name : String}
    (hfile : files.readText (root.join (Path.parse name)) =
      .ok (Text.unlines (r.entries cwd c)))
    {before after : Table} {others : Allowlists}
    (hothers : (Allowlists.load levels files root (before ++ after)).result = .ok others)
    (hrow : c.name ∉ (before ++ after).map (·.1)) :
    ∃ inline fromFile : Allowlists,
      (Allowlists.load levels files root
        (before ++ (c.name, .list ((r.entries cwd c).map .text)) :: after)).result = .ok inline ∧
      (Allowlists.load levels files root (before ++ (c.name, .text name) :: after)).result =
        .ok fromFile ∧
      (r.categoryLines inline cwd c = [] ↔ ∀ entry ∈ r.entries cwd c, Plain entry) ∧
      (r.Unbroken c →
        (r.categoryLines fromFile cwd c = [] ↔
          ∀ entry ∈ r.entries cwd c, Plain entry ∧ '#' ∉ entry.toList) ∧
        ((∀ entry ∈ r.entries cwd c, Plain entry ∧ '#' ∉ entry.toList) →
          ∀ c' entry, entry ∈ inline.allowed c' ↔ entry ∈ fromFile.allowed c')) := by
  have hitems : Allowlists.entriesOf levels files root (.list ((r.entries cwd c).map .text)) =
      some (.ok (((r.entries cwd c).map Text.trim).filter (· ≠ ""))) := by
    rw [Allowlists.entriesOf, Allowlists.entriesOfItems_text]
  have htext : Allowlists.entriesOf levels files root (.text name) =
      some (.ok (Allowlists.entriesOfText (Text.unlines (r.entries cwd c)))) := by
    rw [Allowlists.entriesOf, Allowlists.entriesOfFile, hfile]
  obtain ⟨inline, hinline, hin⟩ := Allowlists.exists_load_insert c.ofName?_name hitems hothers
  obtain ⟨fromFile, hfrom, hout⟩ := Allowlists.exists_load_insert c.ofName?_name htext hothers
  have hfresh (e : String) : e ∉ others.allowed c := Allowlists.not_mem_allowed hothers hrow e
  refine ⟨inline, fromFile, hinline, hfrom, ?_, fun hbreaks => ?_⟩
  · rw [categoryLines_eq_nil_iff]
    simp only [hin, hfresh, or_false, true_and, Allowlists.plain_iff]
    exact Allowlists.forall_mem_read_iff Text.trim_trim
  rw [Allowlists.entriesOfText_unlines (hbreaks.entries cwd)] at hout
  refine ⟨?_, fun hall c' entry => ?_⟩
  · rw [categoryLines_eq_nil_iff]
    simp only [hout, hfresh, or_false, true_and, Allowlists.plain_of_line_iff]
    exact Allowlists.forall_mem_read_iff Allowlists.lineEntry_lineEntry
  · have hsame : (r.entries cwd c).map Text.trim = (r.entries cwd c).map Allowlists.lineEntry := by
      refine List.map_congr_left fun e he => ?_
      rw [(Allowlists.plain_of_line_iff.1 (hall e he)).2, (Allowlists.plain_iff.1 (hall e he).1).2]
    rw [hin, hout, hsame]

/-- One row is there before the entries of `/repo/a.js` are reviewed. -/
theorem reviewed_stay_suppressed_large :
    let c := Category.path .skippedLargeFiles
    let r := ofLarge "a.js"
    let files := reviewedFiles (r.entries "/repo" c)
    let root := Path.parse "/"
    let before : Table := [("failed_files", .list [.text "b.js"])]
    r.Unbroken c ∧
      files.readText (root.join (Path.parse "allow.txt")) =
        .ok (Text.unlines (r.entries "/repo" c)) ∧
      (Allowlists.load 8 files root (before ++ [])).result = .ok [(.path .failedFiles, ["b.js"])] ∧
      c.name ∉ (before ++ []).map Prod.fst ∧
      ∃ inline fromFile : Allowlists,
        (Allowlists.load 8 files root
          (before ++ largeRow (.list ((r.entries "/repo" c).map .text)))).result = .ok inline ∧
        (Allowlists.load 8 files root (before ++ largeRow (.text "allow.txt"))).result =
          .ok fromFile ∧
        r.categoryLines inline "/repo" c = [] ∧ r.categoryLines fromFile "/repo" c = [] ∧
        ∀ c' entry, entry ∈ inline.allowed c' ↔ entry ∈ fromFile.allowed c' := by
  intro c r files root before
  have hbreaks : r.Unbroken c := by
    intro path hpath
    obtain rfl : path = "/repo/a.js" := List.mem_singleton.1 hpath
    simp [endsLine]
  have hfile : files.readText (root.join (Path.parse "allow.txt")) =
      .ok (Text.unlines (r.entries "/repo" c)) := by cbv
  have hothers : (Allowlists.load 8 files root (before ++ [])).result =
      .ok [(.path .failedFiles, ["b.js"])] := by cbv
  have hrow : c.name ∉ (before ++ []).map Prod.fst := by decide +kernel
  obtain ⟨inline, fromFile, hinline, hfrom, hlist, hunbroken⟩ :=
    reviewed_stay_suppressed 8 r c "/repo" hfile hothers hrow
  obtain ⟨hlines, hsame⟩ := hunbroken hbreaks
  have hplain : ∀ entry ∈ r.entries "/repo" c, Plain entry ∧ '#' ∉ entry.toList := by
    have hentries : r.entries "/repo" c = ["a.js"] := by decide +kernel
    rw [hentries]
    refine List.forall_mem_singleton.2 ⟨⟨by decide, ⟨?_, ?_⟩⟩, by decide⟩ <;>
      simp [isBlank, isWhiteSpace]
  exact ⟨hbreaks, hfile, hothers, hrow, inline, fromFile, hinline, hfrom,
    hlist.2 fun entry h => (hplain entry h).1, hlines.2 hplain, hsame hplain⟩

/-- In a file an entry that is printed of the one path is read as it is, and of
the other path it is cut; a list gives the one back and trims the other. -/
theorem reviewed_comes_back :
    let c := Category.path .skippedLargeFiles
    let marked := ofLarge "a#b.js"
    let spaced := ofLarge " c.js"
    marked.Unbroken c ∧ spaced.Unbroken c ∧
      (∃ lists, (Allowlists.load 8 (reviewedFiles (marked.entries "/repo" c)) (Path.parse "/")
          (largeRow (.text "allow.txt"))).result = .ok lists ∧
        marked.render lists "/repo" = ["", "Skipped large files:", "• a#b.js"]) ∧
      (∃ lists, (Allowlists.load 8 (reviewedFiles []) (Path.parse "/")
          (largeRow (.list ((spaced.entries "/repo" c).map .text)))).result = .ok lists ∧
        spaced.render lists "/repo" = ["", "Skipped large files:", "•  c.js"]) := by
  refine ⟨?_, ?_, ⟨[(.path .skippedLargeFiles, ["a"])], ?_, ?_⟩,
    ⟨[(.path .skippedLargeFiles, ["c.js"])], ?_, ?_⟩⟩
  · intro path hpath
    obtain rfl : path = "/repo/a#b.js" := List.mem_singleton.1 hpath
    simp [endsLine]
  · intro path hpath
    obtain rfl : path = "/repo/ c.js" := List.mem_singleton.1 hpath
    simp [endsLine]
  · cbv
  · decide +kernel
  · cbv
  · decide +kernel

end Report

end Retype
