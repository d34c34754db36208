import Mathlib.Data.List.DropRight
import Retype.Proofs.Source.Path
import Retype.Proofs.Text.Ascii
import Retype.Source.Location
/-!
# What a displayed location tells

A path in normal form is shown as the way to it from the directory of the
reader: up to the last directory that the two have in common, and down from
there. Taken from that directory the way leads to the path (`absolute_display`),
so paths that look the same are the same.

In a location the path is followed by two numbers, each behind a colon. A path
may hold colons and digits itself, but a number holds no colon, so the numbers
are those behind the last two (`append_colon_inj`).
-/

namespace Retype

namespace Path

/-- The text of a path in normal form and its components: behind the first
slash, and between slashes, stands no component that is empty, `.` or `..`. -/
structure Spells (s : String) (parts : List String) : Prop where
  components : ∀ part ∈ parts, IsComponent part
  no_up : ".." ∉ parts
  text : s = "/" ++ String.intercalate "/" parts

instance (part : String) : Decidable (IsComponent part) :=
  decidable_of_iff (part ≠ "" ∧ part ≠ "." ∧ '/' ∉ part.toList)
    ⟨fun ⟨hempty, hdot, hslash⟩ => ⟨hempty, hdot, hslash⟩,
      fun ⟨hempty, hdot, hslash⟩ => ⟨hempty, hdot, hslash⟩⟩

instance (s : String) (parts : List String) : Decidable (Spells s parts) :=
  decidable_of_iff ((∀ part ∈ parts, IsComponent part) ∧ ".." ∉ parts ∧
      s = "/" ++ String.intercalate "/" parts)
    ⟨fun ⟨hparts, hup, htext⟩ => ⟨hparts, hup, htext⟩,
      fun ⟨hparts, hup, htext⟩ => ⟨hparts, hup, htext⟩⟩

/-- The text of an absolute path in normal form. -/
def IsNormalText (s : String) : Prop := ∃ parts, Spells s parts

theorem toText_of_absolute {parts : List String} :
    (⟨"/", parts⟩ : Path).toText = "/" ++ String.intercalate "/" parts := by
  have hne : "/" ++ String.intercalate "/" parts ≠ "" :=
    fun h => absurd (String.append_eq_empty_iff.1 h).1 (by decide)
  rw [toText]
  exact if_neg hne

namespace Spells

variable {s : String} {parts : List String} (h : Spells s parts)
include h

theorem toText_eq : (⟨"/", parts⟩ : Path).toText = s := by
  rw [toText_of_absolute, h.text]

theorem parse_eq : parse s = ⟨"/", parts⟩ := by
  rw [← h.toText_eq]
  exact parse_toText ⟨.inr (.inl rfl), h.components⟩

theorem ne_empty : s ≠ "" := by
  rw [h.text]
  exact fun h => absurd (String.append_eq_empty_iff.1 h).1 (by decide)

end Spells

/-! ## Steps up and down -/

/-- One component applied: what it leaves of the steps out of the beginning, and
of the components. -/
def applyPart : Nat × List String → String → Nat × List String
  | (ups, done), part =>
    if part = ".." then
      match done with
      | [] => (ups + 1, [])
      | _ :: _ => (ups, done.dropLast)
    else (ups, done ++ [part])

theorem applyPart_of_ne {part : String} (h : part ≠ "..") (ups : Nat) (done : List String) :
    applyPart (ups, done) part = (ups, done ++ [part]) := by
  unfold applyPart
  exact if_neg h

theorem normalize_eq (parts : List String) : normalize parts = parts.foldl applyPart (0, []) := rfl

/-- Components other than `..` lead down. -/
theorem foldl_applyPart_down {parts : List String} (h : ".." ∉ parts) (ups : Nat)
    (done : List String) : parts.foldl applyPart (ups, done) = (ups, done ++ parts) := by
  induction parts generalizing done with
  | nil => rw [List.foldl_nil, List.append_nil]
  | cons part rest ih =>
    rw [List.mem_cons, not_or] at h
    rw [List.foldl_cons, applyPart_of_ne (Ne.symm h.1), ih h.2, List.append_assoc]
    rfl

/-- As many steps up as there are components above a directory lead back to it. -/
theorem foldl_applyPart_up (ups : Nat) (done above : List String) :
    (List.replicate above.length "..").foldl applyPart (ups, done ++ above) = (ups, done) := by
  induction above using List.reverseRecOn with
  | nil => rw [List.append_nil]; rfl
  | append_singleton above part ih =>
    have hstep : applyPart (ups, done ++ (above ++ [part])) ".." = (ups, done ++ above) := by
      obtain ⟨first, rest, hcons⟩ : ∃ first rest, done ++ above ++ [part] = first :: rest :=
        List.exists_cons_of_ne_nil (List.append_ne_nil_of_right_ne_nil _ (List.cons_ne_nil _ _))
      have hlast : (done ++ above ++ [part]).dropLast = done ++ above := List.dropLast_concat
      rw [hcons] at hlast
      rw [← List.append_assoc, hcons]
      exact congrArg (ups, ·) hlast
    rw [List.length_append, List.length_singleton, List.replicate_succ, List.foldl_cons, hstep, ih]

/-- What two lists lose is their common beginning. -/
theorem dropCommon_spec (as bs : List String) : ∃ common,
    as = common ++ (dropCommon as bs).1 ∧ bs = common ++ (dropCommon as bs).2 := by
  induction as generalizing bs with
  | nil => exact ⟨[], rfl, by cases bs <;> rfl⟩
  | cons a as ih =>
    cases bs with
    | nil => exact ⟨[], rfl, rfl⟩
    | cons b bs =>
      rw [dropCommon]
      split_ifs with hsame
      · obtain ⟨common, has, hbs⟩ := ih bs
        exact ⟨a :: common, congrArg (a :: ·) has, hsame ▸ congrArg (a :: ·) hbs⟩
      · exact ⟨[], rfl, rfl⟩

theorem mem_of_mem_dropCommon {as bs : List String} {part : String}
    (h : part ∈ (dropCommon as bs).2) :
    part ∈ bs := by
  obtain ⟨common, -, hbs⟩ := dropCommon_spec as bs
  exact hbs ▸ List.mem_append_right common h

/-! ## The way to a path -/

/-- The way from one directory to a path, both given by their components. -/
def way (start parts : List String) : Path :=
  ⟨"", List.replicate (dropCommon start parts).1.length ".." ++ (dropCommon start parts).2⟩

theorem proper_way (start : List String) {parts : List String}
    (h : ∀ part ∈ parts, IsComponent part) :
    (way start parts).Proper := by
  refine ⟨.inl rfl, fun part hpart => ?_⟩
  rcases List.mem_append.1 hpart with hup | hdown
  · rw [(List.mem_replicate.1 hup).2]
    exact ⟨by decide, by decide, by decide⟩
  · exact h part (mem_of_mem_dropCommon hdown)

/-- Joined components are empty only if there are none. -/
theorem intercalate_ne_empty {parts : List String} (h : ∀ part ∈ parts, IsComponent part)
    (hne : parts ≠ []) : String.intercalate "/" parts ≠ "" := by
  intro hempty
  have hback := componentsIn_intercalate h
  have hbody : (String.intercalate "/" parts).toList =
      ['/'].intercalate (parts.map String.toList) :=
    String.toList_intercalate
  rw [← hbody, hempty] at hback
  exact hne hback.symm

variable {cwd s t : String} {dirs parts parts' : List String}

/-- **A path is shown as the way to it.** -/
theorem display_eq (hcwd : Spells cwd dirs) (h : Spells s parts) :
    display s cwd = (way dirs parts).toText := by
  have hparts (parts : List String) (hup : ".." ∉ parts) : normalize parts = (0, parts) := by
    rw [normalize_eq, foldl_applyPart_down hup, List.nil_append]
  have habsolute (parts : List String) (hup : ".." ∉ parts) (depth : Nat) :
      (⟨"/", parts⟩ : Path).absoluteParts depth = parts := by
    simp [absoluteParts, hparts parts hup, isAbsolute]
  rw [display, if_neg h.ne_empty, hcwd.parse_eq, h.parse_eq, relativeTo]
  simp only [habsolute _ hcwd.no_up, habsolute _ h.no_up]
  have hproper := (proper_way dirs h.components).parts
  change (if (way dirs parts).parts.isEmpty then "."
      else String.intercalate "/" (way dirs parts).parts)
    = (way dirs parts).toText
  rw [toText]
  by_cases hnil : (way dirs parts).parts = []
  · rw [hnil]
    rfl
  · have hne := intercalate_ne_empty hproper hnil
    rw [if_neg (by simpa using hnil), if_neg (by simpa [way] using hne)]
    exact (String.empty_append ..).symm

/-- **The way leads to the path**: taken from the directory where it is shown,
it is the path again. -/
theorem absolute_display (hcwd : Spells cwd dirs) (h : Spells s parts) :
    (absolute (parse cwd) (parse (display s cwd))).toText = s := by
  obtain ⟨common, hdirs, hparts⟩ := dropCommon_spec dirs parts
  have hdown : ".." ∉ (dropCommon dirs parts).2 := fun hmem => h.no_up (mem_of_mem_dropCommon hmem)
  have hwalk : normalize (dirs ++ (way dirs parts).parts) = (0, parts) := by
    rw [normalize_eq, List.foldl_append, foldl_applyPart_down hcwd.no_up, List.nil_append, way,
      List.foldl_append]
    have hup := foldl_applyPart_up 0 common (dropCommon dirs parts).1
    rw [← hdirs] at hup
    rw [hup, foldl_applyPart_down hdown, ← hparts]
  rw [display_eq hcwd h, hcwd.parse_eq, parse_toText (proper_way dirs h.components), absolute,
    join_of_relative (by rfl)]
  simp only [hwalk]
  exact h.toText_eq

/-- Paths that look the same are the same. -/
theorem display_inj (hcwd : Spells cwd dirs) (h : Spells s parts) (h' : Spells t parts')
    (hsame : display s cwd = display t cwd) : s = t := by
  rw [← absolute_display hcwd h, hsame, absolute_display hcwd h']

/-! ## Characters -/

theorem mem_intercalate {parts : List String} {x : Char}
    (h : x ∈ (String.intercalate "/" parts).toList) :
    x = '/' ∨ ∃ part ∈ parts, x ∈ part.toList := by
  rw [String.toList_intercalate] at h
  induction parts with
  | nil => cases h
  | cons part rest ih =>
    cases rest with
    | nil => exact .inr ⟨part, List.mem_cons_self, by simpa using h⟩
    | cons next rest =>
      rw [List.map_cons, List.map_cons, List.intercalate_cons_cons, List.mem_append,
        List.mem_append, ← List.map_cons] at h
      rcases h with (h | h) | h
      · exact .inr ⟨part, List.mem_cons_self, h⟩
      · exact .inl (List.mem_singleton.1 h)
      · exact (ih h).imp_right fun ⟨other, hother, hx⟩ => ⟨other, List.mem_cons_of_mem _ hother, hx⟩

theorem mem_applyPart {s : Nat × List String} {part first : String}
    (h : part ∈ (applyPart s first).2) : part ∈ s.2 ∨ part = first := by
  obtain ⟨ups, done⟩ := s
  by_cases hup : first = ".."
  · subst hup
    cases done with
    | nil => cases h
    | cons _ _ => exact .inl (List.dropLast_subset _ h)
  · rw [applyPart_of_ne hup, List.mem_append, List.mem_singleton] at h
    exact h

theorem mem_foldl_applyPart {parts : List String} {s : Nat × List String} {part : String}
    (h : part ∈ (parts.foldl applyPart s).2) : part ∈ s.2 ∨ part ∈ parts := by
  induction parts generalizing s with
  | nil => exact .inl h
  | cons first rest ih =>
    rcases ih h with h | h
    · exact (mem_applyPart h).imp_right fun hsame => List.mem_cons.2 (.inl hsame)
    · exact .inr (List.mem_cons_of_mem _ h)

theorem mem_absoluteParts {p : Path} {depth : Nat} {part : String}
    (h : part ∈ p.absoluteParts depth) : part = "/" ∨ part ∈ p.parts := by
  have hnormal : part ∈ (normalize p.parts).2 → part ∈ p.parts :=
    fun h => (mem_foldl_applyPart h).resolve_left List.not_mem_nil
  simp only [absoluteParts] at h
  split_ifs at h
  · exact .inr (hnormal h)
  · exact (List.mem_append.1 h).imp (fun h => (List.mem_replicate.1 h).2) hnormal

/-- What is shown of a path is made of its characters, dots and slashes. -/
theorem mem_display {path : String} {x : Char} (h : x ∈ (display path cwd).toList) :
    x ∈ path.toList ∨ x = '.' ∨ x = '/' := by
  rw [display] at h
  split_ifs at h
  · cases h
  simp only [relativeTo] at h
  split_ifs at h
  · exact .inr (.inl (by simpa using h))
  rcases mem_intercalate h with rfl | ⟨part, hpart, hx⟩
  · exact .inr (.inr rfl)
  rcases List.mem_append.1 hpart with hup | hdown
  · rw [(List.mem_replicate.1 hup).2] at hx
    exact .inr (.inl (by simpa using hx))
  · rcases mem_absoluteParts (mem_of_mem_dropCommon hdown) with rfl | hnamed
    · exact .inr (.inr (by simpa using hx))
    · exact .inl (mem_of_mem_componentsIn hnamed hx)

end Path

/-! ## Numbers behind colons -/

/-- No whole number holds a colon. -/
theorem colon_not_mem_toString (i : Int) : ':' ∉ (toString i).toList := by
  intro h
  rcases Numeral.eq_or_isDigit_of_mem_toString h with h | h <;> exact absurd h (by decide)

/-- A text is cut at its last colon in one way. -/
theorem append_colon_inj {s s' t t' : String} (ht : ':' ∉ t.toList) (ht' : ':' ∉ t'.toList)
    (h : s ++ ":" ++ t = s' ++ ":" ++ t') : s = s' ∧ t = t' := by
  have hcut {as bs xs ys : List Char} (hxs : ':' ∉ xs) (h : as ++ ':' :: xs = bs ++ ':' :: ys) :
      bs.length ≤ as.length := by
    rcases List.append_eq_append_iff.1 h with ⟨more, rfl, hmore⟩ | ⟨more, rfl, -⟩
    · cases more with
      | nil => simp
      | cons c more =>
        rw [List.cons_append, List.cons.injEq] at hmore
        exact absurd (hmore.2 ▸ List.mem_append_right more List.mem_cons_self) hxs
    · simp
  have hlist : s.toList ++ ':' :: t.toList = s'.toList ++ ':' :: t'.toList := by
    simpa [String.toList_append] using congrArg String.toList h
  have hlength : s.toList.length = s'.toList.length :=
    Nat.le_antisymm (hcut ht' hlist.symm) (hcut ht hlist)
  obtain ⟨hs, hrest⟩ := List.append_inj hlist hlength
  exact ⟨String.toList_inj.1 hs, String.toList_inj.1 (List.cons.inj hrest).2⟩

namespace Location

open Retype.Path (IsNormalText)

/-- **One entry names one place.** From any directory two locations look the same
if and only if their paths and their starts are the same; and what is shown of a
path leads back to it. -/
theorem display_names_place {cwd : String} (hcwd : IsNormalText cwd) {l m : Location}
    (hl : IsNormalText l.path) (hm : IsNormalText m.path) :
    (l.display cwd = m.display cwd ↔
      l.path = m.path ∧ l.start.line = m.start.line ∧ l.start.column = m.start.column) ∧
    (Path.absolute (Path.parse cwd) (Path.parse (Path.display l.path cwd))).toText = l.path := by
  obtain ⟨dirs, hdirs⟩ := hcwd
  obtain ⟨parts, hparts⟩ := hl
  obtain ⟨parts', hparts'⟩ := hm
  refine ⟨⟨fun h => ?_, fun ⟨hpath, hline, hcolumn⟩ => ?_⟩, Path.absolute_display hdirs hparts⟩
  · obtain ⟨hrest, hcolumn⟩ :=
      append_colon_inj (colon_not_mem_toString _) (colon_not_mem_toString _) h
    obtain ⟨hpath, hline⟩ :=
      append_colon_inj (colon_not_mem_toString _) (colon_not_mem_toString _) hrest
    exact ⟨Path.display_inj hdirs hparts hparts' hpath, Numeral.toString_int_inj hline,
      Numeral.toString_int_inj hcolumn⟩
  · rw [display, display, hpath, hline, hcolumn]

/-- A path that ends in what looks like a line number, seen from beside its
directory. -/
theorem display_names_place_colon :
    let l : Location := ⟨"/repo/src/a.js:1", ⟨2, -3⟩, ⟨2, 0⟩⟩
    let m : Location := ⟨"/repo/src/a.js", ⟨1, 2⟩, ⟨1, 3⟩⟩
    IsNormalText "/repo/lib" ∧ IsNormalText l.path ∧ IsNormalText m.path ∧
      l.display "/repo/lib" = "../src/a.js:1:2:-3" ∧ l.display "/repo/lib" ≠ m.display "/repo/lib" ∧
      (Path.absolute (Path.parse "/repo/lib") (Path.parse "../src/a.js:1")).toText = l.path := by
  intro l m
  have hcwd : IsNormalText "/repo/lib" := ⟨["repo", "lib"], by decide +kernel⟩
  have hl : IsNormalText l.path := ⟨["repo", "src", "a.js:1"], by decide +kernel⟩
  have hm : IsNormalText m.path := ⟨["repo", "src", "a.js"], by decide +kernel⟩
  obtain ⟨hnames, hback⟩ := display_names_place hcwd hl hm
  have hshown : Path.display l.path "/repo/lib" = "../src/a.js:1" := by decide +kernel
  rw [hshown] at hback
  exact ⟨hcwd, hl, hm, by decide +kernel, fun hsame => absurd (hnames.1 hsame).1 (by decide), hback⟩

end Location

end Retype
