import Retype.Text.Blank
/-!
# Trimming and lines

Trimming leaves a list as it is just if neither end satisfies the condition
(`trimList_eq_self_iff`), so trimming twice is trimming once. Texts that end no
line, written one on each line, are the lines of what was written
(`lines_unlines`).
-/

namespace Retype.Text

section
variable {α : Type} {p : α → Bool} {xs : List α}

/-- Neither end of a list satisfies a condition. -/
structure Trimmed (p : α → Bool) (xs : List α) : Prop where
  first : ∀ x ∈ xs.head?, p x = false
  last : ∀ x ∈ xs.getLast?, p x = false

theorem dropWhile_of_head? (h : ∀ x ∈ xs.head?, p x = false) : xs.dropWhile p = xs := by
  cases xs with
  | nil => rfl
  | cons x xs => exact List.dropWhile_cons_of_neg (by simp [h x rfl])

theorem head?_dropWhile (p : α → Bool) (xs : List α) :
    ∀ x ∈ (xs.dropWhile p).head?, p x = false := by
  intro x hx
  have hhead := List.head?_dropWhile_not p xs
  rw [Option.mem_def.1 hx] at hhead
  exact hhead

/-- What is left has lost its ends. -/
theorem trimmed_trimList (p : α → Bool) (xs : List α) : Trimmed p (trimList p xs) := by
  constructor
  · intro x hx
    have hfront : trimList p xs <+: xs.dropWhile p :=
      List.reverse_suffix.1 (by rw [trimList, List.reverse_reverse]; exact List.dropWhile_suffix p)
    obtain ⟨rest, hrest⟩ := hfront
    refine head?_dropWhile p xs x ?_
    rw [← hrest, List.head?_append, Option.mem_def.1 hx]
    rfl
  · rw [trimList, List.getLast?_reverse]
    exact head?_dropWhile p _

theorem trimList_of_trimmed (h : Trimmed p xs) : trimList p xs = xs := by
  have hlast : xs.reverse.dropWhile p = xs.reverse :=
    dropWhile_of_head? (by rw [List.head?_reverse]; exact h.last)
  rw [trimList, dropWhile_of_head? h.first, hlast, List.reverse_reverse]

theorem trimList_eq_self_iff : trimList p xs = xs ↔ Trimmed p xs :=
  ⟨fun h => h ▸ trimmed_trimList p xs, trimList_of_trimmed⟩

theorem trimList_trimList (p : α → Bool) (xs : List α) :
    trimList p (trimList p xs) = trimList p xs := trimList_of_trimmed (trimmed_trimList p xs)

theorem mem_of_mem_trimList {x : α} (h : x ∈ trimList p xs) : x ∈ xs :=
  (List.dropWhile_subset p) (List.mem_reverse.1 ((List.dropWhile_subset p) (List.mem_reverse.1 h)))

end

theorem trim_trim (s : String) : trim (trim s) = trim s := by
  rw [trim, trim, String.toList_ofList, trimList_trimList]

theorem trim_eq_self_iff {s : String} : trim s = s ↔ Trimmed isBlank s.toList := by
  rw [trim, ← trimList_eq_self_iff, ← String.toList_inj, String.toList_ofList]

/-! ## Lines -/

/-- Texts, each on a line. -/
def unlines (texts : List String) : String :=
  String.ofList (texts.flatMap fun text => text.toList ++ ['\n'])

theorem linesList_of_not_endsLine {c : Char} (hc : endsLine c = false) {rest line : List Char}
    {more : List (List Char)} (h : linesList rest = line :: more) :
    linesList (c :: rest) = (c :: line) :: more := by
  rw [linesList]
  · rw [hc, h]
    rfl
  · rintro tail rfl
    cases hc

theorem linesList_append {cs : List Char} (h : ∀ c ∈ cs, endsLine c = false) (rest : List Char) :
    linesList (cs ++ '\n' :: rest) = cs :: linesList rest := by
  induction cs with
  | nil =>
    rw [List.nil_append, linesList]
    · rfl
    · rintro tail ⟨⟩
  | cons c cs ih =>
    rw [List.forall_mem_cons] at h
    exact linesList_of_not_endsLine h.1 (ih h.2)

/-- **Texts that end no line are read back from their lines.** -/
theorem lines_unlines {texts : List String}
    (h : ∀ text ∈ texts, ∀ c ∈ text.toList, endsLine c = false) :
    lines (unlines texts) = texts := by
  rw [lines, unlines, String.toList_ofList]
  induction texts with
  | nil => rfl
  | cons text rest ih =>
    rw [List.forall_mem_cons] at h
    rw [List.flatMap_cons, List.append_assoc, List.singleton_append, linesList_append h.1,
      List.map_cons, ih h.2, String.ofList_toList]

end Retype.Text
