import Retype.Inference.Answer
import Retype.Proofs.Text.Lines
import Mathlib.Data.List.TakeWhile
/-!
# The type in an answer

An answer is a type, perhaps a remark after it on the same line, and perhaps
further lines. Of these the type is taken, if it is known and short enough
(`sanitize_takes`): the first line ends where the type and the remark end
(`firstLine_append`), and one remark is dropped from the end of it
(`dropQualifier_append`). A remark inside a type stays, and so does all but the
last of several remarks.
-/

namespace Retype.Inference

/-- Nothing more stands on a line: what comes after it is empty or begins with
a line feed. -/
def LeavesLine (rest : String) : Prop := ∀ c ∈ rest.toList.head?, c = '\n'

/-! ## The first line -/

theorem firstLine_append {line rest : List Char} (hline : '\n' ∉ line)
    (hrest : ∀ c ∈ rest.head?, c = '\n') : (line ++ rest).takeWhile (· ≠ '\n') = line := by
  have hall : ∀ c ∈ line, decide (c ≠ '\n') = true :=
    fun c hc => decide_eq_true fun heq => hline (heq ▸ hc)
  rw [List.takeWhile_append_of_pos hall]
  cases rest with
  | nil => exact List.append_nil line
  | cons c rest =>
    obtain rfl : c = '\n' := hrest c rfl
    exact List.append_nil line

theorem not_mem_firstLine (cs : List Char) : '\n' ∉ cs.takeWhile (· ≠ '\n') := by
  intro hmem
  simpa using List.mem_takeWhile_imp hmem

/-! ## The remark -/

theorem dropQualifier_of_not_suffix {line : List Char} (h : ∀ q ∈ qualifiers, ¬ q <:+ line) :
    dropQualifier line = line := by
  have hnone : qualifiers.find? (·.isSuffixOf line) = none :=
    List.find?_eq_none.2 fun q hq hsuffix => h q hq (List.isSuffixOf_iff_suffix.1 hsuffix)
  rw [dropQualifier, hnone]

/-- Remarks are of one length, so no two of them end the same line. -/
theorem eq_of_suffix {line q q' : List Char} (hq : q ∈ qualifiers) (hq' : q' ∈ qualifiers)
    (h : q <:+ line) (h' : q' <:+ line) : q = q' := by
  have hlength : ∀ p ∈ qualifiers, p.length = 11 := by decide
  exact (List.suffix_of_suffix_length_le h h' (by rw [hlength q hq, hlength q' hq'])).eq_of_length
    (by rw [hlength q hq, hlength q' hq'])

theorem dropQualifier_append (text : List Char) {q : List Char} (hq : q ∈ qualifiers) :
    dropQualifier (text ++ q) = text := by
  rw [dropQualifier]
  split
  next q' hfound =>
    have hsuffix : q' <:+ text ++ q :=
      List.isSuffixOf_iff_suffix.1 (by simpa using List.find?_some hfound)
    obtain rfl := eq_of_suffix (List.mem_of_find?_eq_some hfound) hq hsuffix
      (List.suffix_append text q)
    rw [List.length_append, Nat.add_sub_cancel, List.take_left]
  next hnone =>
    exact absurd (List.isSuffixOf_iff_suffix.2 (List.suffix_append text q))
      (List.find?_eq_none.1 hnone q hq)

/-- A line is what is left of it, and one remark or none. -/
theorem exists_dropQualifier_append (line : List Char) :
    ∃ q ∈ [] :: qualifiers, line = dropQualifier line ++ q := by
  by_cases h : ∃ q ∈ qualifiers, q <:+ line
  · obtain ⟨q, hq, text, rfl⟩ := h
    exact ⟨q, List.mem_cons_of_mem _ hq, by rw [dropQualifier_append text hq]⟩
  · rw [dropQualifier_of_not_suffix fun q hq hsuffix => h ⟨q, hq, hsuffix⟩]
    exact ⟨[], List.mem_cons_self, (List.append_nil line).symm⟩

/-! ## What is taken -/

theorem sanitize_of_text (maxLength : Int) {output type : String}
    (h : dropQualifier (output.toList.takeWhile (· ≠ '\n')) = type.toList) :
    sanitize maxLength output =
      if type ≠ "(unknown)" ∧ (type.length : Int) < maxLength then some type else none := by
  have hunknown : type.toList = "(unknown)".toList ↔ type = "(unknown)" := String.toList_inj
  simp only [sanitize, h, hunknown, String.length_toList, String.ofList_toList]
  by_cases hknown : type = "(unknown)"
  · simp [hknown]
  · rcases Int.lt_or_le (type.length : Int) maxLength with hshort | hlong
    · simp [hknown, hshort, Int.not_le.2 hshort]
    · simp [hknown, hlong, Int.not_lt.2 hlong]

/-- **The type is taken from an answer.** It is found again whatever remark and
whatever lines follow it, unless it is unknown or too long. Whatever the answer,
what is taken is at the front of the first line, is known, and is short enough;
what follows it is one remark or none, and further lines. -/
theorem sanitize_takes (maxLength : Int) :
    (∀ type remark rest : String, '\n' ∉ type.toList →
      (∀ q ∈ [" (implicit)", " (explicit)"], ¬ q.toList <:+ type.toList) →
      remark ∈ ["", " (implicit)", " (explicit)"] → LeavesLine rest →
      sanitize maxLength (type ++ remark ++ rest) =
        if type ≠ "(unknown)" ∧ (type.length : Int) < maxLength then some type else none) ∧
    ∀ output type : String, sanitize maxLength output = some type →
      '\n' ∉ type.toList ∧ (type.length : Int) < maxLength ∧ type ≠ "(unknown)" ∧
        type.toList <+: output.toList.takeWhile (· ≠ '\n') ∧
        ∃ remark ∈ ["", " (implicit)", " (explicit)"], ∃ rest, LeavesLine rest ∧
          output = type ++ remark ++ rest := by
  constructor
  · intro type remark rest htype hends hremark hrest
    have hline : '\n' ∉ (type ++ remark).toList := by
      have hnone : ∀ q ∈ ["", " (implicit)", " (explicit)"], '\n' ∉ q.toList := by decide
      rw [String.toList_append, List.mem_append, not_or]
      exact ⟨htype, hnone remark hremark⟩
    refine sanitize_of_text maxLength ?_
    -- the first line is the type with its remark, of which the remark is dropped
    rw [String.toList_append, firstLine_append hline hrest, String.toList_append]
    rcases List.mem_cons.1 hremark with rfl | hremark
    · rw [String.toList_empty, List.append_nil]
      refine dropQualifier_of_not_suffix fun q hq => ?_
      obtain ⟨remark, hremark, rfl⟩ :
          ∃ remark ∈ [" (implicit)", " (explicit)"], remark.toList = q := List.mem_map.1 hq
      exact hends remark hremark
    · exact dropQualifier_append _ (List.mem_map_of_mem hremark)
  · intro output type h
    obtain ⟨remark, hremark, hline⟩ :=
      exists_dropQualifier_append (output.toList.takeWhile (· ≠ '\n'))
    rw [sanitize_of_text maxLength (String.toList_ofList).symm] at h
    -- the answer is put together again from what is taken, the remark, and what is
    -- behind the first line
    split at h
    next hgood =>
      obtain rfl := Option.some.inj h
      rw [String.toList_ofList]
      refine ⟨fun hmem => not_mem_firstLine output.toList ?_, hgood.2, hgood.1,
        ⟨remark, hline.symm⟩, String.ofList remark, ?_,
        String.ofList (output.toList.dropWhile (· ≠ '\n')), ?_, ?_⟩
      · rw [hline]
        exact List.mem_append_left _ hmem
      · have hofList : ∀ q ∈ [] :: qualifiers,
            String.ofList q ∈ ["", " (implicit)", " (explicit)"] := by decide
        exact hofList remark hremark
      · intro c hc
        rw [String.toList_ofList] at hc
        simpa using Text.head?_dropWhile _ _ c hc
      · rw [← String.toList_inj]
        simp only [String.toList_append, String.toList_ofList]
        rw [← hline, List.takeWhile_append_dropWhile]
    next => cases h

/-- A remark after a type with one inside it; the limit is one above its length. -/
example : sanitize 26 "(x: a (implicit)) => void (explicit)\na.js:1:2\n" =
    some "(x: a (implicit)) => void" := by decide

end Retype.Inference
