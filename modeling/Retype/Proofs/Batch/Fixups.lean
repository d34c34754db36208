import Retype.Batch.File
import Retype.Proofs.Text.Lines
import Mathlib.Data.List.TakeWhile
/-!
# What becomes of a printed text

Two things happen to a printed text. The first mark of the checker that a line
end follows is cut out, with the rest of its line and all line ends after it
(`dropHeader_cuts`), and the marks that silence the checker are exchanged from
left to right (`replaceFrom_exchanged`). Nothing else changes.

A header stands on a line of its own, below blank lines and comments. Nothing
looks whether the mark that is cut out does, so the law of the header holds of
the texts in which it does (`fixups_cuts_first`), and a mark inside of code
takes the code after it along (`mark_in_text_cut`).
-/

namespace Retype.Batch

/-! ## Exchanged patterns -/

/-- No occurrence of a pattern begins in a text that the pattern follows. -/
def FirstBehind (pattern before : List Char) : Prop := ¬ pattern <:+: before ++ pattern.dropLast

/-- Every occurrence of a pattern is exchanged, from left to right. -/
inductive Exchanged (old new : List Char) : List Char → List Char → Prop
  | none {s : List Char} (h : ¬ old <:+: s) : Exchanged old new s s
  | next {before rest rest' : List Char} (hfirst : FirstBehind old before)
      (hrest : Exchanged old new rest rest') :
      Exchanged old new (before ++ old ++ rest) (before ++ new ++ rest')

variable {old new s t : List Char}

theorem FirstBehind.nil (h : old ≠ []) : FirstBehind old [] := by
  intro hinfix
  have hle := hinfix.length_le
  have hpos := List.length_pos_iff.2 h
  rw [List.nil_append, List.length_dropLast] at hle
  omega

/-- One more character before the first occurrence, if none begins with it. -/
theorem FirstBehind.cons {before : List Char} {c : Char} (h : FirstBehind old before)
    (rest : List Char) (hc : ¬ old <+: c :: (before ++ old ++ rest)) :
    FirstBehind old (c :: before) := by
  intro hinfix
  rw [List.cons_append, List.infix_cons_iff] at hinfix
  refine hinfix.elim (fun hstarts => hc (hstarts.trans ?_)) h
  refine (List.prefix_cons_inj c).2 ?_
  rw [List.append_assoc]
  exact (List.prefix_append_right_inj before).2
    ((List.dropLast_prefix old).trans (List.prefix_append old rest))

namespace Exchanged

/-- One more character before, if no occurrence begins with it. -/
theorem cons {c : Char} (h : Exchanged old new s t) (hc : ¬ old <+: c :: s) :
    Exchanged old new (c :: s) (c :: t) := by
  cases h with
  | none h => exact .none fun hinfix => (List.infix_cons_iff.1 hinfix).elim hc h
  | next hfirst hrest => exact Exchanged.next (hfirst.cons _ hc) hrest

/-- A text without the pattern stays. -/
theorem eq_of_not_infix (h : Exchanged old new s t) (hs : ¬ old <:+: s) : t = s := by
  cases h with
  | none => rfl
  | next => exact absurd (List.infix_append _ _ _) hs

end Exchanged

theorem replaceFrom_skip (old new : List Char) (skip : Nat) (s : List Char) :
    replaceFrom old new skip s = replaceFrom old new 0 (s.drop skip) := by
  induction skip generalizing s with
  | zero => rfl
  | succ skip ih =>
    cases s with
    | nil => simp [replaceFrom]
    | cons c rest => exact ih rest

/-- Every occurrence of a pattern that is not empty is exchanged. -/
theorem replaceFrom_exchanged (h : old ≠ []) (s : List Char) :
    Exchanged old new s (replaceFrom old new 0 s) := by
  match s with
  | [] => exact .none fun hinfix => h (List.infix_nil.1 hinfix)
  | c :: rest =>
    rw [replaceFrom]
    split
    next hstarts =>
      obtain ⟨after, hafter⟩ := List.isPrefixOf_iff_prefix.1 hstarts
      have hdrop : rest.drop (old.length - 1) = after := by
        obtain ⟨d, old, rfl⟩ := List.exists_cons_of_ne_nil h
        obtain ⟨rfl, rfl⟩ := List.cons.inj hafter
        exact List.drop_left
      have hlt : after.length < (c :: rest).length := by
        have hpos := List.length_pos_iff.2 h
        rw [← hafter, List.length_append]
        omega
      rw [replaceFrom_skip, hdrop, ← hafter]
      exact .next (.nil h) (replaceFrom_exchanged h after)
    next hstarts =>
      exact (replaceFrom_exchanged h rest).cons fun hinfix =>
        hstarts (List.isPrefixOf_iff_prefix.2 hinfix)
termination_by s.length

/-! ## The stretch that is cut out -/

/-- A stretch of text, given what comes after it: the mark of the checker, the
rest of the line, and all line ends that follow. -/
inductive Stretch : List Char → List Char → Prop
  | intro {line ends after : List Char} (hline : '\n' ∉ line) (hsome : ends ≠ [])
      (hends : ∀ c ∈ ends, c = '\n') (hafter : ∀ c ∈ after.head?, c ≠ '\n') :
      Stretch (headerMark ++ line ++ ends) after

theorem Stretch.mark {stretch after : List Char} (h : Stretch stretch after) :
    ∃ tail, stretch = headerMark ++ tail := by
  obtain ⟨-, -, -, -⟩ := h
  exact ⟨_, List.append_assoc _ _ _⟩

/-- The first stretch of a text. -/
structure FirstStretch (s before stretch after : List Char) : Prop where
  text : s = before ++ stretch ++ after
  stretch : Stretch stretch after
  first : FirstBehind headerMark before

/-- No line end follows a mark of the checker. -/
def Unmarked (s : List Char) : Prop :=
  ∀ before rest, s = before ++ headerMark ++ rest → '\n' ∉ rest

/-- A text with a line end in it is the rest of a line, the line ends after it,
and what comes then. -/
theorem exists_line_ends {s more : List Char} (hmore : s.dropWhile (· ≠ '\n') = more)
    (hne : more ≠ []) :
    ∃ line ends, '\n' ∉ line ∧ ends ≠ [] ∧ (∀ c ∈ ends, c = '\n') ∧
      (∀ c ∈ (more.dropWhile (· = '\n')).head?, c ≠ '\n') ∧
      s = line ++ ends ++ more.dropWhile (· = '\n') := by
  refine ⟨s.takeWhile (· ≠ '\n'), more.takeWhile (· = '\n'), fun hmem => ?_, ?_, fun c hc => ?_,
    fun c hc => ?_, ?_⟩
  · simpa using List.mem_takeWhile_imp hmem
  · obtain ⟨c, rest, rfl⟩ := List.exists_cons_of_ne_nil hne
    have hhead := Text.head?_dropWhile (· ≠ '\n') s c (by rw [hmore]; rfl)
    obtain rfl : c = '\n' := by simpa using hhead
    simp
  · simpa using List.mem_takeWhile_imp hc
  · simpa using Text.head?_dropWhile _ _ c hc
  · rw [List.append_assoc, List.takeWhile_append_dropWhile, ← hmore,
      List.takeWhile_append_dropWhile]

theorem Stretch.of_mark {rest more : List Char} (hmore : rest.dropWhile (· ≠ '\n') = more)
    (hne : more ≠ []) :
    ∃ stretch, headerMark ++ rest = stretch ++ more.dropWhile (· = '\n') ∧
      Stretch stretch (more.dropWhile (· = '\n')) := by
  obtain ⟨line, ends, hline, hsome, hends, hafter, heq⟩ := exists_line_ends hmore hne
  refine ⟨headerMark ++ line ++ ends, ?_, .intro hline hsome hends hafter⟩
  rw [heq]
  simp only [List.append_assoc]

/-- **The first stretch is cut out**, if there is one. -/
theorem dropHeader_cuts (s : List Char) :
    (Unmarked s ∧ dropHeader s = s) ∨
      ∃ before stretch after, FirstStretch s before stretch after ∧
        dropHeader s = before ++ after := by
  have hmark : ∀ c ∈ headerMark, decide (c ≠ '\n') = true :=
    List.all_eq_true.1 (by decide +kernel)
  induction s with
  | nil =>
    refine .inl ⟨fun before rest h => ?_, rfl⟩
    obtain ⟨-, rfl⟩ := List.append_eq_nil_iff.1 h.symm
    exact List.not_mem_nil
  | cons c rest ih =>
    rw [dropHeader]
    split
    next hstarts =>
      obtain ⟨tail, htail⟩ := List.isPrefixOf_iff_prefix.1 hstarts
      -- the mark holds no line end, so its line goes on behind it
      have hdrop : rest.dropWhile (· ≠ '\n') = tail.dropWhile (· ≠ '\n') := by
        have hc : c ∈ headerMark := by
          obtain ⟨d, mark, heq⟩ : ∃ d mark, headerMark = d :: mark := ⟨_, _, rfl⟩
          rw [heq] at htail ⊢
          exact (List.cons.inj htail).1 ▸ List.mem_cons_self
        have hskip : (headerMark ++ tail).dropWhile (· ≠ '\n') = tail.dropWhile (· ≠ '\n') :=
          List.dropWhile_append_of_pos hmark
        rw [← hskip, htail]
        exact (List.dropWhile_cons_of_pos (p := (· ≠ '\n')) (hmark c hc)).symm
      rw [hdrop]
      split
      next hnil =>
        refine .inl ⟨fun before after h hmem => ?_, rfl⟩
        have hall : ∀ d ∈ tail, d ≠ '\n' := by simpa using List.dropWhile_eq_nil_iff.1 hnil
        have hsuffix : after <:+ headerMark ++ tail := ⟨before ++ headerMark, by rw [← h, htail]⟩
        rcases List.mem_append.1 (hsuffix.subset hmem) with hmem | hmem
        · simpa using hmark _ hmem
        · exact hall _ hmem rfl
      next hne =>
        obtain ⟨stretch, heq, hstretch⟩ :=
          Stretch.of_mark (Eq.refl (tail.dropWhile (· ≠ '\n'))) hne
        exact .inr ⟨[], stretch, _, ⟨htail.symm.trans heq, hstretch, .nil (by decide)⟩, rfl⟩
    next hstarts =>
      have hc : ¬ headerMark <+: c :: rest := fun h => hstarts (List.isPrefixOf_iff_prefix.2 h)
      -- no mark begins at this character, so the first one is that of the rest
      rcases ih with ⟨hnone, heq⟩ | ⟨before, stretch, after, ⟨htext, hstretch, hfirst⟩, heq⟩
      · refine .inl ⟨fun before more h => ?_, by rw [heq]⟩
        cases before with
        | nil => exact absurd ⟨more, h.symm⟩ hc
        | cons d before => exact hnone before more (List.cons.inj h).2
      · refine .inr ⟨c :: before, stretch, after, ⟨?_, hstretch, ?_⟩, by rw [heq]; rfl⟩
        · rw [htext]
          rfl
        obtain ⟨tail, htail⟩ := hstretch.mark
        refine hfirst.cons (tail ++ after) ?_
        rwa [htext, htail, ← List.append_assoc before, List.append_assoc _ tail] at hc

/-! ## The law of the header -/

/-- Blank lines and comments, all of them ended. -/
inductive Preamble : List Char → Prop
  | nil : Preamble []
  | line {line rest : List Char} (hline : '\n' ∉ line)
      (hkind : (∀ c ∈ line, isBlank c = true) ∨ ['/', '/'] <+: line) (hrest : Preamble rest) :
      Preamble (line ++ '\n' :: rest)

/-- A text without its header, if it has lost one: a stretch that only blank
lines and comments stand before. -/
def LosesHeader (s kept : List Char) : Prop :=
  kept = s ∨ ∃ before stretch after, s = before ++ stretch ++ after ∧ Stretch stretch after ∧
    Preamble before ∧ kept = before ++ after

/-- Nothing but a header is lost, and nothing but the marks that silence the
checker is exchanged. -/
def TouchesHeaderOnly (s t : String) : Prop :=
  ∃ kept, LosesHeader s.toList kept ∧ Exchanged checkerSilencer compilerSilencer kept t.toList

/-- **The first stretch is cut out of a text, wherever it stands**, and only
marks that silence the checker are exchanged in what is left. So the law of the
header holds of every text whose first stretch, if there is one, has nothing
but blank lines and comments before it. -/
theorem fixups_cuts_first (s : String) :
    (∃ kept, Exchanged checkerSilencer compilerSilencer kept (fixups s).toList ∧
      ((Unmarked s.toList ∧ kept = s.toList) ∨
        ∃ before stretch after, FirstStretch s.toList before stretch after ∧
          kept = before ++ after)) ∧
    ((∀ before stretch after, FirstStretch s.toList before stretch after → Preamble before) →
      TouchesHeaderOnly s (fixups s)) := by
  have hexchanged : Exchanged checkerSilencer compilerSilencer (dropHeader s.toList)
      (fixups s).toList := by
    rw [fixups, String.toList_ofList]
    exact replaceFrom_exchanged (by decide) _
  have hcuts := dropHeader_cuts s.toList
  refine ⟨⟨_, hexchanged, hcuts⟩, fun hheader => ⟨_, ?_, hexchanged⟩⟩
  rcases hcuts with ⟨-, heq⟩ | ⟨before, stretch, after, hfirst, heq⟩
  · exact .inl heq
  · exact .inr ⟨before, stretch, after, hfirst.text, hfirst.stretch, hheader _ _ _ hfirst, heq⟩

/-- A header after a comment. -/
def headed : String := "// a\n// @flow strict\n\nf();\n"

/-- There is one mark in the text, behind the comment. -/
theorem before_headed {before stretch after : List Char}
    (h : FirstStretch headed.toList before stretch after) : before = "// a\n".toList := by
  have hplaces : ∀ n ∈ List.range headed.toList.length,
      (!headerMark.isPrefixOf (headed.toList.drop n) || n == 5) = true :=
    List.all_eq_true.1 (by decide +kernel)
  obtain ⟨tail, htail⟩ := h.stretch.mark
  have htext : headed.toList = before ++ (headerMark ++ (tail ++ after)) := by
    rw [h.text, htail]
    simp only [List.append_assoc]
  have hshort : before.length < headed.toList.length := by
    have hmark : 0 < headerMark.length := by decide +kernel
    rw [htext]
    simp only [List.length_append]
    omega
  have hplace := hplaces _ (List.mem_range.2 hshort)
  have hstart : headerMark.isPrefixOf (headed.toList.drop before.length) = true := by
    rw [htext, List.drop_left]
    exact List.isPrefixOf_iff_prefix.2 (List.prefix_append ..)
  rw [hstart] at hplace
  have hlength : before.length = 5 := by simpa using hplace
  have htake : headed.toList.take before.length = before := by rw [htext, List.take_left]
  rw [← htake, hlength]
  decide +kernel

/-- The header is cut, and the comment before it stays. -/
theorem fixups_cuts_first_headed : fixups headed = "// a\nf();\n" ∧
    (∀ before stretch after, FirstStretch headed.toList before stretch after → Preamble before) ∧
    TouchesHeaderOnly headed (fixups headed) := by
  have hpreamble : Preamble ("// a".toList ++ '\n' :: []) :=
    .line (by decide +kernel) (.inr ⟨[' ', 'a'], by decide +kernel⟩) .nil
  have hheader : ∀ before stretch after, FirstStretch headed.toList before stretch after →
      Preamble before := fun before stretch after h => by
    rw [before_headed h]
    exact hpreamble
  exact ⟨by decide +kernel, hheader, (fixups_cuts_first headed).2 hheader⟩

/-- The first character of a header, or of what stands before it. -/
theorem Preamble.head {before : List Char} (h : Preamble before) :
    ∀ c ∈ before.head?, c = '/' ∨ isBlank c = true := by
  cases h with
  | nil => exact nofun
  | @line line rest _ hkind _ =>
    cases line with
    | nil =>
      rintro c ⟨⟩
      exact .inr (by decide)
    | cons d line =>
      rintro c ⟨⟩
      refine (hkind.imp (fun hblank => hblank d List.mem_cons_self) fun hcomment => ?_).symm
      obtain ⟨tail, htail⟩ := hcomment
      exact (List.cons.inj htail).1.symm

/-- A text that begins with neither a slash nor a blank has no header. -/
theorem LosesHeader.eq_of_head {s kept : List Char} (h : LosesHeader s kept) {c : Char}
    (hc : c ∈ s.head?) (hslash : c ≠ '/') (hblank : isBlank c = false) : kept = s := by
  refine h.resolve_right ?_
  rintro ⟨before, stretch, after, rfl, hstretch, hbefore, -⟩
  have hhead : c = '/' ∨ isBlank c = true := by
    cases before with
    | nil =>
      obtain ⟨tail, rfl⟩ := hstretch.mark
      have hmark : headerMark.head? = some '/' := by decide +kernel
      exact .inl (Option.some.inj (hmark.symm.trans hc)).symm
    | cons d before => exact hbefore.head c hc
  rcases hhead with rfl | htrue
  · exact hslash rfl
  · rw [hblank] at htrue
    cases htrue

/-- A mark inside a text of the code is taken for a header, and the rest of its
line is lost. -/
theorem mark_in_text_cut :
    fixups "const s = \"// @flow\";\nf(s);\n" = "const s = \"f(s);\n" ∧
      ¬ TouchesHeaderOnly "const s = \"// @flow\";\nf(s);\n"
        (fixups "const s = \"// @flow\";\nf(s);\n") := by
  have hcut : fixups "const s = \"// @flow\";\nf(s);\n" = "const s = \"f(s);\n" := by decide +kernel
  refine ⟨hcut, ?_⟩
  rintro ⟨kept, hkept, hexchanged⟩
  -- the text has no header, and no mark to be exchanged, so it would have to be the same
  obtain rfl := hkept.eq_of_head (c := 'c') (by decide +kernel) (by decide) (by decide)
  have hsame := hexchanged.eq_of_not_infix (by decide +kernel)
  rw [hcut] at hsame
  exact absurd hsame (by decide +kernel)

end Retype.Batch
