import Mathlib.Tactic.SplitIfs
import Retype.Json.Reader
/-!
# How far a reading of JSON goes

A reading takes characters off the front of a text, so that what it leaves is
the end of that text. It refuses a whole number for its many digits only where
they stand in the text. Both are one statement about a reading, `ReadsWithin`, with
a rule for readings that follow one another (`ReadsWithin.bind`); each reader is
made of such readings. The statement says which characters numbers are made of, so it
is one about the readings of other texts too.
-/

namespace Retype

/-- Somewhere in a text stands a stretch of characters of some sort with more digits than a
whole number may have. -/
def HasLongRun (inRun : Char → Bool) (cs : List Char) : Prop :=
  ∃ run, run <:+: cs ∧ (∀ c ∈ run, inRun c) ∧ Numeral.maxDigits < run.countP Char.isDigit

/-- A text around a text with a long run has that run. -/
theorem HasLongRun.mono {inRun : Char → Bool} {cs cs' : List Char} (h : HasLongRun inRun cs)
    (hin : cs <:+: cs') : HasLongRun inRun cs' := by
  obtain ⟨run, hrun, hdigits, hlong⟩ := h
  exact ⟨run, hrun.trans hin, hdigits, hlong⟩

/-- **A reading that stays within a text**: what it leaves is the end of the
text, and it finds too many digits only where there is a long run of them. -/
def ReadsWithin (inRun : Char → Bool) {α : Type} (cs : List Char) :
    Except ReadFailure (α × List Char) → Prop
  | .ok (_, after) => after <:+ cs
  | .error .tooManyDigits => HasLongRun inRun cs
  | .error .malformed => True

namespace ReadsWithin

variable {α β γ : Type} {inRun : Char → Bool} {cs cs' : List Char}

/-- A value that is read leaves a rest of the text. -/
theorem ok {a : α} {after : List Char} (h : after <:+ cs) :
    ReadsWithin inRun cs (.ok (a, after) : Except ReadFailure (α × List Char)) := h

/-- A text that is malformed leaves nothing to say. -/
theorem malformed :
    ReadsWithin inRun cs (.error .malformed : Except ReadFailure (α × List Char)) := trivial

/-- What is read within a rest is read within the whole. -/
theorem of_suffix {r : Except ReadFailure (α × List Char)} (h : ReadsWithin inRun cs r)
    (hin : cs <:+ cs') : ReadsWithin inRun cs' r := by
  match r, h with
  | .ok (_, after), h => exact List.IsSuffix.trans h hin
  | .error .tooManyDigits, h => exact HasLongRun.mono h hin.isInfix
  | .error .malformed, _ => exact malformed

/-- **One reading after another**: the second one is within what the first one
leaves. -/
theorem bind {r : Except ReadFailure (α × List Char)}
    {f : α × List Char → Except ReadFailure (β × List Char)} (h : ReadsWithin inRun cs r)
    (hf : ∀ a after, after <:+ cs → ReadsWithin inRun after (f (a, after))) :
    ReadsWithin inRun cs (r >>= f) := by
  match r, h with
  | .ok (a, after), h => exact (hf a after h).of_suffix h
  | .error .tooManyDigits, h => exact h
  | .error .malformed, _ => exact malformed

/-- A reading without reasons is within a text if it leaves the end of it. -/
theorem orMalformed {r : Option (α × List Char)}
    (h : ∀ a after, r = some (a, after) → after <:+ cs) :
    ReadsWithin inRun cs (Retype.orMalformed r) := by
  match r, h with
  | some (a, after), h => exact h a after rfl
  | none, _ => exact malformed

end ReadsWithin

namespace Json

/-- Somewhere in a text stand more digits than a whole number may have. -/
def LongRun (cs : List Char) : Prop :=
  ∃ run, run <:+: cs ∧ (∀ c ∈ run, c.isDigit) ∧ Numeral.maxDigits < run.length

/-- A long run of digits is one in the text. -/
theorem longRun_of_hasLongRun {cs : List Char} (h : HasLongRun Char.isDigit cs) : LongRun cs := by
  obtain ⟨run, hrun, hdigits, hlong⟩ := h
  exact ⟨run, hrun, hdigits, Nat.lt_of_lt_of_le hlong List.countP_le_length⟩

/-- Blanks are skipped in front. -/
theorem skipSpace_suffix (cs : List Char) : skipSpace cs <:+ cs := List.dropWhile_suffix _

/-- The end of what stands behind blanks and one more character. -/
theorem suffix_of_skipSpace {c : Char} {cs more : List Char} (h : skipSpace cs = c :: more) :
    skipSpace more <:+ cs :=
  (skipSpace_suffix more).trans ((List.suffix_cons c more).trans (h ▸ skipSpace_suffix cs))

/-- What follows the first character after them is a rest. -/
theorem suffix_of_skipSpace_cons {c : Char} {cs more : List Char} (h : skipSpace cs = c :: more) :
    more <:+ cs :=
  (List.suffix_cons c more).trans (h ▸ skipSpace_suffix cs)

/-! ## Text -/

/-- So is what follows a code unit. -/
theorem readUnit_suffix {cs after : List Char} {n : Nat} (h : readUnit cs = some (n, after)) :
    after <:+ cs := by
  unfold readUnit at h
  split at h
  · rename_i a b c d rest
    simp only [Option.bind_eq_bind, Option.bind_eq_some_iff, Option.pure_def, Option.some.injEq,
      Prod.mk.injEq] at h
    obtain ⟨_, _, _, _, _, _, _, _, _, rfl⟩ := h
    exact ⟨[a, b, c, d], rfl⟩
  · cases h

/-- So is what follows an escaped character. -/
theorem readCodeEscape_suffix {cs after : List Char} {c : Char}
    (h : readCodeEscape cs = some (c, after)) : after <:+ cs := by
  unfold readCodeEscape at h
  obtain ⟨⟨n, rest⟩, hunit, h⟩ := Option.bind_eq_some_iff.1 h
  have hrest : rest <:+ cs := readUnit_suffix hunit
  dsimp only at h
  split_ifs at h
  · split at h
    · split at h
      · rename_i hmore
        split_ifs at h
        · obtain ⟨-, rfl⟩ := Prod.mk.inj (Option.some.inj h)
          refine List.IsSuffix.trans (readUnit_suffix hmore) (List.IsSuffix.trans ?_ hrest)
          exact ⟨['\\', 'u'], rfl⟩
        · obtain ⟨-, rfl⟩ := Prod.mk.inj (Option.some.inj h)
          exact hrest
      · obtain ⟨-, rfl⟩ := Prod.mk.inj (Option.some.inj h)
        exact hrest
    · obtain ⟨-, rfl⟩ := Prod.mk.inj (Option.some.inj h)
      exact hrest
  · obtain ⟨-, rfl⟩ := Prod.mk.inj (Option.some.inj h)
    exact hrest
  · obtain ⟨-, rfl⟩ := Prod.mk.inj (Option.some.inj h)
    exact hrest

/-- So is what follows a text. -/
theorem readText_suffix {fuel : Nat} {cs text after : List Char}
    (h : readText fuel cs = some (text, after)) : after <:+ cs := by
  induction fuel generalizing cs text with
  | zero => cases h
  | succ fuel ih =>
    cases cs with
    | nil => cases h
    | cons c rest =>
      simp only [readText, Option.bind_eq_bind, Option.pure_def] at h
      split_ifs at h with hquote hescape hcontrol
      · obtain ⟨-, rfl⟩ := Prod.mk.inj (Option.some.inj h)
        exact List.suffix_cons c rest
      · cases rest with
        | nil => cases h
        | cons e more =>
          have hmore : more <:+ c :: e :: more := ⟨[c, e], rfl⟩
          simp only at h
          split_ifs at h
          · obtain ⟨⟨x, mid⟩, hcode, h⟩ := Option.bind_eq_some_iff.1 h
            obtain ⟨⟨xs, last⟩, htext, h⟩ := Option.bind_eq_some_iff.1 h
            obtain ⟨-, rfl⟩ := Prod.mk.inj (Option.some.inj h)
            exact (ih htext).trans ((readCodeEscape_suffix hcode).trans hmore)
          · obtain ⟨x, -, h⟩ := Option.bind_eq_some_iff.1 h
            obtain ⟨⟨xs, last⟩, htext, h⟩ := Option.bind_eq_some_iff.1 h
            obtain ⟨-, rfl⟩ := Prod.mk.inj (Option.some.inj h)
            exact (ih htext).trans hmore
      · obtain ⟨⟨xs, last⟩, htext, h⟩ := Option.bind_eq_some_iff.1 h
        obtain ⟨-, rfl⟩ := Prod.mk.inj (Option.some.inj h)
        exact (ih htext).trans (List.suffix_cons c rest)

/-! ## Numbers and names -/

/-- So is what follows a word. -/
theorem after?_suffix {word cs after : List Char} (h : after? word cs = some after) :
    after <:+ cs := by
  fun_induction after? word cs with
  | case1 cs => exact Option.some.inj h ▸ List.suffix_refl cs
  | case2 => cases h
  | case3 ws c cs ih => exact (ih h).trans (List.suffix_cons c cs)
  | case4 => cases h

/-- A fraction leaves a rest, even if there is none. -/
theorem readFraction_suffix (cs : List Char) : (readFraction cs).2 <:+ cs := by
  unfold readFraction
  split
  · rename_i more
    dsimp only
    split_ifs
    · exact List.suffix_refl _
    · exact (List.dropWhile_suffix _).trans (List.suffix_cons '.' more)
  · exact List.suffix_refl cs

/-- So does a sign. -/
theorem sign_suffix (cs : List Char) : (Numeral.sign cs).2 <:+ cs := by
  unfold Numeral.sign
  split
  · exact List.suffix_cons _ _
  · exact List.suffix_cons _ _
  · exact List.suffix_refl _

/-- So does an exponent. -/
theorem readExponent_suffix (cs : List Char) : (readExponent cs).2 <:+ cs := by
  unfold readExponent
  split
  · rename_i e more
    have hdigits : (Numeral.sign more).2.dropWhile Char.isDigit <:+ e :: more :=
      (List.dropWhile_suffix _).trans ((sign_suffix more).trans (List.suffix_cons e more))
    dsimp only
    split_ifs
    all_goals first | exact hdigits | exact List.suffix_refl _
  · exact List.suffix_refl _

/-- The digits of a whole number stand at the front of it. -/
theorem longRun_of_wholeOfDigits {negative : Bool} {cs : List Char}
    (h : wholeOfDigits negative (cs.takeWhile Char.isDigit) = .error .tooManyDigits) :
    HasLongRun Char.isDigit cs := by
  unfold wholeOfDigits at h
  split_ifs at h with hlong
  have hdigits : ∀ c ∈ cs.takeWhile Char.isDigit, c.isDigit :=
    fun c hc => List.all_eq_true.1 List.all_takeWhile c hc
  rw [← List.countP_eq_length.2 hdigits] at hlong
  exact ⟨_, (List.takeWhile_prefix Char.isDigit).isInfix, hdigits, hlong⟩

/-- A magnitude is read within the text, or has a long run of digits. -/
theorem readMagnitude_within (negative : Bool) (cs : List Char) :
    ReadsWithin Char.isDigit cs (readMagnitude negative cs) := by
  unfold readMagnitude
  dsimp only
  generalize hwhole : (if (cs.takeWhile Char.isDigit).head? = some '0' then ['0']
    else cs.takeWhile Char.isDigit) = whole
  have hrest : (readExponent (readFraction (cs.drop whole.length)).2).2 <:+ cs :=
    (readExponent_suffix _).trans ((readFraction_suffix _).trans (List.drop_suffix _ cs))
  split_ifs
  · exact ReadsWithin.malformed
  · cases hn : wholeOfDigits negative whole with
    | ok n => exact ReadsWithin.ok hrest
    | error e =>
      cases e with
      | malformed => exact ReadsWithin.malformed
      | tooManyDigits =>
        -- a single zero is not too long, so these are all the digits in front
        split_ifs at hwhole
        · subst hwhole
          exact absurd hn (by simp [wholeOfDigits, Numeral.maxDigits])
        · exact longRun_of_wholeOfDigits (hwhole ▸ hn)
  · exact ReadsWithin.ok hrest

/-- So is a number. -/
theorem readNumber_within (cs : List Char) : ReadsWithin Char.isDigit cs (readNumber cs) := by
  unfold readNumber
  split
  · rename_i rest
    have hrest : rest <:+ '-' :: rest := List.suffix_cons '-' rest
    split
    · rename_i after hafter
      exact ReadsWithin.ok ((after?_suffix hafter).trans hrest)
    · exact (readMagnitude_within true rest).of_suffix hrest
  · exact readMagnitude_within false cs

/-- What follows a named value is a rest. -/
theorem readNamed_suffix {cs after : List Char} {v : Json} (h : readNamed cs = some (v, after)) :
    after <:+ cs := by
  obtain ⟨⟨name, w⟩, -, hname⟩ := List.exists_of_findSome?_eq_some h
  obtain ⟨rest, hrest, heq⟩ := Option.map_eq_some_iff.1 hname
  obtain ⟨-, rfl⟩ := Prod.mk.inj heq
  exact after?_suffix hrest

/-- A scalar is read within the text. -/
theorem readScalar_within (cs : List Char) : ReadsWithin Char.isDigit cs (readScalar cs) := by
  unfold readScalar
  split
  · rename_i rest
    have hrest : rest <:+ '"' :: rest := List.suffix_cons '"' rest
    refine ReadsWithin.bind (ReadsWithin.orMalformed fun text after h => ?_) fun text after _ => ?_
    · exact (readText_suffix h).trans hrest
    · exact ReadsWithin.ok (List.suffix_refl after)
  · split
    · rename_i named hnamed
      exact ReadsWithin.ok (readNamed_suffix hnamed)
    · exact readNumber_within cs

/-! ## Values -/

/-- What holds of the three readers of values at some fuel. -/
structure ValuesWithin (fuel : Nat) : Prop where
  value : ∀ cs, ReadsWithin Char.isDigit cs (readValue fuel cs)
  items : ∀ cs, ReadsWithin Char.isDigit cs (readItems fuel cs)
  entries : ∀ entries cs, ReadsWithin Char.isDigit cs (readEntries fuel entries cs)

/-- So is a value, if the values in it are. -/
theorem readValue_succ_within {fuel : Nat} (h : ValuesWithin fuel) (cs : List Char) :
    ReadsWithin Char.isDigit cs (readValue (fuel + 1) cs) := by
  cases cs with
  | nil => exact ReadsWithin.malformed
  | cons c rest =>
    have hrest : skipSpace rest <:+ c :: rest :=
      (skipSpace_suffix rest).trans (List.suffix_cons c rest)
    rw [readValue]
    split_ifs
    · split
      · rename_i after hafter
        exact ReadsWithin.ok ((suffix_of_skipSpace_cons hafter).trans (List.suffix_cons c rest))
      · refine ReadsWithin.bind ((h.items _).of_suffix hrest) fun items after _ => ?_
        exact ReadsWithin.ok (List.suffix_refl after)
    · split
      · rename_i after hafter
        exact ReadsWithin.ok ((suffix_of_skipSpace_cons hafter).trans (List.suffix_cons c rest))
      · refine ReadsWithin.bind ((h.entries [] _).of_suffix hrest) fun entries after _ => ?_
        exact ReadsWithin.ok (List.suffix_refl after)
    · exact readScalar_within (c :: rest)

/-- So are the items of a list. -/
theorem readItems_succ_within {fuel : Nat} (h : ValuesWithin fuel) (cs : List Char) :
    ReadsWithin Char.isDigit cs (readItems (fuel + 1) cs) := by
  rw [readItems]
  refine ReadsWithin.bind (h.value cs) fun item after _ => ?_
  dsimp only
  split
  · rename_i more hmore
    refine ReadsWithin.bind ((h.items _).of_suffix (suffix_of_skipSpace hmore))
      fun items last _ => ?_
    exact ReadsWithin.ok (List.suffix_refl last)
  · rename_i more hmore
    exact ReadsWithin.ok (suffix_of_skipSpace_cons hmore)
  · exact ReadsWithin.malformed

/-- So are the entries of an object. -/
theorem readEntries_succ_within {fuel : Nat} (h : ValuesWithin fuel) (entries : Entries)
    (cs : List Char) : ReadsWithin Char.isDigit cs (readEntries (fuel + 1) entries cs) := by
  unfold readEntries
  split
  · rename_i inside
    have hinside : inside <:+ '"' :: inside := List.suffix_cons '"' inside
    refine ReadsWithin.bind (ReadsWithin.orMalformed fun key after hkey => ?_) fun key after _ => ?_
    · exact (readText_suffix hkey).trans hinside
    dsimp only
    split
    · rename_i more hmore
      refine ReadsWithin.bind ((h.value _).of_suffix (suffix_of_skipSpace hmore)) fun v last _ => ?_
      dsimp only
      split
      · rename_i more hmore
        exact (h.entries _ _).of_suffix (suffix_of_skipSpace hmore)
      · rename_i more hmore
        exact ReadsWithin.ok (suffix_of_skipSpace_cons hmore)
      · exact ReadsWithin.malformed
    · exact ReadsWithin.malformed
  · exact ReadsWithin.malformed

/-- **The readers of values stay within the text**, by induction on the fuel:
each of them reads on with less of it. -/
theorem valuesWithin (fuel : Nat) : ValuesWithin fuel := by
  induction fuel with
  | zero =>
    exact ⟨fun _ => ReadsWithin.malformed, fun _ => ReadsWithin.malformed,
      fun _ _ => ReadsWithin.malformed⟩
  | succ fuel ih =>
    exact ⟨readValue_succ_within ih, readItems_succ_within ih, readEntries_succ_within ih⟩

/-- **A text is refused for too many digits only where it has them.** -/
theorem longRun_of_read {s : String} (h : read s = .error .tooManyDigits) : LongRun s.toList := by
  have hvalue := (valuesWithin ((skipSpace s.toList).length + 1)).value (skipSpace s.toList)
  unfold read at h
  dsimp only at h
  cases hread : readValue ((skipSpace s.toList).length + 1) (skipSpace s.toList) with
  | error e =>
    rw [hread] at h hvalue
    obtain rfl : e = .tooManyDigits := Except.error.inj h
    exact longRun_of_hasLongRun (hvalue.mono (skipSpace_suffix s.toList).isInfix)
  | ok r =>
    obtain ⟨v, after⟩ := r
    rw [hread] at h
    simp only [bind, Except.bind] at h
    split_ifs at h
    · cases h
    · cases h

end Json

end Retype
