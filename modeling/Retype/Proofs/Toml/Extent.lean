import Retype.Proofs.Json.Extent
import Retype.Toml.Reader
/-!
# How far a reading of TOML goes

As with JSON, a reading leaves the end of the text, and a whole number is refused
for its many digits only where they stand in the text, with underscores between
them at most (`hasLongRun_of_read`). Values are nested too deep only where the
text opens so many arrays and inline tables (`opens_of_read`). Most readers do not
tell why they fail; what they leave is said by `Leaves`.
-/

namespace Retype.Toml

/-- The characters of whole numbers. -/
def isNumeral (c : Char) : Bool := c.isDigit || c == '_'

/-! ## Readings that do not tell why they fail -/

/-- What a reading leaves, if it reads something, is the end of a text. -/
def Leaves {α : Type} (cs : List Char) (r : Option (α × List Char)) : Prop :=
  ∀ a after, r = some (a, after) → after <:+ cs

namespace Leaves

variable {α β γ : Type} {cs cs' : List Char}

/-- A reading that goes on leaves an end of the text. -/
theorem some {a : α} {after : List Char} (h : after <:+ cs) : Leaves cs (some (a, after)) := by
  rintro _ _ ⟨⟩
  exact h

/-- A reading that comes to nothing leaves nothing wrong. -/
theorem none : Leaves cs (none : Option (α × List Char)) := nofun

/-- What leaves an end of an end leaves an end. -/
theorem of_suffix {r : Option (α × List Char)} (h : Leaves cs r) (hin : cs <:+ cs') :
    Leaves cs' r := fun a after hr => (h a after hr).trans hin

/-- One reading after another. -/
theorem bind {r : Option (α × List Char)} {f : α × List Char → Option (β × List Char)}
    (h : Leaves cs r) (hf : ∀ a after, after <:+ cs → Leaves after (f (a, after))) :
    Leaves cs (r >>= f) := by
  match r, h with
  | .some (a, after), h =>
    have hafter := h a after rfl
    exact (hf a after hafter).of_suffix hafter
  | .none, _ => exact none

/-- A step that takes no value. -/
theorem bind_of {o : Option γ} {f : γ → Option (β × List Char)}
    (h : ∀ c, o = .some c → Leaves cs (f c)) : Leaves cs (o >>= f) := by
  cases o with
  | some c => exact h c rfl
  | none => exact none

/-- A reading leaves what it leaves, whatever is made of its value. -/
theorem map {r : Option (α × List Char)} {f : α × List Char → β × List Char} (h : Leaves cs r)
    (hf : ∀ a after, (f (a, after)).2 = after) : Leaves cs (r.map f) := by
  match r, h with
  | .some (a, after), h =>
    intro b last hlast
    obtain rfl : after = last := (hf a after).symm.trans (congrArg Prod.snd (Option.some.inj hlast))
    exact h a after rfl
  | .none, _ => exact none

/-- A choice leaves what its branches leave. -/
theorem ite {p : Prop} [Decidable p] {r r' : Option (α × List Char)} (h : Leaves cs r)
    (h' : Leaves cs r') : Leaves cs (if p then r else r') := by
  split
  · exact h
  · exact h'

end Leaves

/-! ## Blanks and comments -/

/-- Blanks are passed over. -/
theorem skipSpace_suffix (cs : List Char) : skipSpace cs <:+ cs := List.dropWhile_suffix _

/-- What stands behind the first character of an end is an end. -/
theorem suffix_of_cons {c : Char} {more cs : List Char} (h : c :: more <:+ cs) : more <:+ cs :=
  (List.suffix_cons c more).trans h

/-- A comment is passed over up to its line end. -/
theorem skipComment_suffix {cs after : List Char} (h : skipComment cs = some after) :
    after <:+ cs := by
  unfold skipComment at h
  split at h
  · split at h
    · cases h
    · obtain rfl := Option.some.inj h
      exact (List.dropWhile_suffix _).trans (List.suffix_cons _ _)
  · exact Option.some.inj h ▸ List.suffix_refl _

/-- Blanks, comments and line ends are passed over between the items of an array. -/
theorem skipInsideArray_suffix {fuel : Nat} {cs after : List Char}
    (h : skipInsideArray fuel cs = some after) : after <:+ cs := by
  induction fuel generalizing cs with
  | zero => exact Option.some.inj h ▸ List.suffix_refl cs
  | succ fuel ih =>
    rw [skipInsideArray] at h
    obtain ⟨next, hnext, h⟩ := Option.bind_eq_some_iff.1 h
    have hsuffix : next <:+ cs := (skipComment_suffix hnext).trans (List.dropWhile_suffix _)
    split at h
    · exact Option.some.inj h ▸ List.suffix_refl cs
    · exact (ih h).trans hsuffix

/-- What stands behind a beginning is an end. -/
theorem after?_suffix {start cs after : List Char} (h : after? start cs = some after) :
    after <:+ cs := by
  rw [after?] at h
  split at h
  · exact Option.some.inj h ▸ List.drop_suffix _ cs
  · cases h

/-! ## Text -/

theorem readCodePoint_leaves (count : Nat) (cs : List Char) :
    Leaves cs (readCodePoint count cs) := by
  refine .bind_of fun digits _ => ?_
  split
  · exact .none
  · dsimp only
    split
    · exact .some (List.drop_suffix count cs)
    · exact .none

theorem readEscape_leaves (inLines : Bool) (cs : List Char) :
    Leaves cs (readEscape inLines cs) := by
  unfold readEscape
  split
  next rest =>
    exact .map ((readCodePoint_leaves 4 rest).of_suffix (List.suffix_cons _ rest)) fun _ _ => rfl
  next rest =>
    exact .map ((readCodePoint_leaves 8 rest).of_suffix (List.suffix_cons _ rest)) fun _ _ => rfl
  next c rest _ _ =>
    have hrest : rest <:+ c :: rest := List.suffix_cons c rest
    split
    · exact .some ((List.dropWhile_suffix _).trans hrest)
    · split
      · split
        next => exact .some List.nil_suffix
        next more hmore =>
          have hspace : '\n' :: more <:+ rest := hmore ▸ skipSpace_suffix rest
          exact .some ((List.dropWhile_suffix _).trans ((suffix_of_cons hspace).trans hrest))
        next => exact .none
      · rintro _ _ h
        obtain ⟨e, -, heq⟩ := Option.map_eq_some_iff.1 h
        obtain ⟨-, rfl⟩ := Prod.mk.inj heq
        exact hrest
  next => exact .none

/-- A basic string leaves what stands behind its closing quote. -/
theorem readBasic_leaves (inLines : Bool) (fuel : Nat) (cs : List Char) :
    Leaves cs (readBasic inLines fuel cs) := by
  induction fuel generalizing cs with
  | zero => exact .none
  | succ fuel ih =>
    cases cs with
    | nil => exact .none
    | cons c rest =>
      have hrest : rest <:+ c :: rest := List.suffix_cons c rest
      rw [readBasic]
      split
      · split
        · split
          next after hafter => exact .some ((after?_suffix hafter).trans hrest)
          next => exact .map ((ih rest).of_suffix hrest) fun _ _ => rfl
        · exact .some hrest
      · split
        · refine .bind ((readEscape_leaves inLines rest).of_suffix hrest) fun e more _ => ?_
          exact .bind (ih more) fun s last _ => .some (List.suffix_refl last)
        · exact .ite .none (.map ((ih rest).of_suffix hrest) fun _ _ => rfl)

/-- A literal string leaves what stands behind its closing quote. -/
theorem readLiteral_leaves (cs : List Char) : Leaves cs (readLiteral cs) := by
  unfold readLiteral
  dsimp only
  split
  next c rest hrest =>
    split
    · exact .none
    · exact .some (suffix_of_cons (hrest ▸ List.drop_suffix _ cs))
  next => exact .none

theorem readLiteralLines_leaves (fuel : Nat) (cs : List Char) :
    Leaves cs (readLiteralLines fuel cs) := by
  induction fuel generalizing cs with
  | zero => exact .none
  | succ fuel ih =>
    cases cs with
    | nil => exact .none
    | cons c rest =>
      rw [readLiteralLines]
      split
      next after hafter => exact .some (after?_suffix hafter)
      next =>
        split
        · exact .none
        · exact .map ((ih rest).of_suffix (List.suffix_cons c rest)) fun _ _ => rfl

theorem dropFirstNewline_suffix (cs : List Char) : dropFirstNewline cs <:+ cs := by
  unfold dropFirstNewline
  split
  · exact List.suffix_cons _ _
  · exact List.suffix_refl _

/-- The quotes before the closing ones are taken off the front of what is left. -/
theorem Leaves.withExtraQuotes {cs : List Char} {r : Option (List Char × List Char)}
    (h : Leaves cs r) (quote : Char) : Leaves cs (r.map (withExtraQuotes quote)) := by
  intro _ _ hr
  obtain ⟨⟨s, after⟩, hread, heq⟩ := Option.map_eq_some_iff.1 hr
  obtain ⟨-, rfl⟩ := Prod.mk.inj heq
  exact (List.drop_suffix _ after).trans (h s after hread)

/-- A string of any kind leaves what stands behind it. -/
theorem readText_leaves (cs : List Char) : Leaves cs (readText cs) := by
  unfold readText
  split
  next rest hrest =>
    exact .withExtraQuotes ((readBasic_leaves true _ _).of_suffix
      ((dropFirstNewline_suffix rest).trans (after?_suffix hrest))) '"'
  next rest hrest _ =>
    exact .withExtraQuotes ((readLiteralLines_leaves _ _).of_suffix
      ((dropFirstNewline_suffix rest).trans (after?_suffix hrest))) '\''
  next =>
    split
    · exact (readBasic_leaves false _ _).of_suffix (List.suffix_cons _ _)
    · exact (readLiteral_leaves _).of_suffix (List.suffix_cons _ _)
    · exact .none

/-! ## Keys -/

theorem readKeyPart_leaves (cs : List Char) : Leaves cs (readKeyPart cs) := by
  unfold readKeyPart
  split
  · exact .map ((readBasic_leaves false _ _).of_suffix (List.suffix_cons _ _)) fun _ _ => rfl
  · exact .map ((readLiteral_leaves _).of_suffix (List.suffix_cons _ _)) fun _ _ => rfl
  · dsimp only
    split
    · exact .none
    · exact .some (List.drop_suffix _ _)

/-- A dotted key leaves what stands behind its last part. -/
theorem readKey_leaves (fuel : Nat) (cs : List Char) : Leaves cs (readKey fuel cs) := by
  induction fuel generalizing cs with
  | zero => exact .none
  | succ fuel ih =>
    refine .bind (readKeyPart_leaves cs) fun part rest _ => ?_
    dsimp only
    split
    next more hmore =>
      have hmore : more <:+ rest := suffix_of_cons (hmore ▸ skipSpace_suffix rest)
      refine .bind ((ih (skipSpace more)).of_suffix ((skipSpace_suffix more).trans hmore))
        fun parts last _ => ?_
      exact .some (List.suffix_refl last)
    next => exact .some (skipSpace_suffix rest)

/-! ## Numbers -/

/-- Digits were read off the front of a text: what was taken are these digits, and
underscores. -/
structure Taken (isDigit : Char → Bool) (cs : List Char) (r : List Char × List Char) : Prop where
  run : ∃ run, run ++ r.2 = cs ∧ (∀ c ∈ run, isDigit c ∨ c = '_') ∧
    run.countP isDigit = r.1.length

namespace Taken

variable {isDigit : Char → Bool} {cs : List Char} {r : List Char × List Char}

/-- What is taken leaves an end. -/
theorem suffix (h : Taken isDigit cs r) : r.2 <:+ cs := by
  obtain ⟨run, hrun, -⟩ := h.run
  exact ⟨run, hrun⟩

/-- Nothing may be taken. -/
theorem nil (cs : List Char) : Taken isDigit cs ([], cs) := ⟨[], rfl, nofun, rfl⟩

/-- One more digit in front. -/
theorem cons {d : Char} (h : Taken isDigit cs r) (hd : isDigit d = true) :
    Taken isDigit (d :: cs) (d :: r.1, r.2) := by
  obtain ⟨run, hrun, hall, hcount⟩ := h.run
  refine ⟨d :: run, by rw [List.cons_append, hrun], List.forall_mem_cons.2 ⟨.inl hd, hall⟩, ?_⟩
  rw [List.countP_cons_of_pos hd, hcount, List.length_cons]

/-- An underscore in front, which is no digit. -/
theorem underscore (h : Taken isDigit cs r) (hno : isDigit '_' = false) :
    Taken isDigit ('_' :: cs) r := by
  obtain ⟨run, hrun, hall, hcount⟩ := h.run
  refine ⟨'_' :: run, by rw [List.cons_append, hrun], List.forall_mem_cons.2 ⟨.inr rfl, hall⟩, ?_⟩
  rw [List.countP_cons_of_neg (by simp [hno]), hcount]

/-- Too many digits are a long run. -/
theorem hasLongRun (h : Taken Char.isDigit cs r) (hlong : Numeral.maxDigits < r.1.length) :
    HasLongRun isNumeral cs := by
  obtain ⟨run, hrun, hall, hcount⟩ := h.run
  refine ⟨run, (List.prefix_append run r.2).isInfix.trans (hrun ▸ List.infix_refl _), ?_, ?_⟩
  · intro c hc
    simpa [isNumeral] using hall c hc
  · rwa [hcount]

end Taken

theorem readDigits_more_taken {isDigit : Char → Bool} (hno : isDigit '_' = false) (cs : List Char) :
    Taken isDigit cs (readDigits.more isDigit cs) := by
  fun_induction readDigits.more isDigit cs with
  | case1 d rest hd ds after heq ih =>
    rw [heq] at ih
    exact (ih.cons hd).underscore hno
  | case2 => exact .nil _
  | case3 d rest _ hd ds after heq ih =>
    rw [heq] at ih
    exact ih.cons hd
  | case4 => exact .nil _
  | case5 => exact .nil _

/-- A run of digits, with single underscores between them, is taken. -/
theorem readDigits_taken {isDigit : Char → Bool} (hno : isDigit '_' = false) (cs : List Char) :
    Taken isDigit cs (readDigits isDigit cs) := by
  unfold readDigits
  split
  · split
    next hd => exact (readDigits_more_taken hno _).cons hd
    next => exact .nil _
  · exact .nil _

/-- A whole number is a run of digits, maybe with a sign. -/
theorem readWhole_taken (cs : List Char) : Taken Char.isDigit cs (readWhole cs) := by
  unfold readWhole
  split
  next rest => exact (Taken.nil rest).cons rfl
  next => exact readDigits_taken rfl cs

theorem readBased_leaves (cs : List Char) : Leaves cs (readBased cs) := by
  unfold readBased
  split
  next b rest =>
    refine .bind_of fun base _ => ?_
    have hdigits : (readDigits (isDigitOf base) rest).2 <:+ b :: rest :=
      (readDigits_taken rfl rest).suffix.trans (List.suffix_cons b rest)
    exact .ite .none (.some hdigits)
  next => exact .none

theorem readFraction_suffix (cs : List Char) : (readFraction cs).2 <:+ cs := by
  unfold readFraction
  split
  next rest =>
    dsimp only
    split
    · exact List.suffix_refl _
    · exact (readDigits_taken rfl rest).suffix.trans (List.suffix_cons '.' rest)
  next => exact List.suffix_refl _

theorem readExponent_suffix (cs : List Char) : (readExponent cs).2 <:+ cs := by
  unfold readExponent
  split
  next c rest =>
    dsimp only
    split
    · split
      · exact List.suffix_refl _
      · exact (readDigits_taken rfl _).suffix.trans
          ((Json.sign_suffix rest).trans (List.suffix_cons c rest))
    · exact List.suffix_refl _
  next => exact List.suffix_refl _

/-- **A decimal number fails only for too long a run of digits in the text.** -/
theorem readDecimal_within {cs : List Char} {r : Except ReadFailure (Setting × List Char)}
    (h : readDecimal cs = some r) : ReadsWithin isNumeral cs r := by
  unfold readDecimal at h
  have hsign : (Numeral.sign cs).2 <:+ cs := Json.sign_suffix cs
  have hwhole := readWhole_taken (Numeral.sign cs).2
  dsimp only at h
  split at h
  · cases h
  · split at h
    · obtain rfl := Option.some.inj h
      rw [wholeOfDigits]
      split
      next hlong => exact (hwhole.hasLongRun hlong).mono hsign.isInfix
      next =>
        exact .ok ((readExponent_suffix _).trans
          ((readFraction_suffix _).trans (hwhole.suffix.trans hsign)))
    · obtain rfl := Option.some.inj h
      exact .ok ((readExponent_suffix _).trans
        ((readFraction_suffix _).trans (hwhole.suffix.trans hsign)))

theorem readSpecial_leaves (cs : List Char) : Leaves cs (readSpecial cs) := by
  have hsign : (Numeral.sign cs).2 <:+ cs := Json.sign_suffix cs
  intro v after h
  unfold readSpecial at h
  rcases Option.or_eq_some_iff.1 h with h | ⟨-, h⟩
  all_goals
    obtain ⟨rest, hrest, heq⟩ := Option.map_eq_some_iff.1 h
    obtain ⟨-, rfl⟩ := Prod.mk.inj heq
    exact (after?_suffix hrest).trans hsign

/-! ## Dates and times -/

/-- A number of so many digits leaves what stands behind it. -/
theorem readNumber_leaves (count : Nat) (cs : List Char) : Leaves cs (readNumber count cs) :=
  .ite (.some (List.drop_suffix count cs)) .none

theorem readTwo_leaves (low high : Nat) (cs : List Char) : Leaves cs (readTwo low high cs) :=
  .bind (readNumber_leaves 2 cs) fun _ rest _ => .ite (.some (List.suffix_refl rest)) .none

/-- A mark, and what comes after it. -/
theorem Leaves.after {β : Type} {start cs : List Char} {f : List Char → Option (β × List Char)}
    (h : ∀ rest, Leaves rest (f rest)) : Leaves cs (after? start cs >>= f) :=
  .bind_of fun rest hrest => (h rest).of_suffix (after?_suffix hrest)

/-- A time of day leaves what stands behind it. -/
theorem readTime_leaves (cs : List Char) : Leaves cs (readTime cs) := by
  refine .bind (readTwo_leaves 0 23 cs) fun hour rest _ => .after fun rest => ?_
  refine .bind (readTwo_leaves 0 59 rest) fun minute rest _ => .after fun rest => ?_
  refine .bind (readTwo_leaves 0 59 rest) fun second rest _ => ?_
  dsimp only
  split
  next more _ =>
    exact .ite (.some (List.suffix_refl _))
      (.some ((List.drop_suffix _ more).trans (List.suffix_cons '.' more)))
  next => exact .some (List.suffix_refl rest)

/-- What a reading leaves, or the whole text where it reads nothing. -/
theorem Leaves.getD_suffix {α : Type} {cs : List Char} {r : Option (α × List Char)}
    (h : Leaves cs r) (a : α) : (r.getD (a, cs)).2 <:+ cs := by
  match r, h with
  | .some (a, after), h => exact h a after rfl
  | .none, _ => exact List.suffix_refl cs

theorem readOffset_suffix (cs : List Char) : (readOffset cs).2 <:+ cs := by
  unfold readOffset
  split
  next c rest =>
    split
    · exact List.suffix_cons c rest
    · split
      · refine Leaves.getD_suffix (.of_suffix ?_ (List.suffix_cons c rest)) none
        refine .bind (readTwo_leaves 0 23 rest) fun hour rest _ => .after fun rest => ?_
        exact .bind (readTwo_leaves 0 59 rest) fun minute rest _ => .some (List.suffix_refl rest)
      · exact List.suffix_refl _
  next => exact List.suffix_refl _

/-- A date leaves what stands behind it. -/
theorem readDate_leaves (cs : List Char) : Leaves cs (readDate cs) := by
  refine .bind (readNumber_leaves 4 cs) fun year rest _ => .after fun rest => ?_
  refine .bind (readTwo_leaves 1 12 rest) fun month rest _ => .after fun rest => ?_
  exact .bind (readTwo_leaves 1 31 rest) fun day rest _ => .some (List.suffix_refl rest)

/-- A date, a time or both leave what stands behind them. -/
theorem readMoment_leaves {cs : List Char} {m : Option (Moment × List Char)}
    (h : readMoment cs = some m) : Leaves cs m := by
  unfold readMoment at h
  obtain ⟨⟨date, rest⟩, hdate, h⟩ := Option.bind_eq_some_iff.1 h
  have hrest : rest <:+ cs := readDate_leaves cs _ _ hdate
  obtain rfl := Option.some.inj h
  refine .ite (.some (.trans (Leaves.getD_suffix ?_ _) hrest)) .none
  refine .bind_of fun c _ => .ite (.of_suffix ?_ (List.drop_suffix 1 rest)) .none
  exact .bind (readTime_leaves _) fun time last _ => .some (readOffset_suffix last)

/-! ## Values -/

/-- A reading that never runs out of digits stays within the text. -/
theorem Leaves.within {α : Type} {cs : List Char} {r : Option (α × List Char)} (h : Leaves cs r) :
    ReadsWithin isNumeral cs (orMalformed r) := .orMalformed h

/-- A number of any kind fails only for too long a run of digits in the text. -/
theorem readNumeric_within (cs : List Char) : ReadsWithin isNumeral cs (readNumeric cs) := by
  unfold readNumeric
  split
  next based hbased =>
    obtain ⟨rest, hrest, hread⟩ := Option.bind_eq_some_iff.1 hbased
    exact .ok ((readBased_leaves rest _ _ hread).trans (after?_suffix hrest))
  next =>
    split
    next decimal hdecimal => exact readDecimal_within hdecimal
    next => exact (readSpecial_leaves cs).within

/-- So does a number, a date or a time. -/
theorem readQuantity_within (cs : List Char) : ReadsWithin isNumeral cs (readQuantity cs) := by
  unfold readQuantity
  split
  next moment hmoment => exact (Leaves.map (readMoment_leaves hmoment) fun _ _ => rfl).within
  next =>
    split
    next s rest htime => exact .ok (readTime_leaves cs s rest htime)
    next => exact readNumeric_within cs

/-- **A value without parts fails only for too long a run of digits in the text.** -/
theorem readScalar_within (cs : List Char) : ReadsWithin isNumeral cs (readScalar cs) := by
  unfold readScalar
  split
  · exact (Leaves.map (readText_leaves cs) fun _ _ => rfl).within
  · split
    next rest hrest => exact .ok (after?_suffix hrest)
    next rest hrest _ => exact .ok (after?_suffix hrest)
    next => exact readQuantity_within cs

/-! ## Values inside values -/

/-- The steps that the brackets of a text open, at most. -/
def openings : List Char → Nat
  | [] => 0
  | c :: rest =>
    (if c = '[' then arraySteps else if c = '\x7b' then tableSteps else 0) + openings rest

/-- Openings are counted part by part. -/
theorem openings_append (cs cs' : List Char) :
    openings (cs ++ cs') = openings cs + openings cs' := by
  induction cs with
  | nil => exact (Nat.zero_add _).symm
  | cons c rest ih => rw [List.cons_append, openings, openings, ih, Nat.add_assoc]

/-- An end of a text opens no more than the text. -/
theorem openings_le_of_suffix {cs cs' : List Char} (h : cs <:+ cs') :
    openings cs ≤ openings cs' := by
  obtain ⟨front, rfl⟩ := h
  rw [openings_append]
  exact Nat.le_add_left _ _

/-- **A reading of values with some room that stays within a text**: it is a reading of
text but that it may find no room, where the text opens more than there is room for. -/
def StaysWithin (room : Nat) {α : Type} (cs : List Char) :
    Except Failure (α × List Char) → Prop
  | .ok (_, after) => after <:+ cs
  | .error (.text cause) =>
    ReadsWithin isNumeral cs (.error cause : Except ReadFailure (α × List Char))
  | .error .tooDeep => room < openings cs

namespace StaysWithin

variable {α β γ : Type} {room : Nat} {cs cs' : List Char}

/-- A value that leaves an end of the text stays within it. -/
theorem ok {a : α} {after : List Char} (h : after <:+ cs) :
    StaysWithin room cs (.ok (a, after) : Except Failure (α × List Char)) := h

/-- A syntax error stays within any text. -/
theorem malformed :
    StaysWithin room cs (.error (.text .malformed) : Except Failure (α × List Char)) := trivial

/-- What stays within an end of a text stays within the text. -/
theorem of_suffix {r : Except Failure (α × List Char)} (h : StaysWithin room cs r)
    (hin : cs <:+ cs') : StaysWithin room cs' r := by
  match r, h with
  | .ok (_, after), h => exact List.IsSuffix.trans h hin
  | .error (.text cause), h => exact ReadsWithin.of_suffix h hin
  | .error .tooDeep, h => exact Nat.lt_of_lt_of_le h (openings_le_of_suffix hin)

/-- One reading after another. -/
theorem bind {r : Except Failure (α × List Char)}
    {f : α × List Char → Except Failure (β × List Char)} (h : StaysWithin room cs r)
    (hf : ∀ a after, after <:+ cs → StaysWithin room after (f (a, after))) :
    StaysWithin room cs (r >>= f) := by
  match r, h with
  | .ok (a, after), h => exact (hf a after h).of_suffix h
  | .error (.text .tooManyDigits), h => exact h
  | .error (.text .malformed), _ => exact malformed
  | .error .tooDeep, h => exact h

/-- A reading of text. -/
theorem asFailure {r : Except ReadFailure (α × List Char)} (h : ReadsWithin isNumeral cs r) :
    StaysWithin room cs (asFailure r) := by
  cases r with
  | ok a => exact h
  | error cause => exact h

/-- A reading that only leaves stays within the text. -/
theorem orNoToml {r : Option (α × List Char)} (h : Leaves cs r) :
    StaysWithin room cs (orNoToml r) := asFailure h.within

/-- A step that reads nothing, or tells nothing of what it reads. -/
theorem bind_orNoToml {o : Option γ} {f : γ → Except Failure (α × List Char)}
    (h : ∀ c, o = some c → StaysWithin room cs (f c)) :
    StaysWithin room cs (Toml.orNoToml o >>= f) := by
  cases o with
  | some c => exact h c rfl
  | none => exact malformed

/-- Behind a bracket there is less room, and less is opened. -/
theorem entering {steps : Nat} {inside : Nat → Except Failure (α × List Char)}
    {c : Char} {rest : List Char} (hopens : openings (c :: rest) = steps + openings rest)
    (h : ∀ room, StaysWithin room rest (inside room)) :
    StaysWithin room (c :: rest) (entering steps room inside) := by
  rw [Toml.entering]
  split
  next hroom => exact Nat.lt_of_lt_of_le hroom (hopens ▸ Nat.le_add_right _ _)
  next hroom =>
    have hinside := h (room - steps)
    match inside (room - steps), hinside with
    | .ok (_, after), hinside => exact hinside.trans (List.suffix_cons c rest)
    | .error (.text cause), hinside => exact ReadsWithin.of_suffix hinside (List.suffix_cons c rest)
    | .error .tooDeep, hinside =>
      change room < openings (c :: rest)
      rw [hopens]
      exact (Nat.sub_lt_iff_lt_add' (Nat.le_of_not_lt hroom)).1 hinside

end StaysWithin

/-- What holds of the readers of values at some fuel. -/
structure ValuesWithin (fuel : Nat) : Prop where
  value : ∀ room cs, StaysWithin room cs (readValue fuel room cs)
  items : ∀ room cs, StaysWithin room cs (readItems fuel room cs)
  inline : ∀ room table marks cs, StaysWithin room cs (readInline fuel room table marks cs)
  pair : ∀ room cs, StaysWithin room cs (readPair fuel room cs)

/-- A value stays within the text, if the values in it do. -/
theorem readValue_succ_within {fuel : Nat} (h : ValuesWithin fuel) (room : Nat) (cs : List Char) :
    StaysWithin room cs (readValue (fuel + 1) room cs) := by
  rw [readValue.eq_def]
  dsimp only
  split
  next rest =>
    refine .entering rfl fun room => .bind_orNoToml fun inside hinside => ?_
    have hinside : inside <:+ rest := skipInsideArray_suffix hinside
    split
    · exact .ok (suffix_of_cons hinside)
    · exact .bind ((h.items _ inside).of_suffix hinside) fun items last _ =>
        .ok (List.suffix_refl last)
  next c rest _ =>
    split
    next hc =>
      subst hc
      refine .entering rfl fun room => ?_
      split
      next more hmore => exact .ok (suffix_of_cons (hmore ▸ skipSpace_suffix rest))
      next =>
        exact .bind ((h.inline room [] [] _).of_suffix (skipSpace_suffix rest)) fun table last _ =>
          .ok (List.suffix_refl last)
    · exact .asFailure (readScalar_within (c :: rest))
  next => exact .malformed

/-- So do the items of an array. -/
theorem readItems_succ_within {fuel : Nat} (h : ValuesWithin fuel) (room : Nat) (cs : List Char) :
    StaysWithin room cs (readItems (fuel + 1) room cs) := by
  rw [readItems]
  refine .bind (h.value room cs) fun item rest _ => .bind_orNoToml fun next hnext => ?_
  have hnext : next <:+ rest := skipInsideArray_suffix hnext
  dsimp only
  split
  · exact .ok (suffix_of_cons hnext)
  next more =>
    refine .bind_orNoToml fun inside hinside => ?_
    have hinside : inside <:+ rest := (skipInsideArray_suffix hinside).trans (suffix_of_cons hnext)
    split
    · exact .ok (suffix_of_cons hinside)
    · exact .bind ((h.items _ inside).of_suffix hinside) fun items last _ =>
        .ok (List.suffix_refl last)
  · exact .malformed

/-- So do the pairs of an inline table. -/
theorem readInline_succ_within {fuel : Nat} (h : ValuesWithin fuel) (room : Nat) (table : Table)
    (marks : Marks) (cs : List Char) :
    StaysWithin room cs (readInline (fuel + 1) room table marks cs) := by
  rw [readInline]
  refine .bind (h.pair room cs) fun pair rest _ => ?_
  obtain ⟨key, value⟩ := pair
  dsimp only
  split
  · exact .malformed
  · refine .bind_orNoToml fun table _ => ?_
    split
    next more hmore => exact .ok (suffix_of_cons (hmore ▸ skipSpace_suffix rest))
    next more hmore =>
      have hmore : more <:+ rest := suffix_of_cons (hmore ▸ skipSpace_suffix rest)
      exact (h.inline room _ _ _).of_suffix ((skipSpace_suffix more).trans hmore)
    next => exact .malformed

/-- So does a pair of a key and a value. -/
theorem readPair_succ_within {fuel : Nat} (h : ValuesWithin fuel) (room : Nat) (cs : List Char) :
    StaysWithin room cs (readPair (fuel + 1) room cs) := by
  rw [readPair]
  refine .bind (.orNoToml (readKey_leaves _ cs)) fun key rest _ => ?_
  dsimp only
  split
  next more _ =>
    refine .bind ((h.value room (skipSpace more)).of_suffix ?_) fun value last _ =>
      .ok (List.suffix_refl last)
    exact (skipSpace_suffix more).trans (List.suffix_cons '=' more)
  next => exact .malformed

/-- **The readers of values stay within the text**, by induction on the fuel:
each of them reads on with less of it. -/
theorem valuesWithin (fuel : Nat) : ValuesWithin fuel := by
  induction fuel with
  | zero =>
    exact ⟨fun _ _ => .malformed, fun _ _ => .malformed, fun _ _ _ _ => .malformed,
      fun _ _ => .malformed⟩
  | succ fuel ih =>
    exact ⟨readValue_succ_within ih, readItems_succ_within ih, readInline_succ_within ih,
      readPair_succ_within ih⟩

/-! ## Documents -/

/-- A header leaves what stands behind its brackets. -/
theorem readHeader_leaves (closing cs : List Char) : Leaves cs (readHeader closing cs) := by
  refine .bind ((readKey_leaves _ _).of_suffix (skipSpace_suffix cs)) fun key rest _ => ?_
  exact .after fun last => .some (List.suffix_refl last)

/-- A statement stays within its text. -/
theorem readStatement_within (room : Nat) (d : Document) (cs : List Char) :
    StaysWithin room cs (readStatement room d cs) := by
  unfold readStatement
  split
  next rest =>
    have hrest : rest <:+ '[' :: '[' :: rest := ⟨['[', '['], rfl⟩
    refine .bind (.orNoToml ((readHeader_leaves _ rest).of_suffix hrest)) fun key last _ => ?_
    exact .bind_orNoToml fun d _ => .ok (List.suffix_refl last)
  next rest _ =>
    have hrest : rest <:+ '[' :: rest := List.suffix_cons '[' rest
    refine .bind (.orNoToml ((readHeader_leaves _ rest).of_suffix hrest)) fun key last _ => ?_
    exact .bind_orNoToml fun d _ => .ok (List.suffix_refl last)
  next c rest _ _ =>
    split
    · refine .bind ((valuesWithin _).pair room (c :: rest)) fun pair last _ => ?_
      exact .bind_orNoToml fun d _ => .ok (List.suffix_refl last)
    · split
      · exact .ok (List.suffix_refl _)
      · exact .malformed
  next => exact .ok (List.suffix_refl [])

/-- **A document stays within its text.** -/
theorem readStatements_within (room fuel : Nat) (d : Document) (cs : List Char) :
    StaysWithin room cs ((readStatements room fuel d cs).map (·, ([] : List Char))) := by
  -- either the first statement fails, or the statements behind it, which are the end of
  -- the text
  induction fuel generalizing d cs with
  | zero => exact .malformed
  | succ fuel ih =>
    have hstatement := (readStatement_within room d (skipSpace cs)).of_suffix (skipSpace_suffix cs)
    rw [readStatements]
    match readStatement room d (skipSpace cs), hstatement with
    | .error (.text .malformed), _ => exact .malformed
    | .error (.text .tooManyDigits), h => exact h
    | .error .tooDeep, h => exact h
    | .ok (d', rest), hrest =>
      change StaysWithin room cs (Except.map _ (orNoToml (skipComment (skipSpace rest)) >>= _))
      cases hcomment : skipComment (skipSpace rest) with
      | none => exact .malformed
      | some next =>
        have hnext : next <:+ cs :=
          (skipComment_suffix hcomment).trans ((skipSpace_suffix rest).trans hrest)
        dsimp only [orNoToml, asFailure, orMalformed, bind, Except.bind]
        split
        · exact .ok List.nil_suffix
        next more => exact (ih d' more).of_suffix (suffix_of_cons hnext)
        · exact .malformed

/-- A stretch of characters of numbers in front of which a line end stands is empty. -/
theorem prefix_of_newline {run rest : List Char} (hrun : ∀ c ∈ run, isNumeral c)
    (h : run <+: '\n' :: rest) (cs : List Char) : run <+: cs := by
  rcases List.prefix_cons_iff.1 h with rfl | ⟨more, rfl, -⟩
  · exact List.nil_prefix
  · exact absurd (hrun '\n' List.mem_cons_self) (by decide)

/-- The characters of numbers at the front of a text stand there also if its line ends
are of other sorts. -/
theorem prefix_of_plainNewlines {run cs : List Char} (hrun : ∀ c ∈ run, isNumeral c)
    (h : run <+: plainNewlines cs) : run <+: cs := by
  fun_induction plainNewlines cs generalizing run with
  | case1 => exact prefix_of_newline hrun h _
  | case2 => exact prefix_of_newline hrun h _
  | case3 c rest _ _ ih =>
    rcases List.prefix_cons_iff.1 h with rfl | ⟨more, rfl, hmore⟩
    · exact List.nil_prefix
    · rw [List.prefix_cons_inj]
      exact ih (List.forall_mem_cons.1 hrun).2 hmore
  | case4 => exact h

/-- A run of digits has no line end in it, so it stands in the text as it was. -/
theorem infix_of_plainNewlines {run cs : List Char} (hrun : ∀ c ∈ run, isNumeral c)
    (h : run <:+: plainNewlines cs) : run <:+: cs := by
  -- a run has no line ends in it, so it lies between those that are exchanged
  fun_induction plainNewlines cs with
  | case1 rest ih =>
    rcases List.infix_cons_iff.1 h with h | h
    · exact (prefix_of_newline hrun h _).isInfix
    · exact (ih h).trans ⟨['\r', '\n'], [], by simp⟩
  | case2 rest _ ih =>
    rcases List.infix_cons_iff.1 h with h | h
    · exact (prefix_of_newline hrun h _).isInfix
    · exact List.infix_cons (ih h)
  | case3 c rest hne hne' ih =>
    rcases List.infix_cons_iff.1 h with hstart | h
    · have hplain : plainNewlines (c :: rest) = c :: plainNewlines rest := by
        rw [plainNewlines] <;> assumption
      exact (prefix_of_plainNewlines hrun (hplain ▸ hstart)).isInfix
    · exact List.infix_cons (ih h)
  | case4 => exact h

/-- Line ends open nothing. -/
theorem openings_plainNewlines (cs : List Char) : openings (plainNewlines cs) = openings cs := by
  fun_induction plainNewlines cs with
  | case1 rest ih => simpa [openings] using ih
  | case2 rest _ ih => simpa [openings] using ih
  | case3 c rest _ _ ih => rw [openings, openings, ih]
  | case4 => rfl

/-- What a document fails of is what its statements fail of. -/
theorem readStatements_of_read {limit : Nat} {s : String} {e : Failure}
    (h : read limit s = .error e) :
    readStatements limit ((plainNewlines s.toList).length + 1) {} (plainNewlines s.toList) =
      .error e := by
  rw [read] at h
  cases hread : readStatements limit ((plainNewlines s.toList).length + 1) {}
      (plainNewlines s.toList) with
  | error e' =>
    rw [hread] at h
    exact congrArg _ (Except.error.inj h)
  | ok d =>
    rw [hread] at h
    cases h

/-- **A text is refused for too many digits only where it has them.** -/
theorem hasLongRun_of_read {limit : Nat} {s : String}
    (h : read limit s = .error (.text .tooManyDigits)) : HasLongRun isNumeral s.toList := by
  have hwithin := readStatements_within limit ((plainNewlines s.toList).length + 1) {}
    (plainNewlines s.toList)
  rw [readStatements_of_read h] at hwithin
  obtain ⟨run, hinfix, hrun, hlong⟩ := hwithin
  exact ⟨run, infix_of_plainNewlines hrun hinfix, hrun, hlong⟩

/-- **Values are nested too deep only where a text opens more than the limit.** -/
theorem opens_of_read {limit : Nat} {s : String} (h : read limit s = .error .tooDeep) :
    limit < openings s.toList := by
  have hwithin := readStatements_within limit ((plainNewlines s.toList).length + 1) {}
    (plainNewlines s.toList)
  rw [readStatements_of_read h] at hwithin
  exact openings_plainNewlines s.toList ▸ hwithin

end Retype.Toml
