import Retype.Json.Reader
import Retype.Json.Writer
import Retype.Proofs.Json.Entries
import Retype.Proofs.Text.Ascii
/-!
# JSON read back

A value that is written and read is the same value (`read_write`), as long as
it holds no numbers but whole ones and no object gives a key twice. The reader
of a value stops where the value ends: this is why the theorems are about a
value with a text after it, and for a number the text after it must not go on
with the number. In a written value only a comma or a closing bracket can come
there.
-/

namespace Retype.Json

mutual
/-- Whether a value holds no numbers but whole ones, and no object in it gives
a key twice. -/
def isPlain : Json → Bool
  | double _ => false
  | arr items => arePlain items
  | obj entries => (entries.map (·.1)).Nodup && entriesPlain entries
  | _ => true
def arePlain : List Json → Bool
  | [] => true
  | j :: rest => isPlain j && arePlain rest
def entriesPlain : List (String × Json) → Bool
  | [] => true
  | (_, j) :: rest => isPlain j && entriesPlain rest
end

/-! ## Text -/

/-- Four hexadecimal digits are read as the unit they were written for. -/
theorem readUnit_padded {n : Nat} (h : n < 0x10000) (rest : List Char) :
    readUnit (Hex.padded 4 n ++ rest) = some (n, rest) := by
  have hdigit : ∀ m, Hex.value? (Hex.digit (m % 16)) = some (m % 16) := fun m =>
    Hex.value?_digit (Nat.mod_lt m (by decide))
  simp only [Hex.padded, List.nil_append, List.cons_append, readUnit, hdigit, Option.bind_eq_bind,
    Option.bind_some, Option.pure_def, Option.some.injEq, Prod.mk.injEq, and_true]
  omega

/-- A character stands below the surrogates or above them. -/
theorem toNat_lt_or (c : Char) : c.toNat < 0xd800 ∨ 0xdfff < c.toNat ∧ c.toNat < 0x110000 :=
  c.valid

/-- A character that fits into one code unit is no surrogate. -/
theorem readCodeEscape_unit {c : Char} (h : c.toNat < 0x10000) (rest : List Char) :
    readCodeEscape (Hex.padded 4 c.toNat ++ rest) = some (c, rest) := by
  have hvalid := toNat_lt_or c
  have hhigh : isHighSurrogate c.toNat = false := by simp [isHighSurrogate]; omega
  have hlow : isLowSurrogate c.toNat = false := by simp [isLowSurrogate]; omega
  simp [readCodeEscape, readUnit_padded h, hhigh, hlow, Char.ofNat_toNat]

/-- Two surrogates are read as one character. -/
theorem readCodeEscape_surrogates {high low : Nat} (hhigh : isHighSurrogate high = true)
    (hlow : isLowSurrogate low = true) (rest : List Char) :
    readCodeEscape (Hex.padded 4 high ++ (unitEscape low ++ rest))
      = some (Char.ofNat (0x10000 + (high - 0xd800) * 0x400 + (low - 0xdc00)), rest) := by
  have hfirst : high < 0x10000 := by simp [isHighSurrogate] at hhigh; omega
  have hsecond : low < 0x10000 := by simp [isLowSurrogate] at hlow; omega
  simp [readCodeEscape, unitEscape, readUnit_padded hfirst, readUnit_padded hsecond, hhigh, hlow]

/-- A character that does not is a pair of surrogates. -/
theorem readCodeEscape_pair {c : Char} (h : 0x10000 ≤ c.toNat) (rest : List Char) :
    readCodeEscape (Hex.padded 4 (0xd800 + (c.toNat - 0x10000) / 0x400) ++
      (unitEscape (0xdc00 + (c.toNat - 0x10000) % 0x400) ++ rest)) = some (c, rest) := by
  have hvalid := toNat_lt_or c
  have hhigh : isHighSurrogate (0xd800 + (c.toNat - 0x10000) / 0x400) = true := by
    simp only [isHighSurrogate, Bool.and_eq_true, decide_eq_true_eq]
    omega
  have hlow : isLowSurrogate (0xdc00 + (c.toNat - 0x10000) % 0x400) = true := by
    simp only [isLowSurrogate, Bool.and_eq_true, decide_eq_true_eq]
    omega
  have hcode : 0x10000 + (0xd800 + (c.toNat - 0x10000) / 0x400 - 0xd800) * 0x400 +
      (0xdc00 + (c.toNat - 0x10000) % 0x400 - 0xdc00) = c.toNat := by omega
  rw [readCodeEscape_surrogates hhigh hlow, hcode, Char.ofNat_toNat]

/-- **One character of a text is read in one step**, whatever its escape. -/
theorem readText_escapeChar (c : Char) (fuel : Nat) (rest : List Char) :
    readText (fuel + 1) (escapeChar c ++ rest)
      = (readText fuel rest).map fun r => (c :: r.1, r.2) := by
  have hbind : ∀ x : Char, (do let r ← readText fuel rest; return (x :: r.1, r.2))
      = (readText fuel rest).map fun r => (x :: r.1, r.2) := fun x => by
    cases readText fuel rest <;> rfl
  unfold escapeChar
  split_ifs with hquote hslash hn hr ht hf hb hprint hunit
  · subst hquote; simpa [readText, simpleEscape?] using hbind '"'
  · subst hslash; simpa [readText, simpleEscape?] using hbind '\\'
  · subst hn; simpa [readText, simpleEscape?] using hbind '\n'
  · subst hr; simpa [readText, simpleEscape?] using hbind '\r'
  · subst ht; simpa [readText, simpleEscape?] using hbind '\t'
  · subst hf; simpa [readText, simpleEscape?] using hbind '\x0c'
  · subst hb; simpa [readText, simpleEscape?] using hbind '\x08'
  · simpa [readText, hquote, hslash, Nat.not_lt.mpr hprint.1] using hbind c
  · simpa [readText, unitEscape, readCodeEscape_unit hunit] using hbind c
  · have hpair := readCodeEscape_pair (Nat.not_lt.mp hunit) rest
    simp only [unitEscape, List.cons_append] at hpair
    simpa [readText, unitEscape, hpair] using hbind c

/-- Each character is written as something. -/
theorem length_escapeChar_pos (c : Char) : 0 < (escapeChar c).length := by
  unfold escapeChar
  split_ifs <;> simp [unitEscape]

/-- An escape is written in ASCII. -/
theorem isAscii_of_mem_unitEscape {x : Char} {n : Nat} (h : x ∈ unitEscape n) : IsAscii x := by
  simp only [unitEscape, List.mem_cons] at h
  rcases h with rfl | rfl | h
  · decide
  · decide
  · obtain ⟨d, hd, rfl⟩ := Hex.mem_padded h
    exact Hex.isAscii_digit hd

/-- Every character is written in ASCII. -/
theorem isAscii_of_mem_escapeChar {c x : Char} (h : x ∈ escapeChar c) : IsAscii x := by
  unfold escapeChar at h
  split_ifs at h with _ _ _ _ _ _ _ hprint _
  · exact forall_isAscii (by decide) x h
  · exact forall_isAscii (by decide) x h
  · exact forall_isAscii (by decide) x h
  · exact forall_isAscii (by decide) x h
  · exact forall_isAscii (by decide) x h
  · exact forall_isAscii (by decide) x h
  · exact forall_isAscii (by decide) x h
  · obtain rfl := List.mem_singleton.mp h
    exact Nat.lt_trans hprint.2 (by decide)
  · exact isAscii_of_mem_unitEscape h
  · rcases List.mem_append.mp h with h | h <;> exact isAscii_of_mem_unitEscape h

/-- The characters of a string are read as they were written. -/
theorem readText_flatMap (cs rest : List Char) {fuel : Nat} (h : cs.length < fuel) :
    readText fuel (cs.flatMap escapeChar ++ '"' :: rest) = some (cs, rest) := by
  induction cs generalizing fuel with
  | nil =>
    obtain ⟨fuel, rfl⟩ := Nat.exists_eq_succ_of_ne_zero (Nat.ne_of_gt h)
    simp [readText]
  | cons c cs ih =>
    obtain ⟨fuel, rfl⟩ := Nat.exists_eq_succ_of_ne_zero (Nat.ne_zero_of_lt h)
    rw [List.flatMap_cons, List.append_assoc, readText_escapeChar,
      ih (Nat.lt_of_succ_lt_succ h), Option.map_some]

/-- A string is written with at least as many characters as it has. -/
theorem length_le_length_flatMap (cs : List Char) : cs.length ≤ (cs.flatMap escapeChar).length := by
  induction cs with
  | nil => simp
  | cons c cs ih =>
    have := length_escapeChar_pos c
    simp only [List.flatMap_cons, List.length_append, List.length_cons]
    omega

/-- A text behind its opening quote is read up to its closing quote. -/
theorem readText_writeText (s : String) (rest : List Char) :
    readText ((s.toList.flatMap escapeChar ++ '"' :: rest).length + 1)
      (s.toList.flatMap escapeChar ++ '"' :: rest) = some (s.toList, rest) := by
  have := length_le_length_flatMap s.toList
  exact readText_flatMap _ _ (by simp only [List.length_append]; omega)

theorem writeText_append (s : String) (rest : List Char) :
    writeText s ++ rest = '"' :: (s.toList.flatMap escapeChar ++ '"' :: rest) := by
  simp [writeText]

/-- **A string is read as it was written.** -/
theorem readScalar_writeText (s : String) (rest : List Char) :
    readScalar (writeText s ++ rest) = .ok (str s, rest) := by
  rw [writeText_append, readScalar, readText_writeText, orMalformed]
  simp [String.ofList_toList]

/-! ## Whole numbers -/

/-- What may come after a written value: nothing, a comma or a closing
bracket. -/
def Closes (rest : List Char) : Prop := ∀ c ∈ rest.head?, c = ',' ∨ c = ']' ∨ c = '\x7d'

/-- The end of the text closes a number. -/
theorem closes_nil : Closes [] := by simp [Closes]

/-- So do a comma and a closing bracket. -/
theorem closes_cons {c : Char} (h : c = ',' ∨ c = ']' ∨ c = '\x7d') (rest : List Char) :
    Closes (c :: rest) := by
  simpa [Closes] using h

/-- No digit follows a number. -/
theorem Closes.takeWhile_isDigit {rest : List Char} (h : Closes rest) :
    rest.takeWhile Char.isDigit = [] := by
  cases rest with
  | nil => rfl
  | cons c rest =>
    rcases h c rfl with rfl | rfl | rfl <;> rfl

/-- No fraction follows a whole number. -/
theorem Closes.readFraction {rest : List Char} (h : Closes rest) :
    readFraction rest = ([], rest) := by
  cases rest with
  | nil => rfl
  | cons c rest =>
    rcases h c rfl with rfl | rfl | rfl <;> rfl

/-- No exponent follows a whole number. -/
theorem Closes.readExponent {rest : List Char} (h : Closes rest) :
    readExponent rest = (none, rest) := by
  cases rest with
  | nil => rfl
  | cons c rest =>
    rcases h c rfl with rfl | rfl | rfl <;> rfl

theorem ne_of_isDigit {c d : Char} (hc : c.isDigit) (hd : d.isDigit = false) : c ≠ d := by
  rintro rfl
  rw [hc] at hd
  cases hd

/-- The digits of a whole number are read as the number. -/
theorem readMagnitude_toDigits {n : Nat} (hn : (Nat.toDigits 10 n).length ≤ Numeral.maxDigits)
    (negative : Bool) {rest : List Char} (h : Closes rest) :
    readMagnitude negative (Nat.toDigits 10 n ++ rest)
      = .ok (int (if negative then -(n : Int) else n), rest) := by
  have hrun : (Nat.toDigits 10 n ++ rest).takeWhile Char.isDigit = Nat.toDigits 10 n := by
    rw [List.takeWhile_append_of_pos fun c => Numeral.isDigit_of_mem_toDigits,
      h.takeWhile_isDigit, List.append_nil]
  have hwhole : (if (Nat.toDigits 10 n).head? = some '0' then ['0'] else Nat.toDigits 10 n)
      = Nat.toDigits 10 n := by
    split_ifs with hzero
    · rw [Numeral.eq_zero_of_head?_toDigits hzero]
      rfl
    · rfl
  have hvalue : wholeOfDigits negative (Nat.toDigits 10 n)
      = .ok (if negative then -(n : Int) else n) := by
    rw [wholeOfDigits, if_neg (Nat.not_lt.mpr hn), Numeral.natOfDigits_toDigits]
  simp [readMagnitude, hrun, hwhole, h.readFraction, h.readExponent, hvalue, Except.map]

/-- A whole number is written as its sign and its digits. -/
theorem writeChars_int (i : Int) :
    writeChars (int i) = (if i < 0 then ['-'] else []) ++ Nat.toDigits 10 i.natAbs := by
  rw [writeChars, Numeral.toList_toString]

/-- A whole number is written with a sign and digits only. -/
theorem eq_or_isDigit_of_mem_writeChars {i : Int} {c : Char} (h : c ∈ writeChars (int i)) :
    c = '-' ∨ c.isDigit := by
  rw [writeChars] at h
  exact Numeral.eq_or_isDigit_of_mem_toString h

/-- What begins with another character is no named value. -/
theorem readNamed_eq_none {c : Char} (h : c ∉ ['n', 't', 'f', 'N', 'I']) (cs : List Char) :
    readNamed (c :: cs) = none := by
  simp only [List.mem_cons, List.not_mem_nil, or_false, not_or] at h
  obtain ⟨hn, ht, hf, hN, hI⟩ := h
  simp [readNamed, namedValues, after?, Ne.symm hn, Ne.symm ht, Ne.symm hf, Ne.symm hN,
    Ne.symm hI]

/-- **A whole number is read as it was written**, if something closes it. -/
theorem readScalar_int {i : Int} (hi : (int i).isWritable) {rest : List Char} (h : Closes rest) :
    readScalar (writeChars (int i) ++ rest) = .ok (int i, rest) := by
  have hfew : (Nat.toDigits 10 i.natAbs).length ≤ Numeral.maxDigits := by
    simpa [isWritable] using hi
  have hmagnitude := fun negative => readMagnitude_toDigits hfew negative h
  cases hds : Nat.toDigits 10 i.natAbs with
  | nil => exact absurd hds Nat.toDigits_ne_nil
  | cons d ds =>
    have hd : d.isDigit := Numeral.isDigit_of_mem_toDigits (hds ▸ List.mem_cons_self)
    rw [hds] at hmagnitude
    rw [writeChars_int, hds]
    split_ifs with hneg
    · have hi : -(i.natAbs : Int) = i := by omega
      have hI : 'I' ≠ d := (ne_of_isDigit hd (by decide)).symm
      have hafter : after? ['I', 'n', 'f', 'i', 'n', 'i', 't', 'y'] (d :: (ds ++ rest)) = none := by
        simp [after?, hI]
      have hnamed : readNamed ('-' :: d :: (ds ++ rest)) = none :=
        readNamed_eq_none (by decide) _
      have := hmagnitude true
      simp only [List.cons_append, if_true, hi] at this
      simp [readScalar, hnamed, readNumber, hafter, this]
    · have hi : (i.natAbs : Int) = i := by omega
      have hquote : d ≠ '"' := ne_of_isDigit hd (by decide)
      have hminus : d ≠ '-' := ne_of_isDigit hd (by decide)
      have hnamed : readNamed (d :: (ds ++ rest)) = none := by
        refine readNamed_eq_none ?_ _
        simp only [List.mem_cons, List.not_mem_nil, or_false, not_or]
        refine ⟨?_, ?_, ?_, ?_, ?_⟩ <;> exact ne_of_isDigit hd (by decide)
      have := hmagnitude false
      simp only [List.cons_append, hi] at this
      simp [readScalar, hquote, hnamed, readNumber, hminus, this]

/-! ## Values -/

/-- How a written value begins: with no blank, and with no bracket that
closes. -/
theorem exists_writeChars_eq_cons {j : Json} (h : j.isPlain) :
    ∃ c cs, writeChars j = c :: cs ∧ isSpace c = false ∧ c ≠ ']' := by
  cases j with
  | null => exact ⟨_, _, rfl, by decide, by decide⟩
  | bool b => cases b <;> exact ⟨_, _, rfl, by decide, by decide⟩
  | int i =>
    rw [writeChars_int]
    split_ifs with hneg
    · exact ⟨_, _, rfl, by decide, by decide⟩
    · cases hds : Nat.toDigits 10 i.natAbs with
      | nil => exact absurd hds Nat.toDigits_ne_nil
      | cons d ds =>
        have hd : d.isDigit := Numeral.isDigit_of_mem_toDigits (hds ▸ List.mem_cons_self)
        refine ⟨d, ds, rfl, ?_, ne_of_isDigit hd (by decide)⟩
        have hspace : ∀ c, c.isDigit = false → (d == c) = false := fun c hc =>
          beq_eq_false_iff_ne.mpr (ne_of_isDigit hd hc)
        rw [isSpace, hspace ' ' (by decide), hspace '\t' (by decide), hspace '\n' (by decide),
          hspace '\r' (by decide)]
        rfl
  | double x => simp [isPlain] at h
  | str s => exact ⟨_, _, rfl, by decide, by decide⟩
  | arr items => exact ⟨_, _, rfl, by decide, by decide⟩
  | obj entries => exact ⟨_, _, rfl, by decide, by decide⟩

theorem skipSpace_cons {c : Char} (h : isSpace c = false) (cs : List Char) :
    skipSpace (c :: cs) = c :: cs := by
  simp [skipSpace, h]

theorem skipSpace_blank_cons {c : Char} (h : isSpace c = false) (cs : List Char) :
    skipSpace (' ' :: c :: cs) = c :: cs := by
  rw [skipSpace, List.dropWhile_cons_of_pos (by decide)]
  exact skipSpace_cons h cs

theorem writeItems_cons_cons (j j' : Json) (more : List Json) :
    writeItems (j :: j' :: more) = writeChars j ++ ',' :: ' ' :: writeItems (j' :: more) := by
  simp [writeItems]

theorem writeEntries_cons_cons (k : String) (j : Json) (entry : String × Json) (more : Entries) :
    writeEntries ((k, j) :: entry :: more)
      = writeText k ++
        ':' :: ' ' :: (writeChars j ++ ',' :: ' ' :: writeEntries (entry :: more)) := by
  simp [writeEntries]

/-- A list of items begins with something that is neither blank nor a bracket. -/
theorem exists_writeItems_eq_cons {j : Json} (h : j.isPlain) (items : List Json) :
    ∃ c cs, writeItems (j :: items) = c :: cs ∧ isSpace c = false ∧ c ≠ ']' := by
  obtain ⟨c, cs, hcs, hc⟩ := exists_writeChars_eq_cons h
  cases items with
  | nil => exact ⟨c, cs, by rw [writeItems, hcs], hc⟩
  | cons j' more => exact ⟨c, _, by rw [writeItems_cons_cons, hcs, List.cons_append], hc⟩

/-- A list of entries begins with a quote. -/
theorem exists_writeEntries_eq_cons (entry : String × Json) (entries : Entries) :
    ∃ cs, writeEntries (entry :: entries) = '"' :: cs := by
  obtain ⟨k, j⟩ := entry
  cases entries <;> simp [writeEntries, writeText]

theorem readScalar_null (rest : List Char) :
    readScalar (writeChars null ++ rest) = .ok (null, rest) := by
  simp [writeChars, readScalar, readNamed, namedValues, after?]

theorem readScalar_bool (b : Bool) (rest : List Char) :
    readScalar (writeChars (bool b) ++ rest) = .ok (bool b, rest) := by
  cases b <;> simp [writeChars, readScalar, readNamed, namedValues, after?]

/-- What is neither an array nor an object is read as a scalar. -/
theorem readValue_scalar {c : Char} {cs : List Char} {fuel : Nat} (harr : c ≠ '[')
    (hobj : c ≠ '\x7b') : readValue (fuel + 1) (c :: cs) = readScalar (c :: cs) := by
  simp [readValue, harr, hobj]

theorem readValue_int {i : Int} (hw : (int i).isWritable) {fuel : Nat} {rest : List Char}
    (h : Closes rest) : readValue (fuel + 1) (writeChars (int i) ++ rest) = .ok (int i, rest) := by
  have hscalar := readScalar_int hw h
  obtain ⟨c, cs, hcs, -⟩ := exists_writeChars_eq_cons (j := int i) rfl
  have hmem : c ∈ writeChars (int i) := hcs ▸ List.mem_cons_self
  rw [hcs, List.cons_append] at hscalar ⊢
  rw [readValue_scalar ?_ ?_, hscalar] <;>
  · rintro rfl
    rcases eq_or_isDigit_of_mem_writeChars hmem with h | h <;> exact absurd h (by decide)

/-- An array that holds something is read by its items. -/
theorem readValue_arr {c : Char} {cs : List Char} {fuel : Nat} (hspace : isSpace c = false)
    (hclose : c ≠ ']') :
    readValue (fuel + 1) ('[' :: c :: cs)
      = (readItems fuel (c :: cs)).map fun r => (arr r.1, r.2) := by
  rw [readValue, if_pos rfl, skipSpace_cons hspace]
  split
  · exact absurd (List.cons.inj ‹_›).1 hclose
  · cases readItems fuel (c :: cs) <;> rfl

/-- An object that holds something is read by its entries. -/
theorem readValue_obj {cs : List Char} {fuel : Nat} :
    readValue (fuel + 1) ('\x7b' :: '"' :: cs)
      = (readEntries fuel [] ('"' :: cs)).map fun r => (obj r.1, r.2) := by
  rw [readValue, if_neg (by decide), if_pos rfl, skipSpace_cons (by decide)]
  split
  · exact absurd (List.cons.inj ‹_›).1 (by decide)
  · cases readEntries fuel [] ('"' :: cs) <;> rfl

/-- How an entry is read: its key, its value, and what comes after. -/
theorem readEntries_entry {k : String} {j : Json} {rest : List Char} {fuel : Nat} {before : Entries}
    (hj : j.isPlain) (hread : readValue fuel (writeChars j ++ rest) = .ok (j, rest)) :
    readEntries (fuel + 1) before (writeText k ++ ':' :: ' ' :: (writeChars j ++ rest))
      = match skipSpace rest with
        | ',' :: more => readEntries fuel (before.set k j) (skipSpace more)
        | '\x7d' :: more => .ok (before.set k j, more)
        | _ => .error .malformed := by
  obtain ⟨c, cs, hcs, hc, -⟩ := exists_writeChars_eq_cons hj
  have hblank : skipSpace (' ' :: (writeChars j ++ rest)) = writeChars j ++ rest := by
    rw [hcs]
    exact skipSpace_blank_cons hc _
  have hcolon : skipSpace (':' :: ' ' :: (writeChars j ++ rest)) =
      ':' :: ' ' :: (writeChars j ++ rest) :=
    skipSpace_cons (by decide) _
  rw [writeText_append, readEntries, readText_writeText, orMalformed]
  simp only [bind, Except.bind, hcolon, hblank, hread, String.ofList_toList]
  rfl

/-- A key that comes later does not stand among the earlier ones. -/
theorem not_mem_of_nodup {before entries : Entries} {k : String} {j : Json}
    (h : ((before ++ (k, j) :: entries).map (·.1)).Nodup) : k ∉ before.map (·.1) := by
  rw [List.map_append, List.nodup_append] at h
  exact fun hk => h.2.2 k hk k List.mem_cons_self rfl

/-- How an item is read, and what comes after. -/
theorem readItems_item {j : Json} {rest : List Char} {fuel : Nat}
    (hread : readValue fuel (writeChars j ++ rest) = .ok (j, rest)) :
    readItems (fuel + 1) (writeChars j ++ rest)
      = match skipSpace rest with
        | ',' :: more => do
          let (items, after) ← readItems fuel (skipSpace more)
          return (j :: items, after)
        | ']' :: more => return ([j], more)
        | _ => .error .malformed := by
  rw [readItems, hread]
  rfl

mutual
/-- **A written value is read back**, and the reader stops behind it. -/
theorem readValue_writeChars : ∀ (j : Json), j.isPlain → j.isWritable → ∀ {fuel : Nat}
    {rest : List Char}, (writeChars j).length < fuel → Closes rest →
    readValue fuel (writeChars j ++ rest) = .ok (j, rest)
  | .null, _, _, fuel + 1, rest, _, _ => readScalar_null rest
  | .bool b, _, _, fuel + 1, rest, _, _ => by
    rw [← readScalar_bool b rest]
    cases b <;> exact readValue_scalar (by decide) (by decide)
  | .int i, _, hw, fuel + 1, rest, _, h => readValue_int hw h
  | .str s, _, _, fuel + 1, rest, _, _ => by
    rw [← readScalar_writeText s rest, writeChars, writeText_append]
    exact readValue_scalar (by decide) (by decide)
  | .arr [], _, _, fuel + 1, rest, _, _ => by
    simp [writeChars, writeItems, readValue, skipSpace, isSpace]
    rfl
  | .arr (j :: items), hp, hw, fuel + 1, rest, hfuel, _ => by
    have hlength : (writeItems (j :: items)).length + 1 < fuel := by
      simp [writeChars] at hfuel
      omega
    have hitems := readItems_writeItems (j :: items) (by simp) hp hw rest hlength
    have hj : j.isPlain := by simp [isPlain, arePlain] at hp; exact hp.1
    obtain ⟨c, cs, hcs, hspace, hclose⟩ := exists_writeItems_eq_cons hj items
    rw [hcs, List.cons_append] at hitems
    rw [writeChars, hcs]
    simp only [List.cons_append, List.append_assoc, List.nil_append]
    rw [readValue_arr hspace hclose, hitems, Except.map]
  | .obj [], _, _, fuel + 1, rest, _, _ => by
    simp [writeChars, writeEntries, readValue, skipSpace, isSpace]
    rfl
  | .obj (entry :: entries), hp, hw, fuel + 1, rest, hfuel, _ => by
    have hlength : (writeEntries (entry :: entries)).length + 1 < fuel := by
      simp [writeChars] at hfuel
      omega
    simp only [isPlain, Bool.and_eq_true, decide_eq_true_eq] at hp
    have hentries := readEntries_writeEntries (entry :: entries) (by simp) hp.2 hw [] rest
      (by simpa using hp.1) hlength
    obtain ⟨cs, hcs⟩ := exists_writeEntries_eq_cons entry entries
    rw [hcs, List.cons_append] at hentries
    rw [writeChars, hcs]
    simp only [List.cons_append, List.append_assoc, List.nil_append]
    rw [readValue_obj, hentries, Except.map, List.nil_append]
/-- **Items are read as they were written.** -/
theorem readItems_writeItems : ∀ (items : List Json), items ≠ [] → arePlain items →
    areWritable items → ∀ {fuel : Nat} (rest : List Char), (writeItems items).length + 1 < fuel →
    readItems fuel (writeItems items ++ ']' :: rest) = .ok (items, rest)
  | [j], _, hp, hw, fuel + 1, rest, hfuel => by
    simp only [arePlain, areWritable, Bool.and_true] at hp hw
    rw [writeItems] at hfuel ⊢
    rw [readItems_item (readValue_writeChars j hp hw (by omega) (closes_cons (by decide) _)),
      skipSpace_cons (by decide)]
    rfl
  | j :: j' :: more, _, hp, hw, fuel + 1, rest, hfuel => by
    rw [arePlain, Bool.and_eq_true] at hp
    rw [areWritable, Bool.and_eq_true] at hw
    have hj' : j'.isPlain := by
      have := hp.2
      simp [arePlain] at this
      exact this.1
    have hlength : (writeItems (j :: j' :: more)).length
        = (writeChars j).length + (writeItems (j' :: more)).length + 2 := by
      simp [writeItems_cons_cons]
      omega
    have hmore := readItems_writeItems (j' :: more) (by simp) hp.2 hw.2 rest
      (by omega : _ < fuel)
    obtain ⟨c, cs, hcs, hspace, -⟩ := exists_writeItems_eq_cons hj' more
    rw [writeItems_cons_cons, List.append_assoc, List.cons_append, List.cons_append,
      readItems_item (readValue_writeChars j hp.1 hw.1 (by omega) (closes_cons (by decide) _)),
      skipSpace_cons (by decide)]
    rw [hcs, List.cons_append] at hmore ⊢
    simp only [skipSpace_blank_cons hspace, hmore]
    rfl
/-- **Entries are read as they were written**, behind those that were read already. -/
theorem readEntries_writeEntries : ∀ (entries : Entries), entries ≠ [] → entriesPlain entries →
    entriesWritable entries → ∀ {fuel : Nat} (before : Entries) (rest : List Char),
    ((before ++ entries).map (·.1)).Nodup → (writeEntries entries).length + 1 < fuel →
    readEntries fuel before (writeEntries entries ++ '\x7d' :: rest) = .ok (before ++ entries, rest)
  | [(k, j)], _, hp, hw, fuel + 1, before, rest, hkeys, hfuel => by
    simp only [entriesPlain, entriesWritable, Bool.and_true] at hp hw
    have hk : k ∉ before.map (·.1) := not_mem_of_nodup hkeys
    have hlength : (writeChars j).length < fuel := by
      simp [writeEntries] at hfuel
      omega
    rw [writeEntries, List.append_assoc, List.cons_append, List.cons_append,
      readEntries_entry hp (readValue_writeChars j hp hw hlength (closes_cons (by decide) _)),
      skipSpace_cons (by decide), Entries.set_of_not_mem hk]
    rfl
  | (k, j) :: entry :: more, _, hp, hw, fuel + 1, before, rest, hkeys, hfuel => by
    rw [entriesPlain, Bool.and_eq_true] at hp
    rw [entriesWritable, Bool.and_eq_true] at hw
    have hk : k ∉ before.map (·.1) := not_mem_of_nodup hkeys
    have hlength : (writeEntries ((k, j) :: entry :: more)).length
        = (writeText k).length + (writeChars j).length +
          (writeEntries (entry :: more)).length + 4 := by
      simp [writeEntries_cons_cons]
      omega
    have hmore := readEntries_writeEntries (entry :: more) (by simp) hp.2 hw.2
      (before ++ [(k, j)]) rest (by simpa using hkeys) (by omega : _ < fuel)
    obtain ⟨cs, hcs⟩ := exists_writeEntries_eq_cons entry more
    rw [hcs, List.cons_append] at hmore
    rw [writeEntries_cons_cons, hcs]
    simp only [List.cons_append, List.append_assoc]
    rw [readEntries_entry hp.1
      (readValue_writeChars j hp.1 hw.1 (by omega) (closes_cons (by decide) _)),
      skipSpace_cons (by decide), Entries.set_of_not_mem hk]
    simp only [skipSpace_blank_cons (c := '"') (by decide), hmore]
    simp
end

/-- **A text that was written spells the value that it was written for.** -/
theorem read_write {j : Json} (hp : j.isPlain) (hw : j.isWritable) : read (write j) = .ok j := by
  obtain ⟨c, cs, hcs, hspace, -⟩ := exists_writeChars_eq_cons hp
  have hfront : skipSpace (writeChars j) = writeChars j := by
    rw [hcs, skipSpace_cons hspace]
  have hvalue := readValue_writeChars j hp hw (Nat.lt_succ_self _) closes_nil
  rw [List.append_nil] at hvalue
  simp only [read, write, String.toList_ofList, hfront, bind, Except.bind, hvalue]
  rfl

/-! ## Every character is one byte -/

theorem isAscii_of_mem_writeText {s : String} {c : Char} (h : c ∈ writeText s) : IsAscii c := by
  simp only [writeText, List.cons_append, List.mem_cons, List.mem_append, List.mem_flatMap,
    List.not_mem_nil, or_false] at h
  rcases h with rfl | ⟨x, -, h⟩ | rfl
  · decide
  · exact isAscii_of_mem_escapeChar h
  · decide

mutual
/-- **Every plain value is written in ASCII.** -/
theorem isAscii_of_mem_writeChars : ∀ (j : Json), j.isPlain → ∀ c ∈ writeChars j, IsAscii c
  | .null, _ => by rw [writeChars]; exact forall_isAscii (by decide)
  | .bool b, _ => by
    cases b <;> simp only [writeChars] <;> exact forall_isAscii (by decide)
  | .int i, _ => fun c hc => by
    rcases eq_or_isDigit_of_mem_writeChars hc with rfl | hdigit
    · decide
    · exact isAscii_of_isDigit hdigit
  | .str s, _ => fun c hc => isAscii_of_mem_writeText (by rwa [writeChars] at hc)
  | .arr items, hp => fun c hc => by
    simp only [writeChars, List.cons_append, List.mem_cons, List.mem_append, List.not_mem_nil,
      or_false] at hc
    rcases hc with rfl | hc | rfl
    · decide
    · exact isAscii_of_mem_writeItems items hp c hc
    · decide
  | .obj entries, hp => fun c hc => by
    simp only [isPlain, Bool.and_eq_true] at hp
    simp only [writeChars, List.cons_append, List.mem_cons, List.mem_append, List.not_mem_nil,
      or_false] at hc
    rcases hc with rfl | hc | rfl
    · decide
    · exact isAscii_of_mem_writeEntries entries hp.2 c hc
    · decide
/-- So are the items of an array. -/
theorem isAscii_of_mem_writeItems : ∀ (items : List Json), arePlain items →
    ∀ c ∈ writeItems items, IsAscii c
  | [], _ => by simp [writeItems]
  | [j], hp => fun c hc => by
    simp only [arePlain, Bool.and_true] at hp
    exact isAscii_of_mem_writeChars j hp c (by rwa [writeItems] at hc)
  | j :: j' :: more, hp => fun c hc => by
    rw [arePlain, Bool.and_eq_true] at hp
    simp only [writeItems_cons_cons, List.mem_append, List.mem_cons] at hc
    rcases hc with hc | rfl | rfl | hc
    · exact isAscii_of_mem_writeChars j hp.1 c hc
    · decide
    · decide
    · exact isAscii_of_mem_writeItems (j' :: more) hp.2 c hc
/-- So are the entries of an object. -/
theorem isAscii_of_mem_writeEntries : ∀ (entries : Entries), entriesPlain entries →
    ∀ c ∈ writeEntries entries, IsAscii c
  | [], _ => by simp [writeEntries]
  | [(k, j)], hp => fun c hc => by
    simp only [entriesPlain, Bool.and_true] at hp
    simp only [writeEntries, List.mem_append, List.mem_cons] at hc
    rcases hc with hc | rfl | rfl | hc
    · exact isAscii_of_mem_writeText hc
    · decide
    · decide
    · exact isAscii_of_mem_writeChars j hp c hc
  | (k, j) :: entry :: more, hp => fun c hc => by
    rw [entriesPlain, Bool.and_eq_true] at hp
    simp only [writeEntries_cons_cons, List.mem_append, List.mem_cons] at hc
    rcases hc with hc | rfl | rfl | hc | rfl | rfl | hc
    · exact isAscii_of_mem_writeText hc
    · decide
    · decide
    · exact isAscii_of_mem_writeChars j hp.1 c hc
    · decide
    · decide
    · exact isAscii_of_mem_writeEntries (entry :: more) hp.2 c hc
end

end Retype.Json
