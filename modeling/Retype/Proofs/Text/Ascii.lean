import Retype.Text.Hex
import Retype.Text.Numeral
import Retype.Text.Utf8
/-!
# ASCII text read back

What is written in ASCII comes back when it is read: a character is one byte,
the decimal digits of a number spell that number, and four hexadecimal digits
spell a code unit.
-/

namespace Retype

/-! ## One byte for each character -/

/-- The characters of ASCII. -/
def IsAscii (c : Char) : Prop := c.toNat < 0x80

instance : DecidablePred IsAscii := fun c => inferInstanceAs (Decidable (c.toNat < 0x80))

/-- For some given characters this can be computed. -/
theorem forall_isAscii {cs : List Char} (h : cs.all (IsAscii ·) = true) : ∀ c ∈ cs, IsAscii c :=
  fun c hc => of_decide_eq_true (List.all_eq_true.1 h c hc)

/-- The byte of a character of ASCII. -/
def asciiByte (c : Char) : UInt8 := UInt8.ofNat c.toNat

/-- The byte of an ASCII character has its code. -/
theorem toNat_asciiByte {c : Char} (h : IsAscii c) : (asciiByte c).toNat = c.toNat := by
  have : c.toNat < 256 := Nat.lt_trans h (by decide)
  simp [asciiByte, Nat.mod_eq_of_lt this]

/-- A digit's code lies between those of `0` and `9`. -/
theorem toNat_of_isDigit {c : Char} (h : c.isDigit) : 0x30 ≤ c.toNat ∧ c.toNat ≤ 0x39 := by
  simp only [Char.isDigit, Bool.and_eq_true, decide_eq_true_eq, ge_iff_le,
    UInt32.le_iff_toNat_le] at h
  exact h

/-- A digit is ASCII. -/
theorem isAscii_of_isDigit {c : Char} (h : c.isDigit) : IsAscii c :=
  Nat.lt_of_le_of_lt (toNat_of_isDigit h).2 (by decide)

namespace Utf8

/-- An ASCII text is encoded byte by byte. -/
theorem encode_ascii {cs : List Char} (h : ∀ c ∈ cs, IsAscii c) :
    encode (String.ofList cs) = cs.map asciiByte := by
  rw [encode, String.toList_ofList]
  induction cs with
  | nil => rfl
  | cons c cs ih =>
    have hc : c.toNat < 0x80 := h c List.mem_cons_self
    have ih := ih fun c' hc' => h c' (List.mem_cons_of_mem c hc')
    rw [List.flatMap_cons, ih, List.map_cons, encodeChar, if_pos hc]
    rfl

/-- An ASCII byte in front is read as its character. -/
theorem front_ascii {c : Char} (h : IsAscii c) (rest : List UInt8) :
    front (asciiByte c) rest = .char c rest := by
  have hlt : asciiByte c < 0x80 := by
    rw [UInt8.lt_iff_toNat_lt, toNat_asciiByte h]
    exact h
  simp [front, lead?, hlt, further, toNat_asciiByte h]

/-- ASCII bytes are read as the text they encode. -/
theorem scan_ascii {cs : List Char} (h : ∀ c ∈ cs, IsAscii c) :
    scan cs.length (cs.map asciiByte) = (cs, false) := by
  induction cs with
  | nil => rfl
  | cons c cs ih =>
    have ih := ih fun c' hc' => h c' (List.mem_cons_of_mem c hc')
    simp [scan, front_ascii (h c List.mem_cons_self), ih]

/-- Bytes of ASCII are read as the characters that they were written for. -/
theorem decode?_ascii {cs : List Char} (h : ∀ c ∈ cs, IsAscii c) :
    decode? (cs.map asciiByte) = some (String.ofList cs) := by
  rw [decode?, List.length_map, scan_ascii h]

end Utf8

/-! ## Decimal digits -/

namespace Numeral

/-- A number is written in digits. -/
theorem isDigit_of_mem_toDigits {n : Nat} {c : Char} (h : c ∈ Nat.toDigits 10 n) : c.isDigit :=
  Nat.isDigit_of_mem_toDigits (by decide) (by decide) h

/-- Its digits are read back. -/
theorem natOfDigits_toDigits (n : Nat) : natOfDigits (Nat.toDigits 10 n) = n :=
  Nat.ofDigitChars_ten_toDigits

/-- A whole number is written as its sign and its digits. -/
theorem toList_toString (i : Int) :
    (toString i).toList = (if i < 0 then ['-'] else []) ++ Nat.toDigits 10 i.natAbs := by
  rw [Int.toString_eq_repr, Int.repr_eq_if]
  by_cases hpos : 0 ≤ i
  · have habs : i.toNat = i.natAbs := by omega
    simp [hpos, Int.not_lt.mpr hpos, habs]
  · have habs : (-i).toNat = i.natAbs := by omega
    simp [hpos, Int.not_le.mp hpos, habs]

/-- An integer is written in digits, maybe after a sign. -/
theorem eq_or_isDigit_of_mem_toString {i : Int} {c : Char} (h : c ∈ (toString i).toList) :
    c = '-' ∨ c.isDigit := by
  rw [toList_toString, List.mem_append] at h
  refine h.imp (fun h => ?_) isDigit_of_mem_toDigits
  split at h
  · exact List.mem_singleton.mp h
  · cases h

/-- A whole number is known by how it is written. -/
theorem toString_int_inj {i j : Int} (h : toString i = toString j) : i = j := by
  have hdigits (i : Int) : (toString i).toList.filter Char.isDigit = Nat.toDigits 10 i.natAbs := by
    have hminus : ¬ ('-').isDigit = true := by decide
    rw [toList_toString, List.filter_append,
      List.filter_eq_self.2 fun c => isDigit_of_mem_toDigits]
    split <;> simp [hminus]
  have hsign (i : Int) : '-' ∈ (toString i).toList ↔ i < 0 := by
    have hminus : '-' ∉ Nat.toDigits 10 i.natAbs :=
      fun h => absurd (isDigit_of_mem_toDigits h) (by decide)
    rw [toList_toString]
    split <;> simp_all
  have habs : i.natAbs = j.natAbs := by
    rw [← natOfDigits_toDigits i.natAbs, ← hdigits, h, hdigits, natOfDigits_toDigits]
  have hneg : i < 0 ↔ j < 0 := by rw [← hsign, h, hsign]
  omega

/-- Only zero is written with a zero in front. -/
theorem eq_zero_of_head?_toDigits {n : Nat} (h : (Nat.toDigits 10 n).head? = some '0') : n = 0 := by
  induction n using Nat.strongRecOn with
  | ind n ih =>
    rcases Nat.lt_or_ge n 10 with hlt | hge
    · simpa [Nat.toDigits_of_lt_base hlt] using h
    · have hfront : (Nat.toDigits 10 (n / 10)).head? = some '0' := by
        cases hds : Nat.toDigits 10 (n / 10) with
        | nil => exact absurd hds Nat.toDigits_ne_nil
        | cons d ds => simpa [Nat.toDigits_of_base_le (by decide) hge, hds] using h
      have := ih (n / 10) (by omega) hfront
      omega

/-- A digit's value is its distance from `0`. -/
theorem digitValue?_of_isDigit {c : Char} (h : c.isDigit) :
    digitValue? c = some (c.toNat - 0x30) := by
  have hc : c.toNat < 0x80 := isAscii_of_isDigit h
  simp [digitValue?, hc, h]

/-- A digit is no underscore. -/
theorem ne_underscore_of_isDigit {c : Char} (h : c.isDigit) : c ≠ '_' := by
  rintro rfl
  exact absurd h (by decide)

/-- Digits are read from left to right. -/
theorem digits?_of_isDigit {ds : List Char} (h : ∀ c ∈ ds, c.isDigit) (n : Nat) :
    digits? true n ds = some (ds.foldl (fun n c => 10 * n + (c.toNat - 0x30)) n) := by
  induction ds generalizing n with
  | nil => rfl
  | cons c ds ih =>
    have hc := h c List.mem_cons_self
    rw [digits?, digitValue?_of_isDigit hc, List.foldl_cons]
    · exact ih (fun c' hc' => h c' (List.mem_cons_of_mem c hc')) _
    · exact ne_underscore_of_isDigit hc

/-- The digits of a number are read as that number. -/
theorem digits?_toDigits (n : Nat) : digits? false 0 (Nat.toDigits 10 n) = some n := by
  have hall : ∀ c ∈ Nat.toDigits 10 n, c.isDigit := fun c => isDigit_of_mem_toDigits
  have hvalue := natOfDigits_toDigits n
  cases hds : Nat.toDigits 10 n with
  | nil => exact absurd hds Nat.toDigits_ne_nil
  | cons c ds =>
    rw [hds] at hall hvalue
    have hc := hall c List.mem_cons_self
    rw [digits?, digitValue?_of_isDigit hc]
    · exact (digits?_of_isDigit (fun c' hc' => hall c' (List.mem_cons_of_mem c hc')) _).trans
        (congrArg some hvalue)
    · exact ne_underscore_of_isDigit hc

/-- Digits have no sign. -/
theorem sign_of_isDigit {ds : List Char} (h : ∀ c ∈ ds, c.isDigit) : sign ds = (false, ds) := by
  unfold sign
  split
  · exact absurd (h '-' List.mem_cons_self) (by decide)
  · exact absurd (h '+' List.mem_cons_self) (by decide)
  · rfl

/-- The digits of a number are read as that number, if they are not too many. -/
theorem intOfList?_toDigits {n : Nat} (h : (Nat.toDigits 10 n).length ≤ maxDigits) :
    intOfList? (Nat.toDigits 10 n) = some (n : Int) := by
  have hfew := Nat.le_trans (List.length_filter_le (· ≠ '_') (Nat.toDigits 10 n)) h
  rw [intOfList?, sign_of_isDigit fun c => isDigit_of_mem_toDigits]
  simp only [if_neg (Nat.not_lt.mpr hfew), digits?_toDigits]
  rfl

end Numeral

/-! ## Hexadecimal digits -/

namespace Hex

/-- A hexadecimal digit is read back. -/
theorem value?_digit {n : Nat} (h : n < 16) : value? (digit n) = some n := by
  have hall : ∀ d : Fin 16, value? (digit d) = some d.val := by decide
  exact hall ⟨n, h⟩

/-- A hexadecimal digit is ASCII. -/
theorem isAscii_digit {n : Nat} (h : n < 16) : IsAscii (digit n) := by
  have hall : ∀ d : Fin 16, (digit d).toNat < 0x80 := by decide
  exact hall ⟨n, h⟩

/-- A padded number consists of hexadecimal digits. -/
theorem mem_padded {c : Char} {width n : Nat} (h : c ∈ padded width n) :
    ∃ d < 16, c = digit d := by
  induction width generalizing n with
  | zero => simp [padded] at h
  | succ width ih =>
    rw [padded, List.mem_append, List.mem_singleton] at h
    rcases h with h | rfl
    · exact ih h
    · exact ⟨n % 16, Nat.mod_lt n (by decide), rfl⟩

end Hex

end Retype
