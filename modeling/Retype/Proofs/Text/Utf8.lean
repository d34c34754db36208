import Retype.Text.Utf8
/-!
# UTF-8 read back

The bytes of a character are read as that character, and the only bytes that
are read as a character are those it is written with. Both are said of the
front of a text first; the whole text follows, since the reading takes one
character at a time. Bytes are text exactly when they are the bytes of some
text, and the zero byte belongs to no character but its own.
-/

namespace Retype.Utf8

/-! ## First bytes -/

/-- A byte that carries six bits of a character. -/
def trail (t : Nat) : UInt8 := UInt8.ofNat (0x80 + t)

theorem toNat_trail {t : Nat} (h : t < 64) : (trail t).toNat = 0x80 + t := by
  have : 0x80 + t < 256 := by omega
  simp [trail, Nat.mod_eq_of_lt this]

theorem lead?_one {n : Nat} (h : n < 0x80) : lead? (UInt8.ofNat n) = some (0, n, 0, 0) := by
  have hall : ∀ k : Fin 0x80, lead? (UInt8.ofNat k.val) = some (0, k.val, 0, 0) := by decide
  exact hall ⟨n, h⟩

theorem lead?_two {n : Nat} (h : n < 32) (hlow : 2 ≤ n) :
    lead? (UInt8.ofNat (0xc0 + n)) = some (1, n, 0x80, 0xbf) := by
  have hall : ∀ k : Fin 32, 2 ≤ k.val →
      lead? (UInt8.ofNat (0xc0 + k.val)) = some (1, k.val, 0x80, 0xbf) := by decide
  exact hall ⟨n, h⟩ hlow

/-- The second byte keeps out what two bytes could say, and the surrogates. -/
theorem lead?_three {n : Nat} (h : n < 16) :
    lead? (UInt8.ofNat (0xe0 + n)) =
      some (2, n, if n = 0 then 0xa0 else 0x80, if n = 13 then 0x9f else 0xbf) := by
  have hall : ∀ k : Fin 16, lead? (UInt8.ofNat (0xe0 + k.val)) =
      some (2, k.val, if k.val = 0 then 0xa0 else 0x80, if k.val = 13 then 0x9f else 0xbf) := by
    decide
  exact hall ⟨n, h⟩

/-- The second byte keeps out what three bytes could say, and what is beyond
the last character. -/
theorem lead?_four {n : Nat} (h : n < 5) :
    lead? (UInt8.ofNat (0xf0 + n)) =
      some (3, n, if n = 0 then 0x90 else 0x80, if n = 4 then 0x8f else 0xbf) := by
  have hall : ∀ k : Fin 5, lead? (UInt8.ofNat (0xf0 + k.val)) =
      some (3, k.val, if k.val = 0 then 0x90 else 0x80, if k.val = 4 then 0x8f else 0xbf) := by
    decide
  exact hall ⟨n, h⟩

/-- A first byte is one of these. -/
theorem lead?_cases {b : UInt8} {more code : Nat} {low high : UInt8}
    (h : lead? b = some (more, code, low, high)) :
    (more = 0 ∧ code < 0x80 ∧ b = UInt8.ofNat code) ∨
    (more = 1 ∧ 2 ≤ code ∧ code < 32 ∧ b = UInt8.ofNat (0xc0 + code)) ∨
    (more = 2 ∧ code < 16 ∧ b = UInt8.ofNat (0xe0 + code)) ∨
    (more = 3 ∧ code < 5 ∧ b = UInt8.ofNat (0xf0 + code)) := by
  have hall : ∀ k : Fin 256, ∀ r ∈ lead? (UInt8.ofNat k.val),
      (r.1 = 0 ∧ r.2.1 < 0x80 ∧ UInt8.ofNat k.val = UInt8.ofNat r.2.1) ∨
      (r.1 = 1 ∧ 2 ≤ r.2.1 ∧ r.2.1 < 32 ∧ UInt8.ofNat k.val = UInt8.ofNat (0xc0 + r.2.1)) ∨
      (r.1 = 2 ∧ r.2.1 < 16 ∧ UInt8.ofNat k.val = UInt8.ofNat (0xe0 + r.2.1)) ∨
      (r.1 = 3 ∧ r.2.1 < 5 ∧ UInt8.ofNat k.val = UInt8.ofNat (0xf0 + r.2.1)) := by
    decide +kernel
  have hb : UInt8.ofNat b.toNat = b := by simp
  have := hall ⟨b.toNat, b.toNat_lt⟩ (more, code, low, high)
  simp only [hb] at this
  exact this h

/-! ## Further bytes -/

theorem further_trail {more code t : Nat} {low high : UInt8} {rest : List UInt8} (ht : t < 64)
    (hlow : low.toNat ≤ 0x80 + t) (hhigh : 0x80 + t ≤ high.toNat) :
    further (more + 1) code low high (trail t :: rest) =
      further more (code * 64 + t) 0x80 0xbf rest := by
  have hin : low ≤ trail t ∧ trail t ≤ high := by
    simp only [UInt8.le_iff_toNat_le, toNat_trail ht]
    exact ⟨hlow, hhigh⟩
  rw [further, if_pos hin, toNat_trail ht, Nat.add_sub_cancel_left]

/-- The last of them have the whole range. -/
theorem further_trail_last {more code t : Nat} {rest : List UInt8} (ht : t < 64) :
    further (more + 1) code 0x80 0xbf (trail t :: rest) =
      further more (code * 64 + t) 0x80 0xbf rest :=
  further_trail ht (Nat.le_add_right 0x80 t)
    (by have : (0xbf : UInt8).toNat = 0x80 + 63 := rfl; omega)

theorem further_eq_char {more code : Nat} {low high : UInt8} {bs rest : List UInt8} {c : Char}
    (hlow : 0x80 ≤ low.toNat) (hhigh : high.toNat < 0xc0)
    (h : further (more + 1) code low high bs = .char c rest) :
    ∃ t bs', t < 64 ∧ low.toNat ≤ 0x80 + t ∧ 0x80 + t ≤ high.toNat ∧ bs = trail t :: bs' ∧
      further more (code * 64 + t) 0x80 0xbf bs' = .char c rest := by
  cases bs with
  | nil => simp [further] at h
  | cons b bs' =>
    simp only [further] at h
    split at h
    · rename_i hin
      simp only [UInt8.le_iff_toNat_le] at hin
      refine ⟨b.toNat - 0x80, bs', by omega, by omega, by omega, ?_, h⟩
      have hb : 0x80 + (b.toNat - 0x80) = b.toNat := by omega
      simp [trail, hb]
    · cases h

theorem further_last_eq_char {more code : Nat} {bs rest : List UInt8} {c : Char}
    (h : further (more + 1) code 0x80 0xbf bs = .char c rest) :
    ∃ t bs', t < 64 ∧ bs = trail t :: bs' ∧
      further more (code * 64 + t) 0x80 0xbf bs' = .char c rest := by
  obtain ⟨t, bs', ht, -, -, hbs, h⟩ := further_eq_char (by decide) (by decide) h
  exact ⟨t, bs', ht, hbs, h⟩

/-! ## Characters by the number of their bytes -/

theorem encodeChar_one {c : Char} (h : c.toNat < 0x80) : encodeChar c = [UInt8.ofNat c.toNat] := by
  rw [encodeChar, if_pos h]

theorem encodeChar_two {c : Char} (h : 0x80 ≤ c.toNat) (h' : c.toNat < 0x800) :
    encodeChar c = [UInt8.ofNat (0xc0 + c.toNat / 64), trail (c.toNat % 64)] := by
  rw [encodeChar, if_neg (by omega), if_pos h']
  simp [trail]

theorem encodeChar_three {c : Char} (h : 0x800 ≤ c.toNat) (h' : c.toNat < 0x10000) :
    encodeChar c = [UInt8.ofNat (0xe0 + c.toNat / 4096), trail (c.toNat / 64 % 64),
      trail (c.toNat % 64)] := by
  rw [encodeChar, if_neg (by omega), if_neg (by omega), if_pos h']
  simp [trail]

theorem encodeChar_four {c : Char} (h : 0x10000 ≤ c.toNat) :
    encodeChar c = [UInt8.ofNat (0xf0 + c.toNat / 262144), trail (c.toNat / 4096 % 64),
      trail (c.toNat / 64 % 64), trail (c.toNat % 64)] := by
  rw [encodeChar, if_neg (by omega), if_neg (by omega), if_neg (by omega)]
  simp [trail]

/-- A character is no surrogate and is not beyond the last one. -/
theorem toNat_valid (c : Char) : c.toNat < 0xd800 ∨ 0xdfff < c.toNat ∧ c.toNat < 0x110000 :=
  c.valid

theorem toNat_ofNat_of_valid {n : Nat} (h : n < 0xd800 ∨ 0xdfff < n ∧ n < 0x110000) :
    (Char.ofNat n).toNat = n := by
  have hvalid : n.isValidChar := h
  rw [Char.ofNat, dif_pos hvalid]
  rfl

/-! ## The front of a text -/

/-- **The bytes of a character are read as that character**, whatever follows
them. -/
theorem front_encodeChar (c : Char) (rest : List UInt8) :
    ∃ b bs, encodeChar c = b :: bs ∧ front b (bs ++ rest) = .char c rest := by
  have hvalid := toNat_valid c
  have hback : Char.ofNat c.toNat = c := Char.ofNat_toNat c
  rcases Nat.lt_or_ge c.toNat 0x80 with h1 | h1
  · refine ⟨_, _, encodeChar_one h1, ?_⟩
    simp only [front, lead?_one h1, List.nil_append, further, hback]
  rcases Nat.lt_or_ge c.toNat 0x800 with h2 | h2
  · refine ⟨_, _, encodeChar_two h1 h2, ?_⟩
    have hcode : c.toNat / 64 * 64 + c.toNat % 64 = c.toNat := by omega
    have hmod : c.toNat % 64 < 64 := Nat.mod_lt _ (by decide)
    simp only [front, lead?_two (n := c.toNat / 64) (by omega) (by omega), List.cons_append,
      List.nil_append, further_trail_last hmod, further, hcode, hback]
  rcases Nat.lt_or_ge c.toNat 0x10000 with h3 | h3
  · refine ⟨_, _, encodeChar_three h2 h3, ?_⟩
    have hcode : (c.toNat / 4096 * 64 + c.toNat / 64 % 64) * 64 + c.toNat % 64 = c.toNat := by omega
    have hmod : c.toNat % 64 < 64 := Nat.mod_lt _ (by decide)
    have hmod' : c.toNat / 64 % 64 < 64 := Nat.mod_lt _ (by decide)
    simp only [front, lead?_three (n := c.toNat / 4096) (by omega), List.cons_append,
      List.nil_append]
    rw [further_trail hmod' (by split <;> simp; omega) (by split <;> simp <;> omega),
      further_trail_last hmod, hcode, further, hback]
  · refine ⟨_, _, encodeChar_four h3, ?_⟩
    have hcode : ((c.toNat / 262144 * 64 + c.toNat / 4096 % 64) * 64 + c.toNat / 64 % 64) * 64 +
        c.toNat % 64 = c.toNat := by omega
    have hmod : c.toNat % 64 < 64 := Nat.mod_lt _ (by decide)
    have hmod' : c.toNat / 64 % 64 < 64 := Nat.mod_lt _ (by decide)
    have hmod'' : c.toNat / 4096 % 64 < 64 := Nat.mod_lt _ (by decide)
    simp only [front, lead?_four (n := c.toNat / 262144) (by omega), List.cons_append,
      List.nil_append]
    rw [further_trail hmod'' (by split <;> simp; omega) (by split <;> simp <;> omega),
      further_trail_last hmod', further_trail_last hmod, hcode, further, hback]

/-- **What is read as a character is what it is written with.** -/
theorem encodeChar_of_front {b : UInt8} {bs rest : List UInt8} {c : Char}
    (h : front b bs = .char c rest) : b :: bs = encodeChar c ++ rest := by
  unfold front at h
  split at h
  · cases h
  rename_i more code low high hlead
  rcases lead?_cases hlead with ⟨rfl, hcode, rfl⟩ | ⟨rfl, hcode, hcode', rfl⟩ |
    ⟨rfl, hcode, rfl⟩ | ⟨rfl, hcode, rfl⟩
  · simp only [further, Front.char.injEq] at h
    obtain ⟨rfl, rfl⟩ := h
    have hnat := toNat_ofNat_of_valid (n := code) (by omega)
    rw [encodeChar_one (by omega), hnat]
    rfl
  · rw [lead?_two hcode' hcode] at hlead
    cases hlead
    obtain ⟨t, bs, ht, rfl, hlast⟩ := further_last_eq_char h
    simp only [further, Front.char.injEq] at hlast
    obtain ⟨rfl, rfl⟩ := hlast
    have hnat := toNat_ofNat_of_valid (n := code * 64 + t) (by omega)
    have hdiv : (code * 64 + t) / 64 = code := by omega
    have hmod : (code * 64 + t) % 64 = t := by omega
    rw [encodeChar_two (by omega) (by omega), hnat, hdiv, hmod]
    rfl
  · rw [lead?_three hcode] at hlead
    cases hlead
    obtain ⟨t, bs, ht, hlow, hhigh, rfl, hmore⟩ :=
      further_eq_char (by split <;> decide) (by split <;> decide) h
    obtain ⟨u, bs, hu, rfl, hlast⟩ := further_last_eq_char hmore
    simp only [further, Front.char.injEq] at hlast
    obtain ⟨rfl, rfl⟩ := hlast
    have hge : code = 0 → 0xa0 ≤ 0x80 + t := fun hc => by simpa [hc] using hlow
    have hle : code = 13 → 0x80 + t ≤ 0x9f := fun hc => by simpa [hc] using hhigh
    have hnat := toNat_ofNat_of_valid (n := (code * 64 + t) * 64 + u) (by omega)
    have hdiv : ((code * 64 + t) * 64 + u) / 4096 = code := by omega
    have hmid : ((code * 64 + t) * 64 + u) / 64 % 64 = t := by omega
    have hmod : ((code * 64 + t) * 64 + u) % 64 = u := by omega
    rw [encodeChar_three (by omega) (by omega), hnat, hdiv, hmid, hmod]
    rfl
  · rw [lead?_four hcode] at hlead
    cases hlead
    obtain ⟨t, bs, ht, hlow, hhigh, rfl, hmore⟩ :=
      further_eq_char (by split <;> decide) (by split <;> decide) h
    obtain ⟨u, bs, hu, rfl, hrest⟩ := further_last_eq_char hmore
    obtain ⟨v, bs, hv, rfl, hlast⟩ := further_last_eq_char hrest
    simp only [further, Front.char.injEq] at hlast
    obtain ⟨rfl, rfl⟩ := hlast
    have hge : code = 0 → 0x90 ≤ 0x80 + t := fun hc => by simpa [hc] using hlow
    have hle : code = 4 → 0x80 + t ≤ 0x8f := fun hc => by simpa [hc] using hhigh
    have hnat := toNat_ofNat_of_valid (n := ((code * 64 + t) * 64 + u) * 64 + v) (by omega)
    have hdiv : (((code * 64 + t) * 64 + u) * 64 + v) / 262144 = code := by omega
    have hmid : (((code * 64 + t) * 64 + u) * 64 + v) / 4096 % 64 = t := by omega
    have hmid' : (((code * 64 + t) * 64 + u) * 64 + v) / 64 % 64 = u := by omega
    have hmod : (((code * 64 + t) * 64 + u) * 64 + v) % 64 = v := by omega
    rw [encodeChar_four (by omega), hnat, hdiv, hmid, hmid', hmod]
    rfl

/-! ## The whole text -/

/-- One unit of fuel for each byte is enough. -/
theorem scan_encodeList (cs : List Char) {fuel : Nat}
    (h : (cs.flatMap encodeChar).length ≤ fuel) :
    scan fuel (cs.flatMap encodeChar) = (cs, false) := by
  induction cs generalizing fuel with
  | nil => cases fuel <;> rfl
  | cons c cs ih =>
    obtain ⟨b, bs, hc, hfront⟩ := front_encodeChar c (cs.flatMap encodeChar)
    simp only [List.flatMap_cons, hc, List.cons_append, List.length_cons, List.length_append] at h
    obtain ⟨fuel, rfl⟩ : ∃ f, fuel = f + 1 := ⟨fuel - 1, by omega⟩
    have ih : scan fuel (cs.flatMap encodeChar) = (cs, false) := ih (by omega)
    rw [List.flatMap_cons, hc, List.cons_append]
    simp only [scan, hfront, ih]

/-- **Text comes back from its bytes.** -/
theorem decode?_encode (s : String) : decode? (encode s) = some s := by
  rw [decode?, encode, scan_encodeList s.toList (Nat.le_refl _)]
  simp

theorem decodeLossy_encode (s : String) : decodeLossy (encode s) = s := by
  rw [decodeLossy, encode, scan_encodeList s.toList (Nat.le_refl _)]
  simp

theorem encodeList_of_scan {fuel : Nat} {bs : List UInt8} {cs : List Char}
    (hfuel : bs.length ≤ fuel) (h : scan fuel bs = (cs, false)) :
    bs = cs.flatMap encodeChar := by
  induction fuel generalizing bs cs with
  | zero =>
    obtain rfl : bs = [] := List.length_eq_zero_iff.1 (by omega)
    simp only [scan, Prod.mk.injEq] at h
    simp [← h.1]
  | succ fuel ih =>
    cases bs with
    | nil =>
      simp only [scan, Prod.mk.injEq] at h
      simp [← h.1]
    | cons b bs =>
      simp only [scan] at h
      split at h
      · rename_i c rest hfront
        have hbytes := encodeChar_of_front hfront
        obtain ⟨b', bs', hc, -⟩ := front_encodeChar c []
        have hlen : rest.length ≤ fuel := by
          have := congrArg List.length hbytes
          simp only [hc, List.length_cons, List.length_append, List.cons_append] at this hfuel
          omega
        cases hrest : scan fuel rest with
        | mk cs' bad =>
          simp only [hrest, Prod.mk.injEq] at h
          obtain ⟨rfl, rfl⟩ := h
          rw [hbytes, ih hlen hrest, List.flatMap_cons]
      · simp only [Prod.mk.injEq] at h
        exact absurd h.2 (by decide)

/-- **Bytes are text exactly when they are the bytes of that text.** -/
theorem decode?_eq_some {bs : List UInt8} {s : String} : decode? bs = some s ↔ bs = encode s := by
  constructor
  · intro h
    simp only [decode?] at h
    split at h
    · rename_i cs hscan
      obtain rfl := Option.some.inj h
      rw [encode, String.toList_ofList]
      exact encodeList_of_scan (Nat.le_refl _) hscan
    · cases h
  · rintro rfl
    exact decode?_encode s

/-! ## The zero byte -/

theorem trail_ne_zero {t : Nat} (h : t < 64) : trail t ≠ 0 := by
  intro hz
  have hnat := toNat_trail h
  rw [hz, UInt8.toNat_zero] at hnat
  omega

/-- The zero byte is in no character but the one that it is. -/
theorem zero_notMem_encodeChar {c : Char} (h : c ≠ '\x00') : (0 : UInt8) ∉ encodeChar c := by
  have hpos : c.toNat ≠ 0 := fun hz => h (by rw [← Char.ofNat_toNat c, hz])
  have hvalid := toNat_valid c
  have hbyte : ∀ n, 0 < n → n < 256 → UInt8.ofNat n ≠ 0 := by
    intro n hn hlt hz
    have hnat := congrArg UInt8.toNat hz
    simp only [UInt8.toNat_ofNat', Nat.mod_eq_of_lt hlt] at hnat
    exact absurd hnat (by simp; omega)
  have htrail : ∀ n : Nat, trail (n % 64) ≠ 0 := fun n => trail_ne_zero (Nat.mod_lt n (by decide))
  rcases Nat.lt_or_ge c.toNat 0x80 with h1 | h1
  · rw [encodeChar_one h1, List.mem_singleton]
    exact (hbyte _ (by omega) (by omega)).symm
  rcases Nat.lt_or_ge c.toNat 0x800 with h2 | h2
  · rw [encodeChar_two h1 h2]
    simp only [List.mem_cons, List.not_mem_nil, or_false, not_or]
    exact ⟨(hbyte _ (by omega) (by omega)).symm, (htrail _).symm⟩
  rcases Nat.lt_or_ge c.toNat 0x10000 with h3 | h3
  · rw [encodeChar_three h2 h3]
    simp only [List.mem_cons, List.not_mem_nil, or_false, not_or]
    exact ⟨(hbyte _ (by omega) (by omega)).symm, (htrail _).symm, (htrail _).symm⟩
  · rw [encodeChar_four h3]
    simp only [List.mem_cons, List.not_mem_nil, or_false, not_or]
    exact ⟨(hbyte _ (by omega) (by omega)).symm, (htrail _).symm, (htrail _).symm, (htrail _).symm⟩

/-- The zero byte is in no text without that character. -/
theorem zero_notMem_encode {s : String} (h : '\x00' ∉ s.toList) : (0 : UInt8) ∉ encode s := by
  rw [encode, List.mem_flatMap]
  rintro ⟨c, hc, hz⟩
  have hne : c ≠ '\x00' := fun heq => h (heq ▸ hc)
  exact zero_notMem_encodeChar hne hz

/-- Text that is not empty has bytes. -/
theorem encode_ne_nil {s : String} (h : s ≠ "") : encode s ≠ [] := by
  intro hnil
  have hs := decode?_encode s
  rw [hnil] at hs
  exact h (Option.some.inj hs).symm

end Retype.Utf8
