import Retype.Proofs.Frame.Single
import Retype.Proofs.Json.Extent
import Retype.Proofs.Text.Utf8
/-!
# A frame read in one go

What the bytes of a stream mean when they are seen all at once: `OneShot` says
it without a reader. The header is what stands before the first separator, its
first line of a length gives the number of bytes of the body, and the body is
the text of an object. The reader, which takes the header byte by byte and the
body in whatever pieces come, finds just that (`read_oneShot`).

Two failures are not those of the protocol. A number in the body may have too
many digits, and a body may be longer than a read can ask for; then the reader
fails although the bytes are only those of a frame that is cut off
(`huge_length_escapes`).
-/

namespace Retype

namespace Frame

/-! ## Splitting at the first separator -/

/-- What ends a header. -/
def separator : List UInt8 := headerEnd.reverse

/-- **Bytes that are split at their first separator.** -/
structure SplitsAt (bytes header rest : List UInt8) : Prop where
  eq : bytes = header ++ separator ++ rest
  first : ∀ header' rest', bytes = header' ++ separator ++ rest' → header.length ≤ header'.length

/-- There is one first separator. -/
theorem SplitsAt.unique {bytes header rest header' rest' : List UInt8}
    (h : SplitsAt bytes header rest) (h' : SplitsAt bytes header' rest') :
    header = header' ∧ rest = rest' := by
  have hlength : header.length = header'.length :=
    Nat.le_antisymm (h.first _ _ h'.eq) (h'.first _ _ h.eq)
  have heq : header ++ (separator ++ rest) = header' ++ (separator ++ rest') := by
    rw [← List.append_assoc, ← List.append_assoc, ← h.eq, ← h'.eq]
  obtain ⟨hheader, hmore⟩ := List.append_inj heq hlength
  exact ⟨hheader, List.append_cancel_left hmore⟩

theorem SplitsAt.infix {bytes header rest : List UInt8} (h : SplitsAt bytes header rest) :
    separator <:+: bytes :=
  ⟨header, rest, h.eq.symm⟩

/-- The header is over as soon as the bytes that have been read end in a
separator. -/
theorem splitsAt_of_prefix {before bs : List UInt8} {b : UInt8} (hopen : ¬ headerEnd <:+: before)
    (hend : headerEnd <+: b :: before) :
    SplitsAt (before.reverse ++ b :: bs) ((b :: before).drop 4).reverse bs := by
  have hsplit : b :: before = headerEnd ++ (b :: before).drop 4 := by
    obtain ⟨more, hmore⟩ := hend
    rw [← hmore]
    rfl
  have hread : before.reverse ++ b :: bs = (b :: before).reverse ++ bs := by simp
  refine ⟨?_, fun header' rest' heq => ?_⟩
  · rw [hread]
    conv_lhs => rw [hsplit, List.reverse_append]
    rfl
  · -- an earlier separator would have been found earlier
    by_contra hshort
    have hin : header' ++ separator <+: before.reverse := by
      refine List.prefix_of_prefix_length_le ⟨rest', heq.symm⟩ (List.prefix_append _ _) ?_
      have hlength := congrArg List.length hsplit
      have hseparator : separator.length = 4 := rfl
      have hheaderEnd : headerEnd.length = 4 := rfl
      simp only [List.length_append, List.length_reverse, List.length_cons, hseparator,
        hheaderEnd] at hlength hshort ⊢
      omega
    obtain ⟨more, hmore⟩ := hin
    refine hopen ⟨more.reverse, header'.reverse, ?_⟩
    rw [← List.reverse_reverse before, ← hmore]
    simp [separator]

/-- **The header is read up to the first separator**, if there is one. What
`before` holds has no separator in it. -/
theorem readHeader_split {before bs : List UInt8} (hopen : ¬ headerEnd <:+: before)
    (cuts : List Nat) :
    (¬ separator <:+: before.reverse ++ bs ∧
      (readHeader before ⟨bs, cuts⟩).1 =
        if before.reverse ++ bs = [] then .ok none else .error .closedInHeader) ∨
    ∃ header rest k, SplitsAt (before.reverse ++ bs) header rest ∧
      header.length + 4 = before.length + k ∧
      readHeader before ⟨bs, cuts⟩ = (.ok (some header), ⟨rest, cuts.drop k⟩) := by
  induction bs generalizing before cuts with
  | nil =>
    refine .inl ⟨?_, ?_⟩
    · rw [List.append_nil, ← List.reverse_infix, List.reverse_reverse]
      exact hopen
    · rw [readHeader_nil]
      cases before <;> simp
  | cons b bs ih =>
    by_cases hend : headerEnd.isPrefixOf (b :: before) = true
    · rw [readHeader_cons, if_pos hend]
      have hprefix : headerEnd <+: b :: before := List.isPrefixOf_iff_prefix.1 hend
      have hlength : 4 ≤ (b :: before).length := hprefix.length_le
      refine .inr ⟨_, bs, 1, splitsAt_of_prefix hopen hprefix, ?_, by rw [List.drop_one]⟩
      simp only [List.length_reverse, List.length_drop, List.length_cons] at hlength ⊢
      omega
    · have hopen' : ¬ headerEnd <:+: b :: before := by
        rw [List.infix_cons_iff, not_or, ← List.isPrefixOf_iff_prefix]
        exact ⟨hend, hopen⟩
      have hread : before.reverse ++ b :: bs = (b :: before).reverse ++ bs := by simp
      rw [hread, readHeader_cons, if_neg hend]
      rcases ih hopen' cuts.tail with hnone | ⟨header, rest, k, hsplit, hlength, hheader⟩
      · exact .inl hnone
      · refine .inr ⟨header, rest, k + 1, hsplit, ?_, ?_⟩
        · rw [List.length_cons] at hlength
          omega
        · rw [hheader, List.drop_tail]

/-! ## Lines -/

/-- What stands between two lines. -/
def lineEnd : List UInt8 := [carriageReturn, lineFeed]

/-- **The lines of a header**: none of them has a line end in it, and the
header is made of them with a line end between each two. -/
structure Lines (header : List UInt8) (lines : List (List UInt8)) : Prop where
  ne_nil : lines ≠ []
  joined : lineEnd.intercalate lines = header
  whole : ∀ line ∈ lines, ¬ lineEnd <:+: line

/-- The first line goes up to the first line end. -/
theorem headerLines_append {line : List UInt8} (h : ¬ lineEnd <:+: line) (rest : List UInt8) :
    headerLines (line ++ lineEnd ++ rest) = line :: headerLines rest := by
  induction line with
  | nil => simp [lineEnd, headerLines]
  | cons b line ih =>
    have hline : ¬ lineEnd <:+: line := fun hin => h (hin.trans (List.suffix_cons b line).isInfix)
    have ih := ih hline
    cases hmore : line ++ lineEnd ++ rest with
    | nil => simp [lineEnd] at hmore
    | cons c more =>
      have hend : ¬ (b = carriageReturn ∧ c = lineFeed) := by
        rintro ⟨rfl, rfl⟩
        cases line with
        | nil =>
          -- a line end does not begin with a line feed
          exact absurd (List.cons.inj hmore).1 (by decide)
        | cons c' line =>
          obtain rfl : c' = lineFeed := (List.cons.inj hmore).1
          exact h ⟨[], line, rfl⟩
      rw [hmore] at ih
      rw [List.cons_append, List.cons_append, hmore, headerLines, if_neg hend, ih]
      rfl

theorem headerLines_of_not_infix {line : List UInt8} (h : ¬ lineEnd <:+: line) :
    headerLines line = [line] := by
  fun_induction headerLines line with
  | case1 => rfl
  | case2 b => rfl
  | case3 b c rest hend ih =>
    obtain ⟨rfl, rfl⟩ := hend
    exact absurd ⟨[], rest, rfl⟩ h
  | case4 b c rest hend ih =>
    rw [ih fun hin => h (hin.trans (List.suffix_cons b _).isInfix)]
    rfl

/-- **A header has its lines only**, those that it is split into. -/
theorem Lines.eq_headerLines {header : List UInt8} {lines : List (List UInt8)}
    (h : Lines header lines) : lines = headerLines header := by
  obtain ⟨hne, rfl, hwhole⟩ := h
  induction lines with
  | nil => exact absurd rfl hne
  | cons line more ih =>
    have hline := hwhole line List.mem_cons_self
    cases more with
    | nil =>
      rw [List.intercalate_singleton, headerLines_of_not_infix hline]
    | cons next more =>
      have ih := ih (List.cons_ne_nil _ _) fun l hl => hwhole l (List.mem_cons_of_mem line hl)
      rw [List.intercalate_cons_cons, headerLines_append hline, ← ih]

/-- A byte in front of the first line is one in front of the header. -/
theorem Lines.consFirst {b : UInt8} {header : List UInt8} {lines : List (List UInt8)}
    (h : Lines header lines) (hopen : ¬ lineEnd <+: b :: header) :
    Lines (b :: header) (headerLines.consFirst b lines) := by
  obtain ⟨hne, rfl, hwhole⟩ := h
  cases lines with
  | nil => exact absurd rfl hne
  | cons line more =>
    have hfront : line <+: lineEnd.intercalate (line :: more) := by
      cases more with
      | nil => exact List.intercalate_singleton ▸ List.prefix_refl line
      | cons next more =>
        rw [List.intercalate_cons_cons, List.append_assoc]
        exact List.prefix_append _ _
    refine ⟨List.cons_ne_nil _ _, ?_, fun l hl => ?_⟩
    · cases more with
      | nil => simp [headerLines.consFirst]
      | cons next more => simp [headerLines.consFirst]
    · rcases List.mem_cons.1 hl with rfl | hl
      · rw [List.infix_cons_iff, not_or]
        refine ⟨fun hin => hopen (hin.trans ?_), hwhole line List.mem_cons_self⟩
        exact List.prefix_cons_inj b |>.2 hfront
      · exact hwhole l (List.mem_cons_of_mem line hl)

theorem lines_headerLines (header : List UInt8) : Lines header (headerLines header) := by
  fun_induction headerLines header with
  | case1 => exact ⟨List.cons_ne_nil _ _, List.intercalate_singleton, by simp [lineEnd]⟩
  | case2 b =>
    refine ⟨List.cons_ne_nil _ _, List.intercalate_singleton, fun line hline hin => ?_⟩
    obtain rfl := List.mem_singleton.1 hline
    have hle : 2 ≤ 1 := hin.length_le
    omega
  | case3 b c rest hend ih =>
    obtain ⟨rfl, rfl⟩ := hend
    refine ⟨List.cons_ne_nil _ _, ?_, fun line hline => ?_⟩
    · obtain ⟨line, more, hlines⟩ := List.exists_cons_of_ne_nil ih.ne_nil
      rw [hlines, List.intercalate_cons_cons, ← hlines, ih.joined]
      rfl
    · rcases List.mem_cons.1 hline with rfl | hline
      · simp [lineEnd]
      · exact ih.whole line hline
  | case4 b c rest hend ih =>
    refine ih.consFirst ?_
    rintro ⟨more, hmore⟩
    refine hend ?_
    simp only [lineEnd, List.cons_append, List.cons.injEq] at hmore
    exact ⟨hmore.1.symm, hmore.2.1.symm⟩

/-! ## The length -/

/-- A line of the length; the case of its key does not count. -/
def IsLengthLine (line : List UInt8) : Prop := lengthKey <+: (chars line).map Char.toLower

/-- **The number that a header gives**: what stands behind the first colon of
its first line of a length, read as a whole number. -/
def GivesLength (header : List UInt8) (n : Int) : Prop :=
  ∃ before line after key value, Lines header (before ++ line :: after) ∧
    (∀ l ∈ before, ¬ IsLengthLine l) ∧ IsLengthLine line ∧
    chars line = key ++ ':' :: value ∧ ':' ∉ key ∧
    Numeral.intOfList? (Text.trimList isAsciiBlank value) = some n

theorem eq_colon_of_toLower {c : Char} (h : c.toLower = ':') : c = ':' := by
  unfold Char.toLower at h
  split at h
  · rename_i hupper
    -- no capital is 32 below the colon
    have hnat := congrArg Char.toNat h
    simp only [Char.toNat, UInt32.toNat_add, UInt32.le_iff_toNat_le] at hnat hupper
    have hA : 'A'.val.toNat = 65 := rfl
    have hZ : 'Z'.val.toNat = 90 := rfl
    have hstep : ('a'.val - 'A'.val).toNat = 32 := rfl
    have hcolon : ':'.val.toNat = 58 := rfl
    omega
  · exact h

theorem exists_colon_of_isLengthLine {line : List UInt8} (h : IsLengthLine line) :
    ':' ∈ chars line := by
  have hmem : ':' ∈ (chars line).map Char.toLower := h.subset (by decide)
  obtain ⟨c, hc, hlower⟩ := List.mem_map.1 hmem
  exact eq_colon_of_toLower hlower ▸ hc

/-- What stands behind the first colon. -/
theorem dropWhile_colon {key value : List Char} (h : ':' ∉ key) :
    ((key ++ ':' :: value).dropWhile (· ≠ ':')).drop 1 = value := by
  have hkey : ∀ c ∈ key, decide (c ≠ ':') = true := fun c hc =>
    decide_eq_true fun heq => h (heq ▸ hc)
  rw [List.dropWhile_append_of_pos hkey]
  simp

/-- A text with a colon has a first one. -/
theorem exists_first_colon {cs : List Char} (h : ':' ∈ cs) :
    ∃ key value, cs = key ++ ':' :: value ∧ ':' ∉ key := by
  obtain ⟨key, value, heq, hkey⟩ := List.eq_append_cons_of_mem h
  exact ⟨key, value, heq, hkey⟩

theorem lengthOfLine?_eq_none {line : List UInt8} :
    lengthOfLine? line = none ↔ ¬ IsLengthLine line := by
  unfold lengthOfLine? IsLengthLine
  simp [List.isPrefixOf_iff_prefix]

theorem lengthOfLine?_eq_some {line : List UInt8} {n : Option Int} :
    lengthOfLine? line = some n ↔ IsLengthLine line ∧
      ∃ key value, chars line = key ++ ':' :: value ∧ ':' ∉ key ∧
        Numeral.intOfList? (Text.trimList isAsciiBlank value) = n := by
  unfold lengthOfLine?
  constructor
  · intro h
    dsimp only at h
    split_ifs at h with hkey
    have hline : IsLengthLine line := List.isPrefixOf_iff_prefix.1 hkey
    obtain ⟨key, value, hcolon, hfirst⟩ := exists_first_colon (exists_colon_of_isLengthLine hline)
    rw [hcolon, dropWhile_colon hfirst] at h
    exact ⟨hline, key, value, hcolon, hfirst, Option.some.inj h⟩
  · rintro ⟨hline, key, value, hcolon, hfirst, hn⟩
    have hkey : lengthKey.isPrefixOf ((chars line).map Char.toLower) = true :=
      List.isPrefixOf_iff_prefix.2 hline
    dsimp only
    rw [if_pos hkey, hcolon, dropWhile_colon hfirst, hn]

theorem findSome?_lengthOfLine? {header : List UInt8} {n : Int} :
    (headerLines header).findSome? lengthOfLine? = some (some n) ↔ GivesLength header n := by
  rw [List.findSome?_eq_some_iff]
  constructor
  · rintro ⟨before, line, after, hlines, hn, hbefore⟩
    obtain ⟨hline, key, value, hcolon, hfirst, hvalue⟩ := lengthOfLine?_eq_some.1 hn
    exact ⟨before, line, after, key, value, hlines ▸ lines_headerLines header,
      fun l hl => lengthOfLine?_eq_none.1 (hbefore l hl), hline, hcolon, hfirst, hvalue⟩
  · rintro ⟨before, line, after, key, value, hlines, hbefore, hline, hcolon, hfirst, hvalue⟩
    exact ⟨before, line, after, hlines.eq_headerLines.symm,
      lengthOfLine?_eq_some.2 ⟨hline, key, value, hcolon, hfirst, hvalue⟩,
      fun l hl => lengthOfLine?_eq_none.2 (hbefore l hl)⟩

/-- A header gives one number. -/
theorem GivesLength.unique {header : List UInt8} {n m : Int} (h : GivesLength header n)
    (h' : GivesLength header m) : n = m := by
  have heq := (findSome?_lengthOfLine?.2 h).symm.trans (findSome?_lengthOfLine?.2 h')
  exact Option.some.inj (Option.some.inj heq)

/-- **The length of a body** is the number that the header gives, which has to
be positive. -/
theorem bodyLength_cases (header : List UInt8) :
    (∃ n : Nat, bodyLength header = .ok n ∧ 0 < n ∧ GivesLength header n) ∨
    (bodyLength header = .error .badLength ∧ ∀ n, GivesLength header n → n ≤ 0) := by
  unfold bodyLength
  split
  · rename_i n hn
    have hgives : GivesLength header n := findSome?_lengthOfLine?.1 hn
    split_ifs with hpos
    · refine .inl ⟨n.toNat, rfl, by omega, ?_⟩
      rwa [Int.toNat_of_nonneg (by omega)]
    · refine .inr ⟨rfl, fun m hm => ?_⟩
      obtain rfl := hgives.unique hm
      omega
  · rename_i hnone
    exact .inr ⟨rfl, fun n hn => absurd (findSome?_lengthOfLine?.2 hn) (hnone n)⟩

/-! ## What the bytes mean -/

/-- What a body means: the object that its text spells, if there is one. -/
inductive BodyMeans (body : List UInt8) : Except FrameError Json → Prop
  | noJson (h : ∀ text value, body = Utf8.encode text → Json.read text ≠ .ok value) :
      BodyMeans body (.error .malformedBody)
  | noObject {text : String} {value : Json} (htext : body = Utf8.encode text)
      (hread : Json.read text = .ok value) (h : value.isObject = false) :
      BodyMeans body (.error .notAnObject)
  | object {text : String} {value : Json} (htext : body = Utf8.encode text)
      (hread : Json.read text = .ok value) (h : value.isObject) : BodyMeans body (.ok value)

/-- What a header and the bytes behind its separator mean: the length that the
header gives is that of the body. -/
inductive HeaderMeans (header more : List UInt8) :
    Except FrameError (Option (Json × List UInt8)) → Prop
  | noLength (h : ∀ n, GivesLength header n → n ≤ 0) : HeaderMeans header more (.error .badLength)
  | openBody {n : Nat} (hgives : GivesLength header n) (h : more.length < n) :
      HeaderMeans header more (.error .closedInFrame)
  | body {body rest : List UInt8} {r : Except FrameError Json} (hmore : more = body ++ rest)
      (hgives : GivesLength header body.length) (hne : body ≠ []) (h : BodyMeans body r) :
      HeaderMeans header more (r.map fun value => some (value, rest))

/-- **What the bytes of a stream mean**: the end of the stream, a frame with
the bytes behind it, or one of the errors of the protocol. -/
inductive OneShot (bytes : List UInt8) : Except FrameError (Option (Json × List UInt8)) → Prop
  | nothing (h : bytes = []) : OneShot bytes (.ok none)
  | openHeader (hne : bytes ≠ []) (h : ¬ separator <:+: bytes) :
      OneShot bytes (.error .closedInHeader)
  | header {header more : List UInt8} {r : Except FrameError (Option (Json × List UInt8))}
      (hsplit : SplitsAt bytes header more) (h : HeaderMeans header more r) : OneShot bytes r

/-- Text that is read gives one value. -/
theorem value_unique {body : List UInt8} {text text' : String} {value value' : Json}
    (htext : body = Utf8.encode text) (htext' : body = Utf8.encode text')
    (hread : Json.read text = .ok value) (hread' : Json.read text' = .ok value') :
    value = value' := by
  have hsame : text = text' :=
    Option.some.inj ((Utf8.decode?_eq_some.2 htext).symm.trans (Utf8.decode?_eq_some.2 htext'))
  rw [hsame, hread'] at hread
  exact (Except.ok.inj hread).symm

theorem BodyMeans.unique {body : List UInt8} {r r' : Except FrameError Json} (h : BodyMeans body r)
    (h' : BodyMeans body r') : r = r' := by
  cases h with
  | noJson hnone =>
    cases h' with
    | noJson => rfl
    | noObject htext hread => exact absurd hread (hnone _ _ htext)
    | object htext hread => exact absurd hread (hnone _ _ htext)
  | noObject htext hread hobj =>
    cases h' with
    | noJson hnone => exact absurd hread (hnone _ _ htext)
    | noObject => rfl
    | object htext' hread' hobj' =>
      rw [value_unique htext htext' hread hread', hobj'] at hobj
      cases hobj
  | object htext hread hobj =>
    cases h' with
    | noJson hnone => exact absurd hread (hnone _ _ htext)
    | noObject htext' hread' hobj' =>
      rw [value_unique htext htext' hread hread', hobj'] at hobj
      cases hobj
    | object htext' hread' => rw [value_unique htext htext' hread hread']

theorem HeaderMeans.unique {header more : List UInt8}
    {r r' : Except FrameError (Option (Json × List UInt8))} (h : HeaderMeans header more r)
    (h' : HeaderMeans header more r') : r = r' := by
  cases h with
  | noLength hnone =>
    cases h' with
    | noLength => rfl
    | openBody hgives hshort =>
      have hle := hnone _ hgives
      omega
    | body hmore hgives hne =>
      have hle := hnone _ hgives
      have hpos := List.length_pos_iff.2 hne
      omega
  | @openBody n hgives hshort =>
    cases h' with
    | noLength hnone =>
      have hle := hnone _ hgives
      omega
    | openBody => rfl
    | body hmore hgives' =>
      have hn := hgives.unique hgives'
      rw [hmore, List.length_append] at hshort
      omega
  | @body body rest _ hmore hgives hne hbody =>
    cases h' with
    | noLength hnone =>
      have hle := hnone _ hgives
      have hpos := List.length_pos_iff.2 hne
      omega
    | openBody hgives' hshort =>
      have hn := hgives.unique hgives'
      rw [hmore, List.length_append] at hshort
      omega
    | @body body' rest' _ hmore' hgives' _ hbody' =>
      have hlength : body.length = body'.length := Int.ofNat.inj (hgives.unique hgives')
      obtain ⟨rfl, rfl⟩ := List.append_inj (hmore.symm.trans hmore') hlength
      rw [hbody.unique hbody']

/-- **The bytes of a stream mean one thing.** -/
theorem OneShot.unique {bytes : List UInt8}
    {r r' : Except FrameError (Option (Json × List UInt8))} (h : OneShot bytes r)
    (h' : OneShot bytes r') : r = r' := by
  cases h with
  | nothing hnil =>
    cases h' with
    | nothing => rfl
    | openHeader hne => exact absurd hnil hne
    | header hsplit => exact absurd (hnil ▸ hsplit.infix) (by decide)
  | openHeader hne hnone =>
    cases h' with
    | nothing hnil => exact absurd hnil hne
    | openHeader => rfl
    | header hsplit => exact absurd hsplit.infix hnone
  | header hsplit hheader =>
    cases h' with
    | nothing hnil => exact absurd (hnil ▸ hsplit.infix) (by decide)
    | openHeader _ hnone => exact absurd hsplit.infix hnone
    | header hsplit' hheader' =>
      obtain ⟨rfl, rfl⟩ := hsplit.unique hsplit'
      exact hheader.unique hheader'

theorem BodyMeans.isOfProtocol {body : List UInt8} {e : FrameError}
    (h : BodyMeans body (.error e)) : e.isOfProtocol := by
  cases h <;> rfl

/-- Every error that bytes mean is one of the protocol. -/
theorem OneShot.isOfProtocol {bytes : List UInt8} {e : FrameError} (h : OneShot bytes (.error e)) :
    e.isOfProtocol := by
  generalize hr : (.error e : Except FrameError (Option (Json × List UInt8))) = r at h
  cases h with
  | nothing => cases hr
  | openHeader => cases hr; rfl
  | header hsplit hheader =>
    cases hheader with
    | noLength => cases hr; rfl
    | openBody => cases hr; rfl
    | @body body rest r hmore hgives hne hbody =>
      cases r with
      | ok value => cases hr
      | error e' =>
        obtain rfl : e = e' := Except.error.inj hr
        exact hbody.isOfProtocol

/-! ## The reader -/

/-- What a reader has found, and the bytes it has not read. -/
def outcome (r : Except FrameError (Option Json) × ByteStream) :
    Except FrameError (Option (Json × List UInt8)) :=
  r.1.map (Option.map (·, r.2.bytes))

/-- The bytes give a length that no read can ask for. -/
def LengthTooLarge (bytes : List UInt8) : Prop :=
  ∃ (header more : List UInt8) (n : Nat), SplitsAt bytes header more ∧ GivesLength header n ∧
    ByteStream.maxCount < n

/-- The text of the body has a number with too many digits. -/
def TooManyDigits (bytes : List UInt8) : Prop :=
  ∃ header text rest, SplitsAt bytes header (Utf8.encode text ++ rest) ∧
    GivesLength header (Utf8.encode text).length ∧ Json.LongRun text.toList

/-- **What is found in a body is what it means**, where its numbers have few
digits. -/
theorem decodeBody_means (body : List UInt8) :
    BodyMeans body (decodeBody body) ∨
    decodeBody body = .error .tooManyDigits ∧
      ∃ text, body = Utf8.encode text ∧ Json.LongRun text.toList := by
  unfold decodeBody
  cases htext : Utf8.decode? body with
  | none =>
    refine .inl (.noJson fun text value heq => ?_)
    rw [Utf8.decode?_eq_some.2 heq] at htext
    cases htext
  | some text =>
    have hencode : body = Utf8.encode text := Utf8.decode?_eq_some.1 htext
    simp only [Option.map_some]
    cases hread : Json.read text with
    | error e =>
      cases e with
      | tooManyDigits => exact .inr ⟨rfl, text, hencode, Json.longRun_of_read hread⟩
      | malformed =>
        refine .inl (.noJson fun text' value heq hvalue => ?_)
        have hsame : text' = text :=
          Option.some.inj ((Utf8.decode?_eq_some.2 heq).symm.trans htext)
        rw [hsame, hread] at hvalue
        cases hvalue
    | ok value =>
      cases value with
      | obj entries => exact .inl (.object hencode hread rfl)
      | _ => exact .inl (.noObject hencode hread rfl)

/-- **What is read of a header**: nothing at the end of the stream, an error
where no separator comes, and else what stands in front of the first one. -/
theorem readHeader_cases (s : ByteStream) :
    s.bytes = [] ∨
    (s.bytes ≠ [] ∧ ¬ separator <:+: s.bytes ∧ (readHeader [] s).1 = .error .closedInHeader) ∨
    ∃ header more, SplitsAt s.bytes header more ∧
      readHeader [] s = (.ok (some header), ⟨more, s.cuts.drop (header.length + 4)⟩) := by
  have hopen : ¬ headerEnd <:+: [] := by decide
  by_cases hnil : s.bytes = []
  · exact .inl hnil
  rcases readHeader_split hopen s.cuts with ⟨hnone, hread⟩ | h
  · exact .inr (.inl ⟨hnil, hnone, hread.trans (if_neg hnil)⟩)
  · obtain ⟨header, more, k, hsplit, hlength, hread⟩ := h
    obtain rfl : k = header.length + 4 := by simpa using hlength.symm
    exact .inr (.inr ⟨header, more, hsplit, hread⟩)

/-- The header that is read is the one in front of the first separator. -/
theorem readHeader_of_splitsAt {s : ByteStream} {header more : List UInt8}
    (h : SplitsAt s.bytes header more) :
    readHeader [] s = (.ok (some header), ⟨more, s.cuts.drop (header.length + 4)⟩) := by
  rcases readHeader_cases s with hnil | ⟨-, hnone, -⟩ | ⟨header', more', hsplit, hread⟩
  · exact absurd (hnil ▸ h.infix) (by decide)
  · exact absurd h.infix hnone
  · obtain ⟨rfl, rfl⟩ := h.unique hsplit
    exact hread

/-- The reader once the header has been read. -/
theorem read_of_readHeader {s rest : ByteStream} {header : List UInt8}
    (h : readHeader [] s = (.ok (some header), rest)) :
    read s = match bodyLength header with
      | .error e => (.error e, rest)
      | .ok length =>
        if ByteStream.mayAsk length then
          match readBody [] length rest with
          | (.error e, s) => (.error e, s)
          | (.ok body, s) => ((decodeBody body).map some, s)
        else (.error .lengthTooLarge, rest) := by
  unfold read
  generalize readHeader [] s = r at h
  subst h
  rfl

/-- A length that cannot be asked for is a failure of the machine. -/
theorem read_of_lengthTooLarge {s : ByteStream} (h : LengthTooLarge s.bytes) :
    (read s).1 = .error .lengthTooLarge := by
  obtain ⟨header, more, n, hsplit, hgives, hlarge⟩ := h
  have hmay : ByteStream.mayAsk n = false := decide_eq_false (Nat.not_le.2 hlarge)
  have hread := read_of_readHeader (readHeader_of_splitsAt hsplit)
  rcases bodyLength_cases header with ⟨m, hlength, -, hm⟩ | ⟨-, hnone⟩
  · obtain rfl : n = m := Int.ofNat.inj (hgives.unique hm)
    simp [hread, hlength, hmay]
  · -- a length that is not positive can be asked for
    have := hnone n hgives
    omega

/-- A body whose length can be asked for is read, or found to be cut off. -/
theorem read_body_means {s : ByteStream} {header more : List UInt8} {n : Nat}
    (hsplit : SplitsAt s.bytes header more) (hlength : bodyLength header = .ok n) (hpos : 0 < n)
    (hgives : GivesLength header n) (hmay : ByteStream.mayAsk n) :
    OneShot s.bytes (outcome (read s)) ∨
      (read s).1 = .error .tooManyDigits ∧ TooManyDigits s.bytes := by
  have hheader := readHeader_of_splitsAt hsplit
  have hread := read_of_readHeader hheader
  simp only [hlength, if_pos hmay] at hread
  rcases Nat.lt_or_ge more.length n with hshort | hwhole
  · -- the body is cut off
    have hcut := readBody_cut [] n ⟨more, s.cuts.drop (header.length + 4)⟩ hshort
    refine .inl ?_
    rw [outcome, read_of_readBody_error hheader hlength hmay hcut]
    exact .header hsplit (.openBody hgives hshort)
  · -- the body is there
    obtain ⟨cuts', hbody⟩ := readBody_whole [] n ⟨more, s.cuts.drop (header.length + 4)⟩ hwhole
    have hread : read s = ((decodeBody (more.take n)).map some, ⟨more.drop n, cuts'⟩) := by
      rw [hread, hbody]
      rfl
    have htake : (more.take n).length = n := List.length_take_of_le hwhole
    have hmore : more = more.take n ++ more.drop n := (List.take_append_drop n more).symm
    have hne : more.take n ≠ [] := fun hnil => by
      rw [hnil] at htake
      exact absurd htake (Nat.ne_of_lt hpos)
    rcases decodeBody_means (more.take n) with hmeans | ⟨hdecode, text, htext, hlong⟩
    · refine .inl ?_
      have hsame : outcome (read s) =
          (decodeBody (more.take n)).map fun value => some (value, more.drop n) := by
        rw [hread]
        cases decodeBody (more.take n) <;> rfl
      rw [hsame]
      exact .header hsplit (.body hmore (htake.symm ▸ hgives) hne hmeans)
    · refine .inr ⟨by simp [hread, hdecode, Except.map], header, text, more.drop n, ?_, ?_, hlong⟩
      · rwa [← htext, ← hmore]
      · rwa [← htext, htake]

/-! ## Lengths that cannot be asked for -/

/-- A header without line ends is over at the separator. -/
theorem splitsAt_of_not_mem {line : List UInt8} (h : lineFeed ∉ line) (more : List UInt8) :
    SplitsAt (line ++ separator ++ more) line more := by
  have hread := readHeader_whole h more []
  rcases readHeader_cases ⟨line ++ separator ++ more, []⟩ with hnil | ⟨-, hnone, -⟩ |
    ⟨header, more', hsplit, hheader⟩
  · simp [separator, headerEnd] at hnil
  · exact absurd ⟨line, more, rfl⟩ hnone
  · rw [separator] at hheader hsplit ⊢
    rw [hread] at hheader
    simp only [Prod.mk.injEq, Except.ok.injEq, Option.some.injEq, ByteStream.mk.injEq] at hheader
    obtain ⟨rfl, rfl, -⟩ := hheader
    exact hsplit

/-- The line of a length gives that length. -/
theorem givesLength_lengthLine {n : Nat} (hpos : 0 < n)
    (h : (Nat.toDigits 10 n).length ≤ Numeral.maxDigits) :
    GivesLength ((lengthLine n).map asciiByte) n := by
  rcases bodyLength_cases ((lengthLine n).map asciiByte) with ⟨m, hm, -, hgives⟩ | ⟨hbad, -⟩
  · obtain rfl : n = m := Except.ok.inj ((bodyLength_lengthLine hpos h).symm.trans hm)
    exact hgives
  · rw [bodyLength_lengthLine hpos h] at hbad
    cases hbad

/-- One byte more than anybody may ask for. -/
def hugeLength : Nat := 9223372036854775808

/-- A frame that is cut off, of a length just beyond what a read asks for. -/
def hugeFrame : List UInt8 := Utf8.encode "Content-Length: 9223372036854775808\r\n\r\n\x7b\x7d"

theorem hugeFrame_eq :
    hugeFrame = (lengthLine hugeLength).map asciiByte ++ separator ++ [0x7b, 0x7d] := by
  decide +kernel

/-- Nobody can ask for so many bytes. -/
theorem lengthTooLarge_hugeFrame : LengthTooLarge hugeFrame := by
  refine ⟨(lengthLine hugeLength).map asciiByte, [0x7b, 0x7d], hugeLength, ?_, ?_, by decide⟩
  · rw [hugeFrame_eq]
    exact splitsAt_of_not_mem (not_mem_lengthLine (by decide)) _
  · exact givesLength_lengthLine (by decide) (by decide +kernel)

/-- A frame in single bytes, with one more byte behind it. -/
def smallStream : ByteStream :=
  ⟨(lengthLine 2).map asciiByte ++ separator ++ [0x7b, 0x7d, 0x20], List.replicate 24 1⟩

theorem not_lengthTooLarge_smallStream : ¬ LengthTooLarge smallStream.bytes := by
  rintro ⟨header, more, n, hsplit, hgives, hlarge⟩
  obtain ⟨rfl, rfl⟩ := hsplit.unique (splitsAt_of_not_mem (not_mem_lengthLine (by decide)) _)
  obtain rfl : n = 2 :=
    Int.ofNat.inj (hgives.unique (givesLength_lengthLine (by decide) (by decide +kernel)))
  exact absurd hlarge (by decide)

/-! ## The reader and the bytes -/

/-- Where no length is too large, what is found is what the bytes mean, or a
number has too many digits. -/
theorem oneShot_read {s : ByteStream} (hsmall : ¬ LengthTooLarge s.bytes) :
    OneShot s.bytes (outcome (read s)) ∨
      (read s).1 = .error .tooManyDigits ∧ TooManyDigits s.bytes := by
  rcases readHeader_cases s with hnil | ⟨hne, hnone, hheader⟩ | ⟨header, more, hsplit, hheader⟩
  · obtain ⟨bytes, cuts⟩ := s
    obtain rfl : bytes = [] := hnil
    refine .inl ?_
    rw [outcome, read_nil]
    exact .nothing rfl
  · refine .inl ?_
    rw [outcome, read_of_readHeader_error hheader]
    exact .openHeader hne hnone
  · rcases bodyLength_cases header with ⟨n, hlength, hpos, hgives⟩ | ⟨hlength, hnone⟩
    · refine read_body_means hsplit hlength hpos hgives ?_
      by_contra hmay
      exact hsmall ⟨header, more, n, hsplit, hgives, by simpa [ByteStream.mayAsk] using hmay⟩
    · have hread := read_of_readHeader hheader
      simp only [hlength] at hread
      refine .inl ?_
      rw [outcome, hread]
      exact .header hsplit (.noLength hnone)

/-- **The reader finds what the bytes mean**, and nothing else, however they
are cut, and what it has not read is what stands behind the frame. It fails in
two ways that are not those of the protocol: where the length is more than a
read can ask for, and where a number of the body has too many digits. -/
theorem read_oneShot (s : ByteStream) :
    (LengthTooLarge s.bytes → (read s).1 = .error .lengthTooLarge) ∧
    (¬ LengthTooLarge s.bytes →
      (∀ r, OneShot s.bytes r ↔ outcome (read s) = r) ∨
        (read s).1 = .error .tooManyDigits ∧ TooManyDigits s.bytes) := by
  refine ⟨read_of_lengthTooLarge, fun hsmall => ?_⟩
  rcases oneShot_read hsmall with hmeans | hmany
  · exact .inl fun r => ⟨hmeans.unique, fun heq => heq ▸ hmeans⟩
  · exact .inr hmany

theorem read_oneShot_sample :
    (¬ LengthTooLarge smallStream.bytes ∧
      ((∀ r, OneShot smallStream.bytes r ↔ outcome (read smallStream) = r) ∨
        (read smallStream).1 = .error .tooManyDigits ∧ TooManyDigits smallStream.bytes)) ∧
    (read (.ofBytes hugeFrame)).1 = .error .lengthTooLarge :=
  ⟨⟨not_lengthTooLarge_smallStream,
      (read_oneShot smallStream).2 not_lengthTooLarge_smallStream⟩,
    (read_oneShot (.ofBytes hugeFrame)).1 lengthTooLarge_hugeFrame⟩

/-- **A length that nobody can ask for escapes.** The bytes are those of a
frame that is cut off, an error of the protocol; the reader fails in a way that
is none. -/
theorem huge_length_escapes :
    (read (.ofBytes hugeFrame)).1 = .error .lengthTooLarge ∧
    FrameError.lengthTooLarge.isOfProtocol = false ∧
    OneShot hugeFrame (.error .closedInFrame) ∧
    ¬ OneShot hugeFrame (outcome (read (.ofBytes hugeFrame))) := by
  have hread : (read (.ofBytes hugeFrame)).1 = .error .lengthTooLarge :=
    read_of_lengthTooLarge lengthTooLarge_hugeFrame
  have hsplit : SplitsAt hugeFrame ((lengthLine hugeLength).map asciiByte) [0x7b, 0x7d] := by
    rw [hugeFrame_eq]
    exact splitsAt_of_not_mem (not_mem_lengthLine (by decide)) _
  have hgives : GivesLength ((lengthLine hugeLength).map asciiByte) hugeLength :=
    givesLength_lengthLine (by decide) (by decide +kernel)
  refine ⟨hread, rfl, .header hsplit (.openBody hgives (by decide)), fun h => ?_⟩
  rw [outcome, hread] at h
  exact absurd h.isOfProtocol (by decide)

end Frame

end Retype
