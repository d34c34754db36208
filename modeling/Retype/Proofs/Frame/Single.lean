import Retype.Frame.Reader
import Retype.Frame.Writer
import Retype.Proofs.Json.RoundTrip
/-!
# A single frame

What a reader finds in the bytes of one frame: the message if the frame is
there in full (`read_framed`), and an error of the protocol if it ends too
early (`read_framed_cut`), however the reads are cut.

A header is read byte by byte, so that no cut shows there and no byte of the
body is touched; it is over at the second line feed, and a header that is
written has no line feed but those of its end.
-/

namespace Retype

namespace ByteStream

variable {s : ByteStream} {n : Nat}

/-- A read gets no more than it asks for. -/
theorem limit_le : s.limit n ≤ n := by
  unfold limit
  split <;> omega

/-- It gets something when it asks for something. -/
theorem limit_pos (h : 0 < n) : 0 < s.limit n := by
  unfold limit
  split <;> omega

/-- One byte is read off the front. -/
theorem read_one_cons (b : UInt8) (bs : List UInt8) (cuts : List Nat) :
    read ⟨b :: bs, cuts⟩ 1 = ([b], ⟨bs, cuts.tail⟩) := by
  have : limit ⟨b :: bs, cuts⟩ 1 = 1 := Nat.le_antisymm limit_le (limit_pos Nat.one_pos)
  simp [read, this]

/-- Nothing is read at the end. -/
theorem read_nil (cuts : List Nat) (n : Nat) : read ⟨[], cuts⟩ n = ([], ⟨[], cuts.tail⟩) := by
  simp [read]

/-- What a read returns stands in front of what is left. -/
theorem bytes_of_read {bs : List UInt8} {rest : ByteStream} (h : s.read n = (bs, rest)) :
    s.bytes = bs ++ rest.bytes ∧ bs.length ≤ n := by
  have hbytes := s.read_bytes n
  rw [h] at hbytes
  refine ⟨hbytes.symm, ?_⟩
  obtain rfl : s.bytes.take (s.limit n) = bs := congrArg Prod.fst h
  exact Nat.le_trans (List.length_take_le _ _) limit_le

/-- A read returns nothing only where nothing is left. -/
theorem bytes_eq_nil_of_read {rest : ByteStream} (hn : 0 < n) (h : s.read n = ([], rest)) :
    s.bytes = [] := by
  have htake : s.bytes.take (s.limit n) = [] := congrArg Prod.fst h
  exact (List.take_eq_nil_iff.mp htake).resolve_left (Nat.ne_of_gt (limit_pos hn))

end ByteStream

namespace Frame

/-! ## The header -/

/-- A header that ends early is an error, unless nothing of it was there. -/
theorem readHeader_nil (before : List UInt8) (cuts : List Nat) :
    readHeader before ⟨[], cuts⟩
      = (if before.isEmpty then .ok none else .error .closedInHeader, ⟨[], cuts.tail⟩) := by
  rw [readHeader, ByteStream.read_nil]
  cases before <;> rfl

/-- A header is read byte by byte up to its end. -/
theorem readHeader_cons (before : List UInt8) (b : UInt8) (bs : List UInt8) (cuts : List Nat) :
    readHeader before ⟨b :: bs, cuts⟩
      = if headerEnd.isPrefixOf (b :: before) then
          (.ok (some ((b :: before).drop 4).reverse), ⟨bs, cuts.tail⟩)
        else readHeader (b :: before) ⟨bs, cuts.tail⟩ := by
  rw [readHeader, ByteStream.read_one_cons]

/-- The end of a header has two line feeds. -/
theorem two_le_count_of_isPrefixOf {before : List UInt8} (h : headerEnd.isPrefixOf before) :
    2 ≤ before.count lineFeed := by
  have hprefix : headerEnd <+: before := List.isPrefixOf_iff_prefix.mp h
  exact hprefix.sublist.count_le lineFeed

/-- Bytes with less than two line feeds end no header. -/
theorem readHeader_append {before bs : List UInt8}
    (h : before.count lineFeed + bs.count lineFeed < 2) (rest : List UInt8) (cuts : List Nat) :
    readHeader before ⟨bs ++ rest, cuts⟩
      = readHeader (bs.reverse ++ before) ⟨rest, cuts.drop bs.length⟩ := by
  induction bs generalizing before cuts with
  | nil => simp
  | cons b bs ih =>
    have hcount : (b :: before).count lineFeed + bs.count lineFeed < 2 := by
      simp only [List.count_cons] at h ⊢
      omega
    have hopen : headerEnd.isPrefixOf (b :: before) = false := by
      by_contra hend
      have := two_le_count_of_isPrefixOf (Bool.of_not_eq_false hend)
      omega
    rw [List.cons_append, readHeader_cons, hopen, if_neg Bool.false_ne_true, ih hcount]
    simp [List.drop_tail]

/-- **A header is read up to its end**, and no further. -/
theorem readHeader_whole {line : List UInt8} (h : lineFeed ∉ line) (rest : List UInt8)
    (cuts : List Nat) :
    readHeader [] ⟨line ++ headerEnd.reverse ++ rest, cuts⟩
      = (.ok (some line), ⟨rest, cuts.drop (line.length + 4)⟩) := by
  have hcount : (line ++ [carriageReturn, lineFeed, carriageReturn]).count lineFeed = 1 := by
    rw [List.count_append, List.count_eq_zero_of_not_mem h]
    rfl
  have hsplit : line ++ headerEnd.reverse ++ rest
      = line ++ [carriageReturn, lineFeed, carriageReturn] ++ lineFeed :: rest := by
    simp [headerEnd]
  have hend : headerEnd.isPrefixOf
      (lineFeed :: ((line ++ [carriageReturn, lineFeed, carriageReturn]).reverse ++ [])) =
        true := by
    simp [headerEnd]
  rw [hsplit, readHeader_append (by rw [hcount]; decide), readHeader_cons, hend, if_pos rfl]
  simp

/-- A header that ends too early is no header. -/
theorem readHeader_cut {line : List UInt8} (h : lineFeed ∉ line) {k : Nat} (hpos : 0 < k)
    (hk : k < (line ++ headerEnd.reverse).length) (cuts : List Nat) :
    (readHeader [] ⟨(line ++ headerEnd.reverse).take k, cuts⟩).1 = .error .closedInHeader := by
  have hfront : (line ++ headerEnd.reverse).take k
      <+: line ++ [carriageReturn, lineFeed, carriageReturn] := by
    have hsplit : line ++ headerEnd.reverse
        = line ++ [carriageReturn, lineFeed, carriageReturn] ++ [lineFeed] := by
      simp [headerEnd]
    rw [hsplit] at hk ⊢
    have hle : k ≤ (line ++ [carriageReturn, lineFeed, carriageReturn]).length := by
      simp only [List.length_append, List.length_cons, List.length_nil] at hk ⊢
      omega
    rw [List.take_append_of_le_length hle]
    exact List.take_prefix _ _
  have hcount : ((line ++ headerEnd.reverse).take k).count lineFeed < 2 := by
    have := hfront.sublist.count_le lineFeed
    rw [List.count_append, List.count_eq_zero_of_not_mem h] at this
    exact Nat.lt_of_le_of_lt this (by decide)
  have hsome : (line ++ headerEnd.reverse).take k ≠ [] := by
    simp only [ne_eq, List.take_eq_nil_iff, not_or]
    exact ⟨Nat.ne_of_gt hpos, by simp [headerEnd]⟩
  have hempty : ([] : List UInt8).count lineFeed
      + ((line ++ headerEnd.reverse).take k).count lineFeed < 2 := by simpa using hcount
  have happend := readHeader_append hempty [] cuts
  rw [List.append_nil] at happend
  rw [happend, readHeader_nil, if_neg (by simpa using hsome)]

/-! ## The length -/

/-- The line that gives a length. -/
def lengthLine (length : Nat) : List Char := "Content-Length: ".toList ++ Nat.toDigits 10 length

/-- A header is its line and its end. -/
theorem header_eq (length : Nat) : header length = lengthLine length ++ "\r\n\r\n".toList := by
  unfold header lengthLine
  rw [Nat.toString_eq_repr, Nat.toList_repr]

/-- The line of a header is its name and digits. -/
theorem mem_lengthLine {length : Nat} {c : Char} (h : c ∈ lengthLine length) :
    c ∈ "Content-Length: ".toList ∨ c.isDigit :=
  (List.mem_append.mp h).imp_right Numeral.isDigit_of_mem_toDigits

/-- It is ASCII. -/
theorem isAscii_of_mem_lengthLine {length : Nat} :
    ∀ c ∈ lengthLine length, IsAscii c := fun c h => by
  rcases mem_lengthLine h with h | h
  · exact forall_isAscii (by decide) c h
  · exact isAscii_of_isDigit h

/-- No control stands in the line of a length. -/
theorem not_mem_lengthLine {length : Nat} {b : UInt8} (h : b < 0x20) :
    b ∉ (lengthLine length).map asciiByte := by
  rw [List.mem_map]
  rintro ⟨c, hc, rfl⟩
  have hnat : c.toNat < 0x20 := by
    rw [UInt8.lt_iff_toNat_lt, toNat_asciiByte (isAscii_of_mem_lengthLine c hc)] at h
    exact h
  rcases mem_lengthLine hc with hc | hc
  · have hall : ("Content-Length: ".toList.all fun c => 0x20 ≤ c.toNat) = true := by decide
    exact absurd hnat (Nat.not_lt.2 (of_decide_eq_true (List.all_eq_true.1 hall c hc)))
  · exact absurd (Nat.lt_of_le_of_lt (toNat_of_isDigit hc).1 hnat) (by decide)

/-- Without a carriage return there is one line. -/
theorem headerLines_of_not_mem {line : List UInt8} (h : carriageReturn ∉ line) :
    headerLines line = [line] := by
  fun_induction headerLines line with
  | case1 => rfl
  | case2 b => rfl
  | case3 b c rest hend ih => exact absurd (hend.1 ▸ List.mem_cons_self) h
  | case4 b c rest hend ih =>
    rw [ih fun hmem => h (List.mem_cons_of_mem b hmem)]
    rfl

/-- ASCII bytes are read as their characters. -/
theorem chars_ascii {cs : List Char} (h : ∀ c ∈ cs, IsAscii c) : chars (cs.map asciiByte) = cs := by
  rw [chars, List.map_map]
  refine (List.map_congr_left fun c hc => ?_).trans (List.map_id cs)
  simp [toNat_asciiByte (h c hc), Char.ofNat_toNat]

/-- A blank in front is trimmed. -/
theorem trimList_blank_cons {p : Char → Bool} {c : Char} {cs : List Char} (hc : p c)
    (h : ∀ x ∈ cs, p x = false) : Text.trimList p (c :: cs) = cs := by
  have hkeep : ∀ xs : List Char, (∀ x ∈ xs, p x = false) → xs.dropWhile p = xs := fun xs hxs => by
    cases xs with
    | nil => rfl
    | cons x xs => exact List.dropWhile_cons_of_neg (by simp [hxs x List.mem_cons_self])
  rw [Text.trimList, List.dropWhile_cons_of_pos hc, hkeep cs h,
    hkeep cs.reverse fun x hx => h x (List.mem_reverse.mp hx), List.reverse_reverse]

/-- A digit is no blank. -/
theorem isAsciiBlank_of_isDigit {c : Char} (h : c.isDigit) : isAsciiBlank c = false := by
  have hcode := (toNat_of_isDigit h).1
  have hne : c ≠ ' ' := by
    rintro rfl
    exact absurd h (by decide)
  simp only [isAsciiBlank, beq_eq_false_iff_ne.mpr hne, Bool.false_or, Bool.and_eq_false_iff,
    decide_eq_false_iff_not]
  omega

/-- The length is read back from the line. -/
theorem lengthOfLine?_lengthLine {length : Nat}
    (h : (Nat.toDigits 10 length).length ≤ Numeral.maxDigits) :
    lengthOfLine? ((lengthLine length).map asciiByte) = some (some (length : Int)) := by
  have hkey : lengthKey.isPrefixOf ((lengthLine length).map Char.toLower) = true := by
    unfold lengthLine lengthKey
    simp
  have hvalue : ((lengthLine length).dropWhile (· ≠ ':')).drop 1
      = ' ' :: Nat.toDigits 10 length := by
    unfold lengthLine
    simp
  have htrim : Text.trimList isAsciiBlank (' ' :: Nat.toDigits 10 length) =
      Nat.toDigits 10 length := by
    refine trimList_blank_cons (by decide) fun c hc => ?_
    exact isAsciiBlank_of_isDigit (Numeral.isDigit_of_mem_toDigits hc)
  rw [lengthOfLine?, chars_ascii isAscii_of_mem_lengthLine, if_pos hkey, hvalue, htrim,
    Numeral.intOfList?_toDigits h]

/-- **The length that a written header gives is the one it was written for.** -/
theorem bodyLength_lengthLine {length : Nat} (hpos : 0 < length)
    (h : (Nat.toDigits 10 length).length ≤ Numeral.maxDigits) :
    bodyLength ((lengthLine length).map asciiByte) = .ok length := by
  rw [bodyLength, headerLines_of_not_mem (not_mem_lengthLine (by decide)),
    List.findSome?_cons, lengthOfLine?_lengthLine h]
  simp [hpos]

/-! ## The body -/

/-- **A body that is there is read in full**, whatever pieces it comes in. -/
theorem readBody_whole (before : List UInt8) (length : Nat) (s : ByteStream)
    (h : length ≤ s.bytes.length) :
    ∃ cuts, readBody before length s
      = (.ok (before ++ s.bytes.take length), ⟨s.bytes.drop length, cuts⟩) := by
  fun_induction readBody before length s with
  | case1 before s => exact ⟨s.cuts, by simp⟩
  | case2 before length s hl rest hread =>
    have := ByteStream.bytes_eq_nil_of_read (Nat.pos_of_ne_zero hl) hread
    simp [this, hl] at h
  | case3 before length s hl b bs rest hread ih =>
    obtain ⟨hbytes, hle⟩ := ByteStream.bytes_of_read hread
    have hlength : length = (b :: bs).length + (length - (bs.length + 1)) := by
      simp only [List.length_cons] at hle ⊢
      omega
    obtain ⟨cuts, ih⟩ := ih (by
      rw [hbytes, List.length_append] at h
      simp only [List.length_cons] at h
      omega)
    refine ⟨cuts, ih.trans ?_⟩
    conv_rhs => rw [hbytes, hlength, List.take_length_add_append, List.drop_length_add_append]
    rw [List.append_assoc]

/-- A body that is not there in full is no body. -/
theorem readBody_cut (before : List UInt8) (length : Nat) (s : ByteStream)
    (h : s.bytes.length < length) : (readBody before length s).1 = .error .closedInFrame := by
  fun_induction readBody before length s with
  | case1 before s => exact absurd h (Nat.not_lt_zero _)
  | case2 before length s hl rest hread => rfl
  | case3 before length s hl b bs rest hread ih =>
    obtain ⟨hbytes, hle⟩ := ByteStream.bytes_of_read hread
    rw [hbytes, List.length_append] at h
    simp only [List.length_cons] at h
    exact ih (by omega)

/-- A message is read back from what was written. -/
theorem decodeBody_write {message : Json} (hobj : message.isObject) (hp : message.isPlain)
    (hw : message.isWritable) :
    decodeBody (message.writeChars.map asciiByte) = .ok message := by
  have hread := Json.read_write hp hw
  rw [Json.write] at hread
  cases message with
  | obj entries =>
    rw [decodeBody, Utf8.decode?_ascii (Json.isAscii_of_mem_writeChars _ hp),
      Option.map_some, hread]
  | _ => cases hobj

/-! ## One frame -/

section Framed

variable {message : Json} {line body : List UInt8}

/-- A frame is read to its end, and the reader stops behind it. -/
theorem read_framed (hline : lineFeed ∉ line) (hlength : bodyLength line = .ok body.length)
    (hle : body.length ≤ ByteStream.maxCount) (hbody : decodeBody body = .ok message)
    (rest : List UInt8) (cuts : List Nat) :
    ∃ cuts', read ⟨line ++ headerEnd.reverse ++ body ++ rest, cuts⟩
      = (.ok (some message), ⟨rest, cuts'⟩) := by
  have hheader := readHeader_whole hline (body ++ rest) cuts
  have hmay : ByteStream.mayAsk body.length = true := decide_eq_true hle
  obtain ⟨cuts', hread⟩ := readBody_whole [] body.length
    ⟨body ++ rest, cuts.drop (line.length + 4)⟩ (by simp)
  refine ⟨cuts', ?_⟩
  rw [List.append_assoc, read, hheader]
  simp [hlength, hmay, hread, hbody, Except.map]

/-- An error in the header is one of the frame. -/
theorem read_of_readHeader_error {s : ByteStream} {e : FrameError}
    (h : (readHeader [] s).1 = .error e) : (read s).1 = .error e := by
  unfold read
  split <;> simp_all

/-- So is an error in the body. -/
theorem read_of_readBody_error {s rest : ByteStream} {length : Nat} {e : FrameError}
    (hheader : readHeader [] s = (.ok (some line), rest)) (hlength : bodyLength line = .ok length)
    (hmay : ByteStream.mayAsk length) (h : (readBody [] length rest).1 = .error e) :
    (read s).1 = .error e := by
  rw [read, hheader]
  simp only [hlength, hmay, if_true]
  split <;> simp_all

/-- A frame that ends too early breaks the protocol, wherever it ends. -/
theorem read_framed_cut (hline : lineFeed ∉ line) (hlength : bodyLength line = .ok body.length)
    (hle : body.length ≤ ByteStream.maxCount) {k : Nat} (hpos : 0 < k)
    (hk : k < (line ++ headerEnd.reverse ++ body).length) (cuts : List Nat) :
    ∃ e, (read ⟨(line ++ headerEnd.reverse ++ body).take k, cuts⟩).1 = .error e ∧
      e.isOfProtocol := by
  rcases Nat.lt_or_ge k (line ++ headerEnd.reverse).length with hin | hout
  · -- the header itself is cut
    rw [List.take_append_of_le_length (Nat.le_of_lt hin)]
    exact ⟨.closedInHeader, read_of_readHeader_error (readHeader_cut hline hpos hin cuts), rfl⟩
  · -- the header is whole, and the body is cut
    have hsplit : (line ++ headerEnd.reverse ++ body).take k
        = line ++ headerEnd.reverse ++ body.take (k - (line ++ headerEnd.reverse).length) := by
      rw [List.take_append, List.take_of_length_le hout]
    have hshort : (body.take (k - (line ++ headerEnd.reverse).length)).length < body.length := by
      rw [List.length_append] at hk
      rw [List.length_take]
      omega
    rw [hsplit]
    exact ⟨.closedInFrame, read_of_readBody_error (readHeader_whole hline _ cuts) hlength
      (decide_eq_true hle) (readBody_cut _ _ _ hshort), rfl⟩

/-- At the end of the stream there is no frame. -/
theorem read_nil (cuts : List Nat) : (read ⟨[], cuts⟩).1 = .ok none := by
  rw [read, readHeader_nil]
  rfl

end Framed

/-! ## Written frames -/

variable {message : Json} {frame : List UInt8}

/-- A frame is its line, the end of the header and the message. -/
theorem bytes_eq (hp : message.isPlain) :
    bytes message = (lengthLine message.writeChars.length).map asciiByte ++ headerEnd.reverse ++
      message.writeChars.map asciiByte := by
  have hascii : ∀ c ∈ header message.writeChars.length ++ message.writeChars, IsAscii c := by
    intro c hc
    rw [header_eq, List.append_assoc, List.mem_append, List.mem_append] at hc
    rcases hc with hc | hc | hc
    · exact isAscii_of_mem_lengthLine c hc
    · exact forall_isAscii (by decide) c hc
    · exact Json.isAscii_of_mem_writeChars message hp c hc
  have hend : "\r\n\r\n".toList.map asciiByte = headerEnd.reverse := by decide
  rw [bytes, write, Utf8.encode_ascii hascii, List.map_append, header_eq, List.map_append, hend]

/-- **What a written frame is made of**: the line that gives the length of the
body, the end of the header, and the body, which spells the message. -/
theorem framed_of_bytes? (hobj : message.isObject) (hp : message.isPlain)
    (h : bytes? message = some frame) :
    ∃ line body, frame = line ++ headerEnd.reverse ++ body ∧ lineFeed ∉ line ∧
      bodyLength line = .ok body.length ∧ body.length ≤ ByteStream.maxCount ∧
      decodeBody body = .ok message := by
  unfold bytes? at h
  split_ifs at h with hwritten
  obtain ⟨hw, hle⟩ := hwritten
  have hpos : 0 < message.writeChars.length := by
    obtain ⟨c, cs, hcs, -⟩ := Json.exists_writeChars_eq_cons hp
    rw [hcs]
    exact Nat.succ_pos _
  have hfew : (Nat.toDigits 10 message.writeChars.length).length ≤ 19 :=
    (Nat.length_toDigits_le_iff (by decide) (by decide)).mpr
      (Nat.lt_of_le_of_lt hle (by decide))
  refine ⟨_, _, (Option.some.inj h).symm.trans (bytes_eq hp),
    not_mem_lengthLine (by decide), ?_, ?_,
    decodeBody_write hobj hp hw⟩
  · rw [List.length_map]
    exact bodyLength_lengthLine hpos (Nat.le_trans hfew (by decide))
  · rwa [List.length_map]

end Frame

end Retype
