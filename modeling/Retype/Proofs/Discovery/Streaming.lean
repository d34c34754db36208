import Mathlib.Data.List.DropRight
import Retype.Discovery.Basic
import Retype.Proofs.Text.Utf8
/-!
# A listing read in pieces

The listing of a repository arrives in pieces that are cut anywhere, and is
taken up one byte at a time, so that the cuts leave no trace: `ofPieces_eq`
says that the pieces give what their bytes give in one piece. What stands
after the last zero byte is the name that is not complete (`rest_append`).
Names that are complete come back as they were written, in their order; bytes
that end inside a name are an error.
-/

namespace Retype.Discovery

namespace Listing

/-! ## Cuts leave no trace -/

theorem append_append (l : Listing) (bs cs : List UInt8) :
    l.append (bs ++ cs) = (l.append bs).append cs :=
  List.foldl_append

theorem append_flatten (l : Listing) (pieces : List (List UInt8)) :
    pieces.foldl append l = l.append pieces.flatten := by
  induction pieces generalizing l with
  | nil => rfl
  | cons piece pieces ih => rw [List.foldl_cons, ih, List.flatten_cons, append_append]

/-- **However the listing is cut, it is the listing in one piece.** -/
theorem ofPieces_eq (pieces : List (List UInt8)) :
    ofPieces pieces = empty.append pieces.flatten :=
  append_flatten empty pieces

/-! ## Complete names -/

theorem push_of_ne_zero (l : Listing) {b : UInt8} (h : b ≠ 0) :
    l.push b = ⟨l.names, l.rest ++ [b]⟩ :=
  if_neg h

/-- Bytes without a zero byte lengthen the name that is not complete. -/
theorem append_of_notMem (l : Listing) {bs : List UInt8} (h : (0 : UInt8) ∉ bs) :
    l.append bs = ⟨l.names, l.rest ++ bs⟩ := by
  induction bs generalizing l with
  | nil => simp [append]
  | cons b bs ih =>
    have hb : b ≠ 0 := fun hz => h (hz ▸ List.mem_cons_self)
    have hbs : (0 : UInt8) ∉ bs := fun hz => h (List.mem_cons_of_mem b hz)
    have hcons : l.append (b :: bs) = (l.push b).append bs := rfl
    rw [hcons, push_of_ne_zero l hb, ih _ hbs, List.append_assoc]
    rfl

/-- A name and its zero byte are one more name. -/
theorem append_name {names : List (List UInt8)} {name : List UInt8} (h : (0 : UInt8) ∉ name)
    (hne : name ≠ []) : (Listing.mk names []).append (name ++ [0]) = ⟨names ++ [name], []⟩ := by
  have hempty : name.isEmpty = false := List.isEmpty_eq_false_iff.2 hne
  rw [append_append, append_of_notMem _ h]
  simp [append, push, hempty]

theorem append_names {names more : List (List UInt8)}
    (h : ∀ name ∈ more, (0 : UInt8) ∉ name ∧ name ≠ []) :
    (Listing.mk names []).append (more.flatMap (· ++ [0])) = ⟨names ++ more, []⟩ := by
  induction more generalizing names with
  | nil => simp [append]
  | cons name more ih =>
    obtain ⟨hzero, hne⟩ := h name List.mem_cons_self
    rw [List.flatMap_cons, append_append, append_name hzero hne,
      ih fun n hn => h n (List.mem_cons_of_mem name hn), List.append_assoc]
    rfl

/-- The text of complete names is the text they were written for. -/
theorem entries_encode (names : List String) :
    (Listing.mk (names.map Utf8.encode) []).entries = names := by
  have hback : Utf8.decodeLossy ∘ Utf8.encode = id := funext Utf8.decodeLossy_encode
  rw [entries, List.map_map, hback, List.map_id]

/-! ## A name that is not complete -/

theorem rest_push (l : Listing) (b : UInt8) :
    (l.push b).rest = if b = 0 then [] else l.rest ++ [b] := by
  unfold push
  split <;> rfl

/-- **What stands after the last zero byte is not complete.** -/
theorem rest_append (bs : List UInt8) :
    (empty.append bs).rest = bs.rtakeWhile (· != 0) := by
  induction bs using List.reverseRecOn with
  | nil => rfl
  | append_singleton bs b ih =>
    have hlast : empty.append (bs ++ [b]) = (empty.append bs).push b := append_append empty bs [b]
    rw [hlast, rest_push, List.rtakeWhile_concat, ih]
    by_cases hb : b = 0 <;> simp [hb]

end Listing

/-! ## The files of the listing -/

variable {root : String} {extensions ignoredDirs : List String}

/-- Reads that are not empty are all taken. -/
theorem takeWhile_of_nonempty {pieces : List (List UInt8)} (h : ∀ piece ∈ pieces, piece ≠ []) :
    pieces.takeWhile (fun piece => !piece.isEmpty) = pieces := by
  rw [List.takeWhile_eq_self_iff]
  intro piece hpiece
  simp [h piece hpiece]

theorem filesOf_names {names : List String} {pieces : List (List UInt8)} {errors : List UInt8}
    (hnames : ∀ name ∈ names, name ≠ "" ∧ '\x00' ∉ name.toList)
    (hpieces : ∀ piece ∈ pieces, piece ≠ [])
    (hcut : pieces.flatten = names.flatMap fun name => Utf8.encode name ++ [0]) :
    filesOf root extensions ignoredDirs (.exited pieces 0 errors) =
      .ok ((names.filter (isWanted extensions ignoredDirs)).map (pathIn root)) := by
  have hbytes : ∀ name ∈ names.map Utf8.encode, (0 : UInt8) ∉ name ∧ name ≠ [] := by
    intro name hname
    obtain ⟨text, htext, rfl⟩ := List.mem_map.1 hname
    obtain ⟨hne, hzero⟩ := hnames text htext
    exact ⟨Utf8.zero_notMem_encode hzero, Utf8.encode_ne_nil hne⟩
  have hlisting : Listing.ofPieces pieces = ⟨names.map Utf8.encode, []⟩ := by
    have hall : (Listing.mk [] []).append ((names.map Utf8.encode).flatMap (· ++ [0])) =
        ⟨[] ++ names.map Utf8.encode, []⟩ := Listing.append_names hbytes
    rw [List.flatMap_map, List.nil_append] at hall
    rw [Listing.ofPieces_eq, hcut]
    exact hall
  simp only [filesOf, takeWhile_of_nonempty hpieces, hlisting, Listing.failure?,
    Listing.entries_encode]
  rfl

theorem filesOf_cutOff {pieces : List (List UInt8)} {status : Int} {errors : List UInt8} {b : UInt8}
    (hpieces : ∀ piece ∈ pieces, piece ≠ []) (hlast : pieces.flatten.getLast? = some b)
    (hb : b ≠ 0) :
    filesOf root extensions ignoredDirs (.exited pieces status errors) =
      .error (.cutOff (pieces.flatten.rtakeWhile (· != 0))) := by
  have hrest : (Listing.ofPieces pieces).rest = pieces.flatten.rtakeWhile (· != 0) := by
    rw [Listing.ofPieces_eq, Listing.rest_append]
  have hne : (pieces.flatten.rtakeWhile (· != 0)).isEmpty = false := by
    obtain ⟨front, hfront⟩ := List.getLast?_eq_some_iff.1 hlast
    rw [hfront, List.rtakeWhile_concat_pos _ _ _ (by simpa using hb)]
    simp
  simp only [filesOf, takeWhile_of_nonempty hpieces, Listing.failure?, hrest, hne]
  rfl

/-- **Discovery does not see how the listing is cut.** Names that are all
complete give the wanted ones in their order, each as often as it is listed;
bytes that end in anything but a zero byte are an error, whatever the status,
and the error names the bytes of the name that is not complete. -/
theorem filesOf_exited (root : String) (extensions ignoredDirs : List String) :
    (∀ (names : List String) (pieces : List (List UInt8)) (errors : List UInt8),
      (∀ name ∈ names, name ≠ "" ∧ '\x00' ∉ name.toList) → (∀ piece ∈ pieces, piece ≠ []) →
      (pieces.flatten = names.flatMap fun name => Utf8.encode name ++ [0]) →
      filesOf root extensions ignoredDirs (.exited pieces 0 errors) =
        .ok ((names.filter (isWanted extensions ignoredDirs)).map (pathIn root))) ∧
    (∀ (pieces : List (List UInt8)) (status : Int) (errors : List UInt8) (b : UInt8),
      (∀ piece ∈ pieces, piece ≠ []) → pieces.flatten.getLast? = some b → b ≠ 0 →
      filesOf root extensions ignoredDirs (.exited pieces status errors) =
        .error (.cutOff (pieces.flatten.rtakeWhile (· != 0)))) :=
  ⟨fun _ _ _ => filesOf_names, fun _ _ _ _ => filesOf_cutOff⟩

/-- A listing that is cut inside a character, with a name that is listed
twice; and the same bytes without the last of them. -/
theorem filesOf_exited_sample :
    filesOf "r" [".js"] ["b"]
        (.exited [[0xc3], [0xa9, 0x2e, 0x6a], [0x73, 0, 0x62, 0x2f, 0x2e, 0x6a, 0x73],
          [0, 0xc3, 0xa9, 0x2e, 0x6a, 0x73, 0]] 0 []) =
      .ok ((["é.js", "b/.js", "é.js"].filter (isWanted [".js"] ["b"])).map (pathIn "r")) ∧
    filesOf "r" [".js"] ["b"] (.exited [[0x61, 0, 0xc3], [0xa9]] 0 []) =
      .error (.cutOff [0xc3, 0xa9]) :=
  ⟨(filesOf_exited "r" [".js"] ["b"]).1 ["é.js", "b/.js", "é.js"] _ [] (by decide) (by decide)
      (by decide),
    (filesOf_exited "r" [".js"] ["b"]).2 [[0x61, 0, 0xc3], [0xa9]] 0 [] 0xa9 (by decide) (by decide)
      (by decide)⟩

end Retype.Discovery
