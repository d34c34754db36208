import Mathlib.Tactic.SplitIfs
import Retype.Source.Path
/-!
# Paths and their texts

A path that was read from a text has proper components, and a proper path is
read back from its own text (`parse_toText`). A name is its stem and its
suffix, so a path is known by the two; with another suffix it keeps its stem.
-/

namespace Retype

namespace Text

variable {α : Type} {p : α → Bool}

/-- Without a separator there is one piece. -/
theorem splitList_of_forall {xs : List α} (h : ∀ x ∈ xs, p x = false) : splitList p xs = [xs] := by
  induction xs with
  | nil => rfl
  | cons x xs ih =>
    simp [splitList, h x List.mem_cons_self, ih fun y hy => h y (List.mem_cons_of_mem x hy)]

/-- The first piece ends at the first separator. -/
theorem splitList_append_cons {xs : List α} (h : ∀ x ∈ xs, p x = false)
    {sep : α} (hsep : p sep = true)
    (rest : List α) : splitList p (xs ++ sep :: rest) = xs :: splitList p rest := by
  induction xs with
  | nil => simp [splitList, hsep]
  | cons x xs ih =>
    simp [splitList, h x List.mem_cons_self, ih fun y hy => h y (List.mem_cons_of_mem x hy)]

/-- There is always a piece. -/
theorem splitList_ne_nil (xs : List α) : splitList p xs ≠ [] := by
  cases xs with
  | nil => simp [splitList]
  | cons x xs =>
    rw [splitList]
    split_ifs
    · simp
    · split <;> simp

/-- No separator is in a piece. -/
theorem not_of_mem_splitList {xs piece : List α} (h : piece ∈ splitList p xs) {x : α}
    (hx : x ∈ piece) : p x = false := by
  induction xs generalizing piece with
  | nil =>
    obtain rfl : piece = [] := by simpa [splitList] using h
    exact absurd hx List.not_mem_nil
  | cons y ys ih =>
    rw [splitList] at h
    split_ifs at h with hy
    · rcases List.mem_cons.1 h with rfl | h
      · exact absurd hx List.not_mem_nil
      · exact ih h hx
    · split at h
      next hnil => exact absurd hnil (splitList_ne_nil ys)
      next first rest hsplit =>
        rcases List.mem_cons.1 h with rfl | h
        · rcases List.mem_cons.1 hx with rfl | hx
          · simpa using hy
          · exact ih (hsplit ▸ List.mem_cons_self) hx
        · exact ih (hsplit ▸ List.mem_cons_of_mem _ h) hx

/-- The pieces are made of the elements. -/
theorem mem_of_mem_splitList {xs piece : List α} (h : piece ∈ splitList p xs) {x : α}
    (hx : x ∈ piece) : x ∈ xs := by
  induction xs generalizing piece with
  | nil => rwa [show piece = [] by simpa [splitList] using h] at hx
  | cons y ys ih =>
    rw [splitList] at h
    split_ifs at h
    · rcases List.mem_cons.1 h with rfl | h
      · exact absurd hx List.not_mem_nil
      · exact List.mem_cons_of_mem y (ih h hx)
    · split at h
      next hnil => exact absurd hnil (splitList_ne_nil ys)
      next first rest hsplit =>
        rcases List.mem_cons.1 h with rfl | h
        · rcases List.mem_cons.1 hx with rfl | hx
          · exact List.mem_cons_self
          · exact List.mem_cons_of_mem y (ih (hsplit ▸ List.mem_cons_self) hx)
        · exact List.mem_cons_of_mem y (ih (hsplit ▸ List.mem_cons_of_mem _ h) hx)

end Text

namespace Path

/-! ## Components -/

/-- A component of a path. -/
structure IsComponent (part : String) : Prop where
  ne_empty : part ≠ ""
  ne_dot : part ≠ "."
  no_slash : '/' ∉ part.toList

/-- A path as it is read from a text. -/
structure Proper (p : Path) : Prop where
  root : p.root = "" ∨ p.root = "/" ∨ p.root = "//"
  parts : ∀ part ∈ p.parts, IsComponent part

/-- **A normal path**: it starts at the root and never leads back up. -/
structure IsNormal (p : Path) : Prop where
  absolute : p.isAbsolute = true
  no_up : ".." ∉ p.parts

/-- A path is its root and its parts. -/
theorem eq_of_parts_eq {p q : Path} (hroot : p.root = q.root) (hparts : p.parts = q.parts) :
    p = q := by
  cases p
  cases q
  exact congr (congrArg Path.mk hroot) hparts

/-- The components in some characters. -/
def componentsIn (cs : List Char) : List String :=
  ((Text.splitList (· == '/') cs).map String.ofList).filter fun part => part ≠ "" ∧ part ≠ "."

/-- What is read between slashes is a component. -/
theorem isComponent_of_mem {part : String} {cs : List Char} (h : part ∈ componentsIn cs) :
    IsComponent part := by
  obtain ⟨hpart, hne⟩ := List.mem_filter.1 h
  obtain ⟨piece, hpiece, rfl⟩ := List.mem_map.1 hpart
  obtain ⟨hempty, hdot⟩ := of_decide_eq_true hne
  refine ⟨hempty, hdot, fun hslash => ?_⟩
  rw [String.toList_ofList] at hslash
  exact absurd (Text.not_of_mem_splitList hpiece hslash) (by decide)

/-- A component's characters come from the text. -/
theorem mem_of_mem_componentsIn {part : String} {cs : List Char} (h : part ∈ componentsIn cs)
    {x : Char} (hx : x ∈ part.toList) : x ∈ cs := by
  obtain ⟨piece, hpiece, rfl⟩ := List.mem_map.1 (List.mem_filter.1 h).1
  rw [String.toList_ofList] at hx
  exact Text.mem_of_mem_splitList hpiece hx

/-- What is read is proper. -/
theorem proper_parse (s : String) : (parse s).Proper := by
  have hparts : ∀ part ∈ componentsIn s.toList, IsComponent part := fun part => isComponent_of_mem
  refine ⟨?_, hparts⟩
  show rootOf s = "" ∨ rootOf s = "/" ∨ rootOf s = "//"
  unfold rootOf
  split
  · exact .inl rfl
  · exact .inr (.inr rfl)
  · exact .inr (.inl rfl)

namespace IsComponent

variable {part : String} (h : IsComponent part)
include h

/-- A component has no slash. -/
theorem slash_eq_false {c : Char} (hc : c ∈ part.toList) : (c == '/') = false :=
  beq_false_of_ne fun heq => h.no_slash (heq ▸ hc)

/-- A component is read as itself. -/
theorem componentsIn_eq : componentsIn part.toList = [part] := by
  rw [componentsIn, Text.splitList_of_forall fun c hc => h.slash_eq_false hc]
  simp [h.ne_empty, h.ne_dot]

/-- A component before a slash is read first. -/
theorem componentsIn_append (rest : List Char) :
    componentsIn (part.toList ++ '/' :: rest) = part :: componentsIn rest := by
  rw [componentsIn, Text.splitList_append_cons (fun c hc => h.slash_eq_false hc) rfl]
  simp [componentsIn, h.ne_empty, h.ne_dot]

end IsComponent

/-- A leading slash is passed over. -/
theorem componentsIn_slash (cs : List Char) : componentsIn ('/' :: cs) = componentsIn cs := by
  simp [componentsIn, Text.splitList]

/-- Components are read back from between their slashes. -/
theorem componentsIn_intercalate {parts : List String} (h : ∀ part ∈ parts, IsComponent part) :
    componentsIn (['/'].intercalate (parts.map String.toList)) = parts := by
  induction parts with
  | nil => rfl
  | cons part rest ih =>
    have hpart := h part List.mem_cons_self
    have ih := ih fun other hother => h other (List.mem_cons_of_mem part hother)
    cases rest with
    | nil => simpa using hpart.componentsIn_eq
    | cons next rest =>
      rw [List.map_cons, List.map_cons, List.intercalate_cons_cons, List.append_assoc,
        List.singleton_append, hpart.componentsIn_append]
      exact congrArg (part :: ·) ih

/-- Components begin with no slash. -/
theorem takeWhile_intercalate {parts : List String} (h : ∀ part ∈ parts, IsComponent part) :
    (['/'].intercalate (parts.map String.toList)).takeWhile (· == '/') = [] := by
  cases parts with
  | nil => rfl
  | cons part rest =>
    have hpart := h part List.mem_cons_self
    obtain ⟨c, cs, hcs⟩ := List.exists_cons_of_ne_nil
      (show part.toList ≠ [] from fun hnil => hpart.ne_empty (String.toList_eq_nil_iff.1 hnil))
    have hc : (c == '/') = false := hpart.slash_eq_false (hcs ▸ List.mem_cons_self)
    cases rest with
    | nil => simp [hcs, hc]
    | cons next rest =>
      rw [List.map_cons, List.map_cons, List.intercalate_cons_cons, hcs]
      simp [hc]

/-! ## Reading back -/

/-- A root is read back from what follows it. -/
theorem rootOf_append {root : String} (hroot : root = "" ∨ root = "/" ∨ root = "//") {s : String}
    (h : s.toList.takeWhile (· == '/') = []) : rootOf (root ++ s) = root := by
  have hslashes : (root ++ s).toList.takeWhile (· == '/') = root.toList := by
    rw [String.toList_append, List.takeWhile_append_of_pos, h, List.append_nil]
    rcases hroot with rfl | rfl | rfl <;> simp
  unfold rootOf
  rw [hslashes]
  rcases hroot with rfl | rfl | rfl <;> rfl

/-- So are the components after it. -/
theorem componentsOf_append {root : String} (hroot : root = "" ∨ root = "/" ∨ root = "//")
    (s : String) : componentsOf (root ++ s) = componentsIn s.toList := by
  have hcomponents : componentsOf (root ++ s) = componentsIn (root.toList ++ s.toList) := by
    rw [← String.toList_append]
    rfl
  rw [hcomponents]
  rcases hroot with rfl | rfl | rfl
  · rfl
  · exact componentsIn_slash _
  · exact (componentsIn_slash _).trans (componentsIn_slash _)

/-- **A proper path is read back from its text.** -/
theorem parse_toText {p : Path} (h : p.Proper) : parse p.toText = p := by
  obtain ⟨root, parts⟩ := p
  obtain ⟨hroot, hparts⟩ := h
  dsimp only at hroot hparts
  have hbody : (String.intercalate "/" parts).toList =
      ['/'].intercalate (parts.map String.toList) :=
    String.toList_intercalate
  rw [toText]
  split_ifs with hempty
  · -- the text `.` has no components
    obtain ⟨rfl, hnil⟩ : root = "" ∧ String.intercalate "/" parts = "" := by
      simpa using hempty
    have hcomponents := componentsIn_intercalate hparts
    rw [← hbody, hnil] at hcomponents
    obtain rfl : [] = parts := hcomponents
    rfl
  · rw [parse, rootOf_append hroot (hbody ▸ takeWhile_intercalate hparts),
      componentsOf_append hroot, hbody, componentsIn_intercalate hparts]

/-! ## Stems and suffixes -/

/-- What a name can have at its end. -/
structure IsSuffix (s : String) : Prop where
  ne_dot : s ≠ "."
  no_slash : '/' ∉ s.toList
  dot : ∃ ending, s = "." ++ ending ∧ '.' ∉ ending.toList

/-- The one extension that is written is a suffix. -/
theorem isSuffix_ts : IsSuffix ".ts" := ⟨by decide, by decide, "ts", rfl, by decide⟩

/-- So is the other. -/
theorem isSuffix_tsx : IsSuffix ".tsx" := ⟨by decide, by decide, "tsx", rfl, by decide⟩

/-- A suffix is more than its dot. -/
theorem IsSuffix.one_lt_length {s : String} (h : IsSuffix s) : 1 < s.toList.length := by
  obtain ⟨hdot, -, ending, rfl, -⟩ := h
  have hpos : 0 < ending.toList.length := List.length_pos_iff.2 fun hnil => by
    obtain rfl := String.toList_eq_nil_iff.1 hnil
    exact hdot String.append_empty
  have hone : ".".toList.length = 1 := rfl
  rw [String.toList_append, List.length_append]
  omega

/-- A name that ends with a suffix is cut before it. -/
theorem splitName_append {stem s : String} (hstem : stem ≠ "") (hs : IsSuffix s) :
    splitName (stem ++ s) = (stem, s) := by
  obtain ⟨hdot, -, ending, rfl, hending⟩ := hs
  have hne : ending.toList ≠ [] := fun hnil => by
    obtain rfl := String.toList_eq_nil_iff.1 hnil
    exact hdot String.append_empty
  have hcs : (stem ++ ("." ++ ending)).toList = stem.toList ++ '.' :: ending.toList := by
    simp [String.toList_append]
  have hcut : ((stem ++ ("." ++ ending)).toList.reverse.takeWhile (· ≠ '.')).reverse
      = ending.toList := by
    rw [hcs, List.reverse_append, List.reverse_cons, List.append_assoc,
      List.takeWhile_append_of_pos fun c hc => ?_]
    · simp
    · simpa using ne_of_mem_of_not_mem (List.mem_reverse.1 hc) hending
  have hlength : 0 < stem.toList.length :=
    List.length_pos_iff.2 fun hnil => hstem (String.toList_eq_nil_iff.1 hnil)
  have hstart : (stem ++ ("." ++ ending)).toList.length - ending.toList.length - 1
      = stem.toList.length := by
    rw [hcs, List.length_append, List.length_cons]
    omega
  rw [splitName]
  simp only [hcut, hstart]
  rw [if_pos
    ⟨by rw [hcs, List.length_append, List.length_cons]; omega, hlength, by simpa using hne⟩,
    hcs, List.take_left, List.drop_left]
  rw [String.ofList_toList]
  refine congrArg (Prod.mk stem) ?_
  rw [← String.toList_inj]
  simp [String.toList_append]

/-- A name is its stem and its suffix. -/
theorem splitName_join (name : String) : (splitName name).1 ++ (splitName name).2 = name := by
  rw [splitName]
  split_ifs
  · rw [← String.ofList_append, List.take_append_drop, String.ofList_toList]
  · exact String.append_empty ..

/-- A name that is not empty has a stem. -/
theorem stemName_ne_empty {name : String} (h : name ≠ "") : (splitName name).1 ≠ "" := by
  rw [splitName]
  split_ifs with hcut
  · intro hnil
    have hlength := congrArg (fun s : String => s.toList.length) hnil
    simp only [String.toList_ofList, List.length_take, String.toList_empty,
      List.length_nil] at hlength
    omega
  · exact h

/-- A stem has no character that its name has not. -/
theorem not_mem_stemName {name : String} {c : Char} (h : c ∉ name.toList) :
    c ∉ (splitName name).1.toList := by
  rw [← splitName_join name, String.toList_append] at h
  exact fun hc => h (List.mem_append_left _ hc)

/-- A path without the suffix of its name. -/
def stem (p : Path) : Path := ⟨p.root, p.parts.dropLast ++ [(splitName p.name).1]⟩

/-- The last part of a path is its name. -/
theorem dropLast_append_name {p : Path} (h : p.parts ≠ []) :
    p.parts.dropLast ++ [p.name] = p.parts := by
  rw [name, List.getLastD_eq_getLast?, List.getLast?_eq_some_getLast h, Option.getD_some]
  exact List.dropLast_concat_getLast h

/-- **A path is known by its stem and its suffix.** -/
theorem eq_of_stem_eq {p q : Path} (hp : p.parts ≠ []) (hq : q.parts ≠ []) (hstem : p.stem = q.stem)
    (hsuffix : p.suffix = q.suffix) : p = q := by
  obtain ⟨hroot, hparts⟩ := Path.mk.inj hstem
  obtain ⟨hdirectory, hname⟩ := List.append_inj' hparts rfl
  have hnames : p.name = q.name := by
    rw [← splitName_join p.name, ← splitName_join q.name, (List.cons.inj hname).1]
    exact congrArg _ hsuffix
  refine eq_of_parts_eq hroot ?_
  rw [← dropLast_append_name hp, ← dropLast_append_name hq, hdirectory, hnames]

section
variable {p q : Path} {s : String}

/-- A path with another suffix. -/
theorem withSuffix?_eq (h : p.withSuffix? s = some q) :
    p.name ≠ "" ∧ q = ⟨p.root, p.parts.dropLast ++ [(splitName p.name).1 ++ s]⟩ := by
  rw [withSuffix?] at h
  split_ifs at h with hname
  exact ⟨hname, (Option.some.inj h).symm⟩

/-- A part put last is the name. -/
theorem name_concat (root : String) (directory : List String) (name : String) :
    (⟨root, directory ++ [name]⟩ : Path).name = name := by
  simp [Path.name]

/-- The new suffix is the one that was asked for. -/
theorem suffix_withSuffix? (hs : IsSuffix s) (h : p.withSuffix? s = some q) : q.suffix = s := by
  obtain ⟨hname, rfl⟩ := withSuffix?_eq h
  rw [suffix, name_concat, splitName_append (stemName_ne_empty hname) hs]

/-- The stem is kept. -/
theorem stem_withSuffix? (hs : IsSuffix s) (h : p.withSuffix? s = some q) : q.stem = p.stem := by
  obtain ⟨hname, rfl⟩ := withSuffix?_eq h
  rw [stem, name_concat, splitName_append (stemName_ne_empty hname) hs]
  simp [stem]

/-- The new name is a component and does not point upwards. -/
theorem name_withSuffix? (hs : IsSuffix s) (h : p.withSuffix? s = some q) (hp : p.Proper) :
    IsComponent q.name ∧ q.name ≠ ".." := by
  obtain ⟨hname, rfl⟩ := withSuffix?_eq h
  have hstem := stemName_ne_empty hname
  rw [name_concat]
  have hparts : p.parts ≠ [] := fun hnil => hname (by rw [name, hnil]; rfl)
  have hmem : p.name ∈ p.parts := by
    have hlast := List.mem_append_right p.parts.dropLast (List.mem_singleton_self p.name)
    rwa [dropLast_append_name hparts] at hlast
  have hlength : 2 < ((splitName p.name).1 ++ s).toList.length := by
    have hpos := List.length_pos_iff.2 fun hnil => hstem (String.toList_eq_nil_iff.1 hnil)
    have hsuffix := hs.one_lt_length
    rw [String.toList_append, List.length_append]
    omega
  have hne : ∀ short : String, short.toList.length ≤ 2 → (splitName p.name).1 ++ s ≠ short :=
    fun short hshort heq => by
      rw [heq] at hlength
      omega
  refine ⟨⟨hne "" (by decide), hne "." (by decide), ?_⟩, hne ".." (by decide)⟩
  rw [String.toList_append, List.mem_append, not_or]
  exact ⟨not_mem_stemName (hp.parts _ hmem).no_slash, hs.no_slash⟩

/-- A proper path stays proper. -/
theorem proper_withSuffix? (hs : IsSuffix s) (h : p.withSuffix? s = some q) (hp : p.Proper) :
    q.Proper := by
  have hname := name_withSuffix? hs h hp
  obtain ⟨-, rfl⟩ := withSuffix?_eq h
  rw [name_concat] at hname
  refine ⟨hp.root, fun part hpart => ?_⟩
  rcases List.mem_append.1 hpart with hpart | hpart
  · exact hp.parts part (List.dropLast_subset _ hpart)
  · exact List.mem_singleton.1 hpart ▸ hname.1

/-- A normal path stays normal. -/
theorem isNormal_withSuffix? (hs : IsSuffix s) (h : p.withSuffix? s = some q) (hp : p.Proper)
    (hnormal : p.IsNormal) : q.IsNormal := by
  have hname := name_withSuffix? hs h hp
  obtain ⟨-, rfl⟩ := withSuffix?_eq h
  rw [name_concat] at hname
  refine ⟨hnormal.absolute, fun hup => ?_⟩
  rcases List.mem_append.1 hup with hup | hup
  · exact hnormal.no_up (List.dropLast_subset _ hup)
  · exact hname.2 (List.mem_singleton.1 hup).symm

end

/-! ## Paths below a directory -/

section
variable {p q : Path}

/-- Proper paths join to a proper path. -/
theorem proper_join (hp : p.Proper) (hq : q.Proper) : (p.join q).Proper := by
  rw [join]
  split_ifs
  · exact hq
  · exact ⟨hp.root, fun part hpart =>
      (List.mem_append.1 hpart).elim (hp.parts part) (hq.parts part)⟩

/-- A relative path is joined part after part. -/
theorem join_of_relative (hq : q.isAbsolute = false) : p.join q = ⟨p.root, p.parts ++ q.parts⟩ := by
  rw [join, hq, if_neg Bool.false_ne_true]

/-- The name of a joined path is that of the second one. -/
theorem name_join (hq : q.isAbsolute = false) (hne : q.parts ≠ []) : (p.join q).name = q.name := by
  rw [join_of_relative hq, name, name, List.getLastD_eq_getLast?, List.getLastD_eq_getLast?,
    List.getLast?_append, List.getLast?_eq_some_getLast hne, Option.some_or]

/-- A normal path joined with one that never points upwards is normal. -/
theorem isNormal_join (hp : p.IsNormal) (hq : q.isAbsolute = false) (hup : ".." ∉ q.parts) :
    (p.join q).IsNormal := by
  rw [join_of_relative hq]
  exact ⟨hp.absolute, fun h => (List.mem_append.1 h).elim hp.no_up hup⟩

end

end Path

end Retype
