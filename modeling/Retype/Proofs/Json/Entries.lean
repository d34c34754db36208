import Retype.Json.Basic
import Mathlib.Data.List.Forall2
/-!
# Entries that change

What a lookup finds after an entry was set or erased, and objects whose
entries correspond one to one. Two values are of the `SameSort` if they are
both lists of one length, both objects, or one and the same; this is as much
as a change inside a value leaves of it when seen from outside.
-/

namespace Retype

namespace Entries

variable {entries : Entries} {key key' : String}

/-! ## Lookups after a change -/

/-- Setting a key leaves the others. -/
theorem get?_set_ne (h : key' ≠ key) (v : Json) :
    (entries.set key v).get? key' = entries.get? key' := by
  induction entries with
  | nil => simp [set, get?, h.symm]
  | cons entry rest ih =>
    obtain ⟨k, w⟩ := entry
    by_cases hk : k = key
    · subst hk
      simp [set, get?, h.symm]
    · simp [set, get?, hk, ih]

/-- A new key comes last. -/
theorem set_of_not_mem (h : key ∉ entries.map (·.1)) (v : Json) :
    entries.set key v = entries ++ [(key, v)] := by
  induction entries with
  | nil => rfl
  | cons entry rest ih =>
    obtain ⟨k, w⟩ := entry
    simp only [List.map_cons, List.mem_cons, not_or] at h
    simp [set, Ne.symm h.1, ih h.2]

/-- An entry after a change was there before, or is the new one. -/
theorem mem_set {entry : String × Json} {v : Json} (h : entry ∈ entries.set key v) :
    entry ∈ entries ∨ entry = (key, v) := by
  induction entries with
  | nil => simpa [set] using h
  | cons first rest ih =>
    obtain ⟨k, w⟩ := first
    by_cases hk : k = key
    · simp only [set, hk, if_true, List.mem_cons] at h
      rcases h with h | h
      · exact .inr h
      · exact .inl (List.mem_cons_of_mem _ h)
    · simp only [set, hk, if_false, List.mem_cons] at h
      rcases h with h | h
      · exact .inl (h ▸ List.mem_cons_self)
      · exact (ih h).imp_left (List.mem_cons_of_mem _)

/-- The keys after a change are those before it, or one more. -/
theorem map_fst_set (v : Json) : (entries.set key v).map (·.1) =
    if key ∈ entries.map (·.1) then entries.map (·.1) else entries.map (·.1) ++ [key] := by
  induction entries with
  | nil => simp [set]
  | cons first rest ih =>
    obtain ⟨k, w⟩ := first
    by_cases hk : k = key
    · simp [set, hk]
    · have hk' : ¬key = k := Ne.symm hk
      by_cases hmem : key ∈ rest.map (·.1) <;> simp_all [set]

/-- Setting a key keeps the keys distinct. -/
theorem nodup_set (h : (entries.map (·.1)).Nodup) (v : Json) :
    ((entries.set key v).map (·.1)).Nodup := by
  rw [map_fst_set]
  split
  next => exact h
  next hkey =>
    refine List.nodup_append.2 ⟨h, List.pairwise_singleton _ key, fun k hk k' hk' hsame => hkey ?_⟩
    rwa [← List.mem_singleton.1 hk', ← hsame]

/-- A key that gets the value it has. -/
theorem set_of_get? {v : Json} (h : entries.get? key = some v) : entries.set key v = entries := by
  induction entries with
  | nil => cases h
  | cons entry rest ih =>
    obtain ⟨k, w⟩ := entry
    by_cases hk : k = key
    · simp only [Entries.get?, hk, if_true] at h
      cases h
      simp [Entries.set, hk]
    · simp only [Entries.get?, hk, if_false] at h
      simp [Entries.set, hk, ih h]

/-- What is read is one of the entries. -/
theorem mem_of_get? {v : Json} (h : entries.get? key = some v) : (key, v) ∈ entries := by
  induction entries with
  | nil => simp [get?] at h
  | cons first rest ih =>
    obtain ⟨k, w⟩ := first
    by_cases hk : k = key
    · obtain rfl : w = v := by simpa [get?, hk] using h
      simp [hk]
    · exact List.mem_cons_of_mem _ (ih (by simpa [get?, hk] using h))

/-- Where no key is there twice, each entry is found. -/
theorem get?_of_mem {v : Json} (hkeys : (entries.map (·.1)).Nodup) (h : (key, v) ∈ entries) :
    entries.get? key = some v := by
  induction entries with
  | nil => cases h
  | cons first rest ih =>
    obtain ⟨k, w⟩ := first
    rw [List.map_cons, List.nodup_cons] at hkeys
    rcases List.mem_cons.1 h with hfirst | hrest
    · cases hfirst
      simp [get?]
    · have hk : k ≠ key := by
        rintro rfl
        exact hkeys.1 (List.mem_map.2 ⟨_, hrest, rfl⟩)
      simpa [get?, hk] using ih hkeys.2 hrest

/-- Where an entry is found, and what is found once it has another value. -/
theorem exists_split_of_get? {v : Json} (h : entries.get? key = some v) :
    ∃ before after, entries = before ++ (key, v) :: after ∧
      ∀ v', get? (before ++ (key, v') :: after) key = some v' ∧
        ∀ key', key' ≠ key → get? (before ++ (key, v') :: after) key' = entries.get? key' := by
  induction entries with
  | nil => cases h
  | cons first rest ih =>
    obtain ⟨k, w⟩ := first
    by_cases hk : k = key
    · subst hk
      obtain rfl : w = v := by simpa [get?] using h
      refine ⟨[], rest, rfl, fun v' => ⟨by simp [get?], fun key' hkey' => ?_⟩⟩
      simp [get?, hkey'.symm]
    · obtain ⟨before, after, rfl, hget⟩ := ih (by simpa [get?, hk] using h)
      refine ⟨(k, w) :: before, after, rfl, fun v' => ⟨?_, fun key' hkey' => ?_⟩⟩
      · simpa [get?, hk] using (hget v').1
      · simpa [get?] using congrArg (if k = key' then some w else ·) ((hget v').2 key' hkey')

/-- A key that reads nothing is no key. -/
theorem not_mem_of_get?_none (h : entries.get? key = none) : key ∉ entries.map (·.1) := by
  induction entries with
  | nil => simp
  | cons first rest ih =>
    obtain ⟨k, w⟩ := first
    by_cases hk : k = key
    · simp [get?, hk] at h
    · have hrest : key ∉ rest.map (·.1) := ih (by simpa [get?, hk] using h)
      simpa using ⟨Ne.symm hk, by simpa using hrest⟩

/-- A key is there when it reads something. -/
theorem contains_eq_isSome (entries : Entries) (key : String) :
    entries.contains key = (entries.get? key).isSome := by
  induction entries with
  | nil => rfl
  | cons first rest ih =>
    obtain ⟨k, w⟩ := first
    have ih : rest.any (·.1 = key) = (get? rest key).isSome := ih
    by_cases hk : k = key <;> simp [contains, get?, hk, ih]

/-- Erasing goes through the entries one by one and stops at the key. -/
theorem erase_cons (k : String) (v : Json) (rest : Entries) :
    erase ((k, v) :: rest) key = if k = key then rest.erase key else (k, v) :: rest.erase key := by
  by_cases hk : k = key <;> simp [erase, hk]

/-- Erasing a key leaves the others. -/
theorem get?_erase_ne (h : key' ≠ key) : (entries.erase key).get? key' = entries.get? key' := by
  induction entries with
  | nil => rfl
  | cons entry rest ih =>
    obtain ⟨k, w⟩ := entry
    by_cases hk : k = key
    · subst hk
      simp [erase_cons, get?, h.symm, ih]
    · simp [erase_cons, get?, hk, ih]

/-- An erased key reads nothing. -/
theorem get?_erase_self : (entries.erase key).get? key = none := by
  induction entries with
  | nil => rfl
  | cons entry rest ih =>
    obtain ⟨k, w⟩ := entry
    by_cases hk : k = key <;> simp [erase_cons, get?, hk, ih]

/-- A key without an entry has nothing to erase. -/
theorem erase_of_get?_none (h : entries.get? key = none) : entries.erase key = entries := by
  induction entries with
  | nil => rfl
  | cons entry rest ih =>
    obtain ⟨k, w⟩ := entry
    by_cases hk : k = key
    · simp [get?, hk] at h
    · simpa [erase_cons, hk] using ih (by simpa [get?, hk] using h)

/-! ## Entries that correspond -/

/-- What corresponds to items that correspond. -/
theorem forall₂_trans {α β γ : Type} {R : α → β → Prop} {S : β → γ → Prop} {T : α → γ → Prop}
    (hRS : ∀ a b c, R a b → S b c → T a c) {xs : List α} {ys : List β} {zs : List γ}
    (h : List.Forall₂ R xs ys) (h' : List.Forall₂ S ys zs) : List.Forall₂ T xs zs := by
  induction h generalizing zs with
  | nil =>
    cases h'
    exact .nil
  | cons hab _ ih =>
    cases h' with
    | cons hbc htail => exact .cons (hRS _ _ _ hab hbc) (ih htail)

/-- What corresponds to an item of a list. -/
theorem exists_of_forall₂ {α β : Type} {R : α → β → Prop} {xs : List α} {ys : List β} {y : β}
    (h : List.Forall₂ R xs ys) (hy : y ∈ ys) : ∃ x ∈ xs, R x y := by
  induction h with
  | nil => cases hy
  | @cons a b as bs hab _ ih =>
    rcases List.mem_cons.1 hy with rfl | hy
    · exact ⟨a, List.mem_cons_self, hab⟩
    · obtain ⟨x, hx, hR⟩ := ih hy
      exact ⟨x, List.mem_cons_of_mem _ hx, hR⟩

/-- The same keys in the same order, their values related. -/
def Rel (R : String → Json → Json → Prop) (entries entries' : Entries) : Prop :=
  List.Forall₂ (fun a b => a.1 = b.1 ∧ R a.1 a.2 b.2) entries entries'

variable {R S : String → Json → Json → Prop} {entries' : Entries}

/-- A relation of entries may be weakened at the entries that are there. -/
theorem Rel.mono_of_mem (h : entries.Rel R entries')
    (hRS : ∀ k v v', (k, v) ∈ entries → R k v v' → S k v v') : entries.Rel S entries' := by
  induction h with
  | nil => exact .nil
  | @cons a b as bs hab _ ih =>
    refine .cons ⟨hab.1, hRS _ _ _ List.mem_cons_self hab.2⟩ (ih fun k v v' hmem => ?_)
    exact hRS k v v' (List.mem_cons_of_mem _ hmem)

/-- A relation of entries may be weakened. -/
theorem Rel.mono (h : entries.Rel R entries') (hRS : ∀ k v v', R k v v' → S k v v') :
    entries.Rel S entries' :=
  h.mono_of_mem fun k v v' _ => hRS k v v'

/-- Related entries have the same keys. -/
theorem Rel.keys_eq (h : entries.Rel R entries') : entries'.map (·.1) = entries.map (·.1) := by
  induction h with
  | nil => rfl
  | cons h _ ih => rw [List.map_cons, List.map_cons, h.1, ih]

/-- Entries whose values are related to themselves are. -/
theorem Rel.refl (h : ∀ entry ∈ entries, R entry.1 entry.2 entry.2) : entries.Rel R entries :=
  List.forall₂_same.2 fun entry hentry => ⟨rfl, h entry hentry⟩

/-- Related entries may be put after related ones. -/
theorem Rel.append {before before' : Entries} (h : before.Rel R before')
    (h' : entries.Rel R entries') : Rel R (before ++ entries) (before' ++ entries') :=
  List.rel_append h h'

/-- Another value under a key leaves the other entries alone. -/
theorem Rel.set {v v' : Json} (h : entries.get? key = some v) (hv : R key v v')
    (hR : ∀ k w, R k w w) : entries.Rel R (entries.set key v') := by
  induction entries with
  | nil => simp [Entries.get?] at h
  | cons first rest ih =>
    obtain ⟨k, w⟩ := first
    by_cases hk : k = key
    · subst hk
      obtain rfl : w = v := by simpa [Entries.get?] using h
      simp only [Entries.set, if_true]
      exact .cons ⟨rfl, hv⟩ (Rel.refl fun _ _ => hR _ _)
    · simp only [Entries.set, hk, if_false]
      exact .cons ⟨rfl, hR _ _⟩ (ih (by simpa [Entries.get?, hk] using h))

/-- Corresponding entries are found under the same keys. -/
theorem Rel.get? (h : entries.Rel R entries') (key : String) :
    Option.Rel (R key) (entries.get? key) (entries'.get? key) := by
  induction h with
  | nil => exact .none
  | @cons a b as bs hab _ ih =>
    obtain ⟨k, v⟩ := a
    obtain ⟨k', v'⟩ := b
    obtain ⟨rfl, hv⟩ := hab
    by_cases hk : k = key
    · subst hk
      simpa [Entries.get?] using Option.Rel.some hv
    · simpa [Entries.get?, hk] using ih

end Entries

namespace Json

variable {j j' : Json} {key key' : String}

/-- Setting a field leaves the others. -/
theorem get?_set_ne (h : key' ≠ key) (v : Json) : (j.set key v).get? key' = j.get? key' := by
  cases j with
  | obj entries => exact Entries.get?_set_ne h v
  | _ => rfl

/-- Setting a field to its value changes nothing. -/
theorem set_of_get? {v : Json} (h : j.get? key = some v) : j.set key v = j := by
  cases j with
  | obj entries => exact congrArg obj (Entries.set_of_get? h)
  | _ => rfl

/-- Erasing an absent field changes nothing. -/
theorem erase_of_get?_none (h : j.get? key = none) : j.erase key = j := by
  cases j with
  | obj entries => exact congrArg obj (Entries.erase_of_get?_none h)
  | _ => rfl

/-- An erased field reads nothing. -/
theorem get?_erase_self : (j.erase key).get? key = none := by
  cases j with
  | obj entries => exact Entries.get?_erase_self
  | _ => rfl

/-- An object stays true when a field is set. -/
theorem isTrue_set (l : Entries) (key : String) (v : Json) : ((obj l).set key v).isTrue = true := by
  cases l with
  | nil => rfl
  | cons entry rest =>
    simp only [set, Entries.set]
    split <;> rfl

/-- A value with a field is true. -/
theorem isTrue_of_get? {v : Json} {l : Entries} (h : (obj l).get? key = some v) :
    (obj l).isTrue = true := by
  cases l with
  | nil => cases h
  | cons => rfl

/-- A key that was set, of a value that has keys. -/
theorem get?_set_self {v w : Json} {key' : String} (h : j.get? key' = some w) :
    (j.set key v).get? key = some v := by
  cases j with
  | obj entries => exact Entries.get?_set_self entries key v
  | _ => cases h

/-- What is found where a value was set is the value. -/
theorem eq_of_get?_set_self {v v' : Json} (h : (j.set key v).get? key = some v') : v' = v := by
  cases j with
  | obj entries => exact (Option.some.inj ((Entries.get?_set_self entries key v).symm.trans h)).symm
  | _ => cases h

/-- Erasing a field leaves the others. -/
theorem get?_erase_ne (h : key' ≠ key) : (j.erase key).get? key' = j.get? key' := by
  cases j with
  | obj entries => exact Entries.get?_erase_ne h
  | _ => rfl

/-- Setting a field keeps an object an object. -/
@[simp] theorem isObject_set (v : Json) : (j.set key v).isObject = j.isObject := by
  cases j <;> rfl

/-- So does erasing one. -/
@[simp] theorem isObject_erase : (j.erase key).isObject = j.isObject := by
  cases j <;> rfl

/-- Whether a field is a text is read from that field. -/
theorem hasText_congr (h : j.get? key = j'.get? key) (text : String) :
    j.hasText key text = j'.hasText key text := by
  simp only [hasText, h]

/-- A value with a key is an object. -/
theorem exists_obj_of_get? {v : Json} (h : j.get? key = some v) : ∃ entries, j = obj entries := by
  cases j with
  | obj entries => exact ⟨entries, rfl⟩
  | _ => simp [get?] at h

/-! ## Values of the same sort -/

/-- Values that look the same from outside. -/
inductive SameSort : Json → Json → Prop where
  | refl (v : Json) : SameSort v v
  | arr {items items' : List Json} (h : items.length = items'.length) :
    SameSort (arr items) (arr items')
  | obj (entries entries' : Entries) : SameSort (obj entries) (obj entries')

namespace SameSort

variable {v v' : Json}

/-- Two objects are of one sort. -/
theorem of_isObject (h : v.isObject = true) (h' : v'.isObject = true) : SameSort v v' := by
  cases v <;> cases v' <;> first | exact .obj _ _ | simp [Json.isObject] at h h'

/-- Values of one sort are objects together. -/
theorem isObject_eq (h : SameSort v v') : v'.isObject = v.isObject := by
  cases h <;> rfl

/-- Lists of one sort have as many items. -/
theorem length_items (h : SameSort v v') : v'.items.length = v.items.length := by
  cases h with
  | refl => rfl
  | arr h => exact h.symm
  | obj => rfl

/-- Texts are of the same sort only if they are equal. -/
theorem eq_of_str {s : String} (h : SameSort (str s) v') : v' = str s := by
  cases h; rfl

end SameSort

end Json

end Retype
