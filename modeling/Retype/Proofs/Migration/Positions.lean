import Retype.Proofs.Migration.Throughout
/-!
# Types without positions

The positions in a type that was inferred belong to another text, and are
dropped before it is rewritten. Its kinds, items and keys stay, so what was
known of it still holds.
-/

namespace Retype.Migration

theorem stripItems_eq_map (items : List Json) :
    Json.stripItems items = items.map Json.stripPositions := by
  induction items with
  | nil => rfl
  | cons item rest ih => rw [Json.stripItems, ih, List.map_cons]

theorem mem_stripEntries {l : List (String × Json)} {entry : String × Json}
    (h : entry ∈ Json.stripEntries l) : ∃ w, (entry.1, w) ∈ l ∧ entry.2 = w.stripPositions := by
  induction l with
  | nil => cases h
  | cons first rest ih =>
    obtain ⟨key, w⟩ := first
    rw [Json.stripEntries] at h
    split at h
    · obtain ⟨w', hmem, heq⟩ := ih h
      exact ⟨w', List.mem_cons_of_mem _ hmem, heq⟩
    · rcases List.mem_cons.1 h with rfl | h
      · exact ⟨w, List.mem_cons_self, rfl⟩
      · obtain ⟨w', hmem, heq⟩ := ih h
        exact ⟨w', List.mem_cons_of_mem _ hmem, heq⟩

theorem get?_stripPositions {key : String} (hkey : key ∉ Json.inheritedKeys) (v : Json) :
    v.stripPositions.get? key = (v.get? key).map Json.stripPositions := by
  cases v with
  | obj l =>
    rw [Json.stripPositions]
    simp only [Json.get?]
    induction l with
    | nil => rfl
    | cons first rest ih =>
      obtain ⟨k, w⟩ := first
      rw [Json.stripEntries]
      by_cases hk : k = key
      · subst hk
        simp [hkey, Entries.get?]
      · split <;> simp [Entries.get?, hk, ih]
  | _ => rfl

theorem hasText_stripPositions (v : Json) (text : String) :
    v.stripPositions.hasText "type" text = v.hasText "type" text := by
  rw [Json.hasText, Json.hasText, get?_stripPositions (by decide)]
  cases v.get? "type" with
  | none => rfl
  | some w => cases w <;> rfl

/-- The items under a key lose their positions one by one. -/
theorem itemsAt_stripPositions {key : String} (hkey : key ∉ Json.inheritedKeys) (v : Json) :
    v.stripPositions.itemsAt key = (v.itemsAt key).map Json.stripPositions := by
  rw [Json.itemsAt, Json.itemsAt, get?_stripPositions hkey]
  cases v.get? key with
  | none => rfl
  | some w =>
    cases w with
    | arr items => exact stripItems_eq_map items
    | _ => rfl

theorem isNode_stripPositions (v : Json) : v.stripPositions.isNode = v.isNode := by
  rw [Erasure.isNode_eq, Erasure.isNode_eq, get?_stripPositions (by decide), Option.isSome_map]

theorem nodes_stripPositions (v : Json) :
    v.stripPositions.nodes = v.nodes.map Json.stripPositions := by
  have hn := isNode_stripPositions v
  cases v with
  | arr items =>
    have hcomp : Json.isNode ∘ Json.stripPositions = Json.isNode := funext isNode_stripPositions
    rw [Json.stripPositions, stripItems_eq_map, Json.nodes, Json.nodes, List.filter_map, hcomp]
  | obj l =>
    rw [Json.stripPositions] at hn ⊢
    rw [Json.nodes, Json.nodes, hn]
    · split <;> rfl
    · rintro _ ⟨⟩
    · rintro _ ⟨⟩
  | _ => rfl

/-- A test holds everywhere without positions if it holds of each value without them. -/
theorem everywhere_stripPositions {p q : Json → Bool}
    (hq : ∀ w, p w = true → q w.stripPositions = true) {v : Json} (h : v.everywhere p = true) :
    v.stripPositions.everywhere q = true := by
  refine Json.everywhere_of_hereditary
    (P := fun v => ∃ w : Json, w.everywhere p = true ∧ v = w.stripPositions)
    ?_ ?_ ?_ v.stripPositions ⟨v, h, rfl⟩
  · rintro _ ⟨w, hw, rfl⟩
    exact hq w (Json.everywhere_self hw)
  · rintro items item ⟨w, hw, heq⟩ hitem
    cases w with
    | arr ws =>
      rw [Json.stripPositions, stripItems_eq_map] at heq
      obtain rfl := Json.arr.inj heq
      obtain ⟨w, hmem, rfl⟩ := List.mem_map.1 hitem
      exact ⟨w, Json.everywhere_of_mem hw hmem, rfl⟩
    | _ => cases heq
  · rintro entries entry ⟨w, hw, heq⟩ hentry
    cases w with
    | obj l =>
      obtain rfl := Json.obj.inj heq
      obtain ⟨w, hmem, heq⟩ := mem_stripEntries hentry
      exact ⟨w, Json.everywhere_of_entry hw hmem, heq⟩
    | _ => cases heq

end Retype.Migration
