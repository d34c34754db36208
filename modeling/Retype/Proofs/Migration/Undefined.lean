import Retype.Proofs.Flow.Order
import Retype.Proofs.Migration.Replaced
/-!
# Types that admit `undefined`

A caller may pass `undefined` for a parameter if its type admits it. A Flow
type that does becomes a TypeScript type that does (`encode_admits` after
`migrate_admits` after `decodeType_admits`).
-/

namespace Retype.Migration

/-- A Flow type admits `undefined`: it is `void`, `mixed`, `any` or nullable, or
a union with a member that does. -/
inductive FlowAdmits : Json → Prop
  | word {n : Json} (kind : n.kindIn ["VoidTypeAnnotation", "MixedTypeAnnotation",
      "AnyTypeAnnotation", "NullableTypeAnnotation"] = true) : FlowAdmits n
  | union {n t : Json} (kind : n.hasText "type" "UnionTypeAnnotation" = true)
      (member : t ∈ n.itemsAt "types") (admits : FlowAdmits t) : FlowAdmits n

/-- A TypeScript type admits `undefined`: it is `undefined`, `void`, `unknown`
or `any`, or a union with a member that does, or such a type in parentheses. -/
inductive TsAdmits : Json → Prop
  | word {n : Json} (kind : n.kindIn ["TSUndefinedKeyword", "TSVoidKeyword", "TSUnknownKeyword",
      "TSAnyKeyword"] = true) : TsAdmits n
  | union {n t : Json} (kind : n.hasText "type" "TSUnionType" = true)
      (member : t ∈ n.itemsAt "types") (admits : TsAdmits t) : TsAdmits n
  | parenthesized {n t : Json} (kind : n.hasText "type" "TSParenthesizedType" = true)
      (field : n.get? "typeAnnotation" = some t) (admits : TsAdmits t) : TsAdmits n

/-- Like `FlowAdmits`, of a type that was read. -/
inductive ReadAdmits : FlowType → Prop
  | word (node : Json) {word : FlowKeyword} (h : word ∈ [.void, .mixed, .any]) :
      ReadAdmits (.keyword node word)
  | nullable (node : Json) (inner : FlowType) : ReadAdmits (.nullable node inner)
  | union (node : Json) {types : List FlowType} {t : FlowType} (member : t ∈ types)
      (admits : ReadAdmits t) : ReadAdmits (.union node types)

/-- Like `TsAdmits`, of a type that is to be written. -/
inductive LaidAdmits : TsType → Prop
  | word (origin : Option Json) {word : TsKeyword}
    (h : word ∈ [.undefined, .void, .unknown, .any]) :
      LaidAdmits (.keyword origin word)
  | union (origin : Option Json) {types : List TsType} {t : TsType} (member : t ∈ types)
      (admits : LaidAdmits t) : LaidAdmits (.union origin types)

/-! ## Reading -/

theorem FlowAdmits.isObject {n : Json} (h : FlowAdmits n) : n.isObject = true := by
  cases h with
  | word kind =>
    obtain ⟨name, -, htext⟩ := List.any_eq_true.1 kind
    exact isObject_of_hasText htext
  | union kind => exact isObject_of_hasText kind

/-- An object in the list under a key is one of the children. -/
theorem children_mem (path : String) {n t : Json} {key : String} (h : t ∈ n.itemsAt key)
    (hobject : t.isObject = true) : Result.Yields (Flow.children path n key) fun parts =>
      ∃ part ∈ parts, part.1 = t := by
  refine (Flow.children_eq path n key).mono fun parts hparts => ?_
  exact List.mem_map.1 (hparts ▸ List.mem_filter.2 ⟨h, hobject⟩)

theorem decodeType_admits (path : String) {n : Json} (h : FlowAdmits n) :
    Result.Yields (Flow.decodeType path n) ReadAdmits := by
  induction h with
  | @word n kind =>
    obtain ⟨name, hname, htext⟩ := List.any_eq_true.1 kind
    have hkind := kind_of_kind (get?_of_hasText htext)
    rw [Flow.decodeType, hkind]
    simp only [List.mem_cons, List.not_mem_nil, or_false] at hname
    rcases hname with rfl | rfl | rfl | rfl
    · exact .ok (.word n (by decide))
    · exact .ok (.word n (by decide))
    · exact .ok (.word n (by decide))
    · exact .bind (.trivial _ fun _ => .bind (.trivial _ fun inner => .pure (.nullable n inner)))
  | @union n t kind member admits ih =>
    rw [Flow.decodeType, kind_of_kind (get?_of_hasText kind)]
    refine .bind ((children_mem path member admits.isObject).mono fun parts hparts => ?_)
    obtain ⟨part, hmem, rfl⟩ := hparts
    refine .bind ((Result.Yields.mapM_mem hmem ih).mono fun types htypes => .pure ?_)
    obtain ⟨t, ht, hadmits⟩ := htypes
    exact .union n ht hadmits

/-! ## Rewriting -/

variable (c : TypeContext)

theorem migrateAll_mem {Q : TsType → Prop} {ts : List FlowType} {t : FlowType} (ht : t ∈ ts)
    (h : (migrate c t).Yields Q) : (migrateAll c ts).Yields fun us => ∃ u ∈ us, Q u := by
  induction ts with
  | nil => cases ht
  | cons first rest ih =>
    rw [migrateAll]
    rcases List.mem_cons.1 ht with rfl | hrest
    · refine .bind (h.mono fun u hu => .bind (.trivial _ fun us => .pure ?_))
      exact ⟨u, List.mem_cons_self, hu⟩
    · refine .bind (.trivial _ fun _ => .bind ((ih hrest).mono fun us hus => .pure ?_))
      obtain ⟨u, hmem, hu⟩ := hus
      exact ⟨u, List.mem_cons_of_mem _ hmem, hu⟩

theorem LaidAdmits.withOrigin {u : TsType} (h : LaidAdmits u) (node : Json) :
    LaidAdmits (u.withOrigin node) := by
  cases h with
  | word _ h => exact .word _ h
  | union _ member admits => exact .union _ member admits

/-- A union with a member that admits `undefined`. -/
theorem LaidAdmits.unionOf {us : List TsType} {u : TsType} (hu : u ∈ us) (h : LaidAdmits u) :
    LaidAdmits (unionOf (us.map TsType.parenthesizeFunction)) := by
  have hsame : u.parenthesizeFunction = u := by cases h <;> rfl
  rw [Migration.unionOf]
  split
  next t ht =>
    have hany := List.find?_some ht
    cases t with
    | keyword origin word =>
      obtain rfl : word = .any := of_decide_eq_true hany
      exact .word origin (by decide)
    | _ => cases hany
  next => exact .union none (List.mem_map.2 ⟨u, hu, hsame⟩) h

theorem migrate_admits {t : FlowType} (h : ReadAdmits t) : (migrate c t).Yields LaidAdmits := by
  induction h with
  | word node h =>
    simp only [List.mem_cons, List.not_mem_nil, or_false] at h
    rcases h with rfl | rfl | rfl <;> exact .pure (.word _ (by decide))
  | nullable node inner =>
    rw [migrate]
    refine .bind (.trivial _ fun u => .pure (.union _ (t := TsType.word .undefined) ?_ ?_))
    · simp
    · exact .word none (by decide)
  | union node member _ ih =>
    rw [migrate]
    refine .bind ((migrateAll_mem c member ih).mono fun us hus => .pure ?_)
    obtain ⟨u, hu, hadmits⟩ := hus
    exact (hadmits.unionOf hu).withOrigin node

/-! ## Writing -/

theorem encode_mem {u : TsType} {us : List TsType} (h : u ∈ us) :
    TypeScript.encode u ∈ TypeScript.encodeAll us := by
  induction us with
  | nil => cases h
  | cons first rest ih =>
    rw [TypeScript.encodeAll]
    rcases List.mem_cons.1 h with rfl | hrest
    · exact List.mem_cons_self
    · exact List.mem_cons_of_mem _ (ih hrest)

theorem encode_admits {u : TsType} (h : LaidAdmits u) : TsAdmits (TypeScript.encode u) := by
  induction h with
  | @word origin word h =>
    have hall : ∀ word ∈ [TsKeyword.undefined, .void, .unknown, .any], word.kindName ∈
        ["TSUndefinedKeyword", "TSVoidKeyword", "TSUnknownKeyword", "TSAnyKeyword"] := by
      decide
    rw [TypeScript.encode]
    refine .word (List.any_eq_true.2 ⟨word.kindName, hall word h, ?_⟩)
    rw [hasText_of_kind (get?_type_inheritOption origin _ _)]
    exact beq_self_eq_true _
  | @union origin us u member _ ih =>
    rw [TypeScript.encode]
    refine .union ?_ ?_ ih
    · rw [hasText_of_kind (get?_type_inheritOption origin _ _)]
      rfl
    · rw [Json.itemsAt, get?_inheritOption_ne (by decide)]
      exact encode_mem member

end Retype.Migration
