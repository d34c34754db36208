import Retype.Proofs.Migration.Erasure
import Retype.Proofs.Migration.Reordering
/-!
# The parameter lists of a tree

The functions of a tree in the order in which they stand there, each with its
list of parameters (`signatures`). What stands in types, and the positions and
markers of a node, count for nothing; of a cast only the expression counts.
What relates the parameters of each function to those that they become relates
the lists (`ChildrenWalked.inner_rel`).
-/

namespace Retype.Migration

/-- The kinds of functions. -/
def functionKinds : List String :=
  ["FunctionDeclaration", "FunctionExpression", "ArrowFunctionExpression", "ClassMethod",
    "ClassPrivateMethod", "ObjectMethod"]

/-- The kinds of nodes that stand for types, in Flow and in TypeScript. -/
def typeLevelKinds : List String :=
  Erasure.typeNodeKinds ++ typeOnlyKinds ++ "TSTypeAnnotation" :: partKinds.map (·.2)

/-- The keys under which positions, types and markers stand. -/
def freeKeys : List String := "optional" :: (Json.metadataKeys ++ typeKeys)

/-- The parameters of a node, if it is a function. -/
def ownSignatures (n : Json) : List (List Json) :=
  if n.plainKind ∈ functionKinds then [n.itemsAt "params"] else []

/-- The parameter lists in a node, given those in its entries. -/
def signaturesOf (n : Json) (fields : List (String × List (List Json))) : List (List Json) :=
  if n.plainKind ∈ typeLevelKinds then []
  else if n.plainKind ∈ assertionKinds then (fields.lookup "expression").getD []
  else fields.flatMap fun field => if freeKeys.contains field.1 then [] else field.2

mutual

/-- The parameter lists of the functions in a value, in the order of the walk. -/
def signatures : Json → List (List Json)
  | .arr items => itemSignatures items
  | .obj l => ownSignatures (.obj l) ++ signaturesOf (.obj l) (entrySignatures l)
  | _ => []

def itemSignatures : List Json → List (List Json)
  | [] => []
  | item :: rest => signatures item ++ itemSignatures rest

def entrySignatures : List (String × Json) → List (String × List (List Json))
  | [] => []
  | (key, v) :: rest => (key, signatures v) :: entrySignatures rest

end

/-- The parameter lists in a node, apart from its own. -/
def inner (n : Json) : List (List Json) := signaturesOf n (entrySignatures (entriesOf n))

variable {n n' v w : Json} {l l' : Entries} {key : String}

/-- The signatures in a node are its own and those inside it. -/
theorem signatures_eq (hobject : n.isObject = true) :
    signatures n = ownSignatures n ++ inner n := by
  obtain ⟨l, rfl⟩ := exists_obj_of_isObject hobject
  rw [signatures]
  rfl

/-- Those in a list are those of its items. -/
theorem signatures_arr (items : List Json) :
    signatures (.arr items) = items.flatMap signatures := by
  rw [signatures]
  induction items with
  | nil => rfl
  | cons item rest ih => rw [itemSignatures, ih, List.flatMap_cons]

/-- Those of entries are kept key by key. -/
theorem entrySignatures_eq (l : Entries) :
    entrySignatures l = l.map fun entry => (entry.1, signatures entry.2) := by
  induction l with
  | nil => rfl
  | cons entry rest ih => rw [entrySignatures, ih, List.map_cons]

/-- Those of one key are those of its value. -/
theorem lookup_entrySignatures (l : Entries) (key : String) :
    (entrySignatures l).lookup key = (l.get? key).map signatures := by
  induction l with
  | nil => rfl
  | cons entry rest ih =>
    obtain ⟨k, v⟩ := entry
    rw [entrySignatures, List.lookup_cons, Entries.get?, ih]
    by_cases hk : k = key
    · simp [hk]
    · rw [if_neg hk, beq_eq_false_iff_ne.2 (Ne.symm hk)]

/-! ## Changes that do not count -/

/-- The parameter lists in an entry that count. -/
def counted (entry : String × Json) : List (List Json) :=
  if freeKeys.contains entry.1 then [] else signatures entry.2

/-- An entry under a free key does not count. -/
theorem counted_free (hkey : key ∈ freeKeys) (v : Json) : counted (key, v) = [] :=
  if_pos (List.contains_iff_mem.2 hkey)

/-- A field is read from the entries. -/
theorem get?_entriesOf (n : Json) (key : String) : Entries.get? (entriesOf n) key = n.get? key := by
  cases n <;> rfl

/-- What counts inside a node depends on its kind: nothing in a type, the expression of an
assertion, else every entry that counts. -/
theorem inner_eq (n : Json) : inner n =
    if n.plainKind ∈ typeLevelKinds then []
    else if n.plainKind ∈ assertionKinds then ((n.get? "expression").map signatures).getD []
    else (entriesOf n).flatMap counted := by
  rw [inner, signaturesOf, lookup_entrySignatures, get?_entriesOf, entrySignatures_eq,
    List.flatMap_map]
  rfl

/-- Nodes of one kind with the same entries that count have the same signatures inside. -/
theorem inner_congr (htype : n'.get? "type" = n.get? "type")
    (hexpression : (n'.get? "expression").map signatures = (n.get? "expression").map signatures)
    (hentries : (entriesOf n').flatMap counted = (entriesOf n).flatMap counted) :
    inner n' = inner n := by
  rw [inner_eq, inner_eq, plainKind_congr htype, hexpression, hentries]

/-- An entry that counts as much as the one before, if there was one. -/
theorem flatMap_counted_set (h : ∀ w, l.get? key = some w → counted (key, v) = counted (key, w))
    (hnone : l.get? key = none → counted (key, v) = []) :
    (l.set key v).flatMap counted = l.flatMap counted := by
  induction l with
  | nil => simpa [Entries.set] using hnone rfl
  | cons entry rest ih =>
    obtain ⟨k, w⟩ := entry
    by_cases hk : k = key
    · subst hk
      rw [Entries.set, if_pos rfl, List.flatMap_cons, List.flatMap_cons,
        h w (by simp [Entries.get?])]
    · have hget : Entries.get? ((k, w) :: rest) key = Entries.get? rest key := by
        simp [Entries.get?, hk]
      rw [hget] at h hnone
      rw [Entries.set, if_neg hk, List.flatMap_cons, List.flatMap_cons, ih h hnone]

/-- An entry that does not count may be erased. -/
theorem flatMap_counted_erase (hkey : key ∈ freeKeys) (l : Entries) :
    (l.erase key).flatMap counted = l.flatMap counted := by
  induction l with
  | nil => rfl
  | cons entry rest ih =>
    obtain ⟨k, w⟩ := entry
    rw [Entries.erase_cons]
    split
    next hk => rw [List.flatMap_cons, ih, hk, counted_free hkey, List.nil_append]
    next => rw [List.flatMap_cons, List.flatMap_cons, ih]

/-- A free key may be set. -/
theorem inner_set_free (hkey : key ∈ freeKeys) (v : Json) : inner (n.set key v) = inner n := by
  have hne {key' : String} (hkey' : key' ∉ freeKeys) : (n.set key v).get? key' = n.get? key' :=
    Json.get?_set_ne (by rintro rfl; exact hkey' hkey) v
  refine inner_congr (hne (by decide)) (congrArg _ (hne (by decide))) ?_
  cases n with
  | obj l =>
    refine flatMap_counted_set (fun w _ => ?_) fun _ => counted_free hkey v
    rw [counted_free hkey, counted_free hkey]
  | _ => rfl

/-- A free key may be erased. -/
theorem inner_erase_free (hkey : key ∈ freeKeys) : inner (n.erase key) = inner n := by
  have hne {key' : String} (hkey' : key' ∉ freeKeys) : (n.erase key).get? key' = n.get? key' :=
    Json.get?_erase_ne (by rintro rfl; exact hkey' hkey)
  refine inner_congr (hne (by decide)) (congrArg _ (hne (by decide))) ?_
  cases n with
  | obj l =>
    exact flatMap_counted_erase hkey l
  | _ => rfl

/-- A part that holds the same lists as the one before. -/
theorem inner_set (hget : n.get? key = some w) (hkey : key ≠ "type")
    (h : signatures v = signatures w) : inner (n.set key v) = inner n := by
  refine inner_congr (Json.get?_set_ne hkey.symm v) ?_ ?_
  · by_cases hexpression : "expression" = key
    · subst hexpression
      rw [Json.get?_set_self hget, hget, Option.map_some, Option.map_some, h]
    · rw [Json.get?_set_ne hexpression v]
  · cases n with
    | obj l =>
      refine flatMap_counted_set (fun w' hw' => ?_) fun hnone => ?_
      · obtain rfl := Option.some.inj (hget.symm.trans hw')
        rw [counted, counted, h]
      · cases hget.symm.trans hnone
    | _ => rfl

/-- A node's own signature is read from its kind and its parameters. -/
theorem own_congr (htype : n'.get? "type" = n.get? "type")
    (hparams : n'.get? "params" = n.get? "params") : ownSignatures n' = ownSignatures n := by
  rw [ownSignatures, ownSignatures, plainKind_congr htype, Json.itemsAt, Json.itemsAt, hparams]

/-- The same own signature and the same ones inside make the same signatures. -/
theorem signatures_congr (hobject : n'.isObject = n.isObject)
    (hown : ownSignatures n' = ownSignatures n) (hinner : inner n' = inner n)
    (hn : n.isObject = true) : signatures n' = signatures n := by
  rw [signatures_eq (hobject.trans hn), signatures_eq hn, hown, hinner]

/-- Setting a free key changes no signature. -/
theorem signatures_set_free (hkey : key ∈ freeKeys) (v : Json) :
    signatures (n.set key v) = signatures n := by
  have hne {key' : String} (hkey' : key' ∉ freeKeys) : (n.set key v).get? key' = n.get? key' :=
    Json.get?_set_ne (by rintro rfl; exact hkey' hkey) v
  cases n with
  | obj l =>
    exact signatures_congr rfl (own_congr (hne (by decide)) (hne (by decide)))
      (inner_set_free hkey v) rfl
  | _ => rfl

/-- Nor does erasing one. -/
theorem signatures_erase_free (hkey : key ∈ freeKeys) :
    signatures (n.erase key) = signatures n := by
  have hne {key' : String} (hkey' : key' ∉ freeKeys) : (n.erase key).get? key' = n.get? key' :=
    Json.get?_erase_ne (by rintro rfl; exact hkey' hkey)
  cases n with
  | obj l =>
    exact signatures_congr rfl (own_congr (hne (by decide)) (hne (by decide)))
      (inner_erase_free hkey) rfl
  | _ => rfl

/-- Nor does replacing a value by one with the same signatures. -/
theorem signatures_set (hget : n.get? key = some w) (hkey : key ∉ ["type", "params"])
    (h : signatures v = signatures w) : signatures (n.set key v) = signatures n := by
  simp only [List.mem_cons, List.not_mem_nil, or_false, not_or] at hkey
  obtain ⟨l, rfl⟩ := Json.exists_obj_of_get? hget
  exact signatures_congr rfl (own_congr (Json.get?_set_ne (Ne.symm hkey.1) v)
    (Json.get?_set_ne (Ne.symm hkey.2) v)) (inner_set hget hkey.1 h) rfl

/-! ## Reordering -/

/-- Widening a parameter's type changes no signature inside it. -/
theorem widenWithUndefined_signatures (param : Json) : Result.Yields (widenWithUndefined param)
    fun param' => signatures param' = signatures param := by
  rw [widenWithUndefined]
  split
  · refine .ite (fun _ => .bind (.trivial _ fun _ => .bind (.trivial _ fun _ => .pure ?_)))
      fun _ => .pure rfl
    exact signatures_set_free (by decide) _
  · exact .pure rfl

/-- Nor does taking its marker away. -/
theorem requireParam_signatures (param : Json) : Result.Yields (requireParam param)
    fun param' => signatures param' = signatures param := by
  rw [requireParam]
  exact .ite (fun _ => (widenWithUndefined_signatures _).mono fun _ h =>
    h.trans (signatures_erase_free (by decide))) fun _ => .pure rfl

/-- Nor does what happens to one parameter of a list. -/
theorem reorderParam_signatures (param : Json) (trailing : Bool) :
    Result.Yields (reorderParam param trailing) fun r => signatures r.1 = signatures param := by
  rw [reorderParam]
  refine .ite (fun _ => .pure rfl) fun _ => .ite (fun _ => ?_) fun _ => .ite (fun _ => ?_)
    fun _ => .pure rfl
  · split
    next l hleft =>
      have hunmarked : signatures ((Json.obj l).erase "optional") = signatures (.obj l) :=
        signatures_erase_free (by decide)
      cases trailing with
      | true => exact .pure (signatures_set hleft (by decide) hunmarked)
      | false =>
        refine .bind ((requireParam_signatures _).mono fun left h => .pure ?_)
        exact signatures_set hleft (by decide) (h.trans hunmarked)
    next => exact .error _
  · exact .ite (fun _ => .pure rfl) fun _ =>
      .bind ((requireParam_signatures param).mono fun _ h => .pure h)

/-- Nor does what happens to the whole list. -/
theorem reorderParams_signatures (params : List Json) : Result.Yields (reorderParams params)
    fun params' => signatures (.arr params') = signatures (.arr params) := by
  refine (reorderParams_related (A := fun param param' => signatures param' = signatures param)
    fun param _ trailing => reorderParam_signatures param trailing).mono fun params' h => ?_
  rw [signatures_arr, signatures_arr]
  induction h with
  | nil => rfl
  | cons hparam _ ih => rw [List.flatMap_cons, List.flatMap_cons, hparam, ih]

/-! ## The walk -/

/-- Parameter lists that are related function by function. -/
def Signed (P : Json → Json → Prop) : List (List Json) → List (List Json) → Prop :=
  List.Forall₂ (List.Forall₂ P)

section
variable {P : Json → Json → Prop} {R : Site → Json → Json → Bool → Prop} {o : FileOptions}
  {site : Site} {marked : Prop} {m c : Json} (hP : ∀ v, P v v)
  (hR : ∀ site v v' mark, R site v v' mark → Signed P (signatures v) (signatures v'))

include hP in
/-- Signatures are related to themselves. -/
theorem Signed.refl (lists : List (List Json)) : Signed P lists lists :=
  List.forall₂_same.2 fun _ _ => List.forall₂_same.2 fun v _ => hP v

include hP hR

/-- The walk of an item relates its signatures before and after. -/
theorem ItemWalked.signed {v v' : Json} (h : ItemWalked R site marked v v') :
    Signed P (signatures v) (signatures v') := by
  cases h with
  | leaf => exact .refl hP _
  | node _ walked _ _ => exact hR _ _ _ _ walked

/-- So does the walk of a value. -/
theorem ValueWalked.signed {v v' : Json} (h : ValueWalked R site marked v v') :
    Signed P (signatures v) (signatures v') := by
  cases h with
  | single _ item => exact item.signed hP hR
  | arr items =>
    rw [signatures_arr, signatures_arr]
    exact List.rel_flatMap items fun _ _ item => item.signed hP hR

/-- What relates the parameters of the children relates those inside a node. -/
theorem ChildrenWalked.inner_signed (h : ChildrenWalked R site m c) :
    Signed P (inner m) (inner c) := by
  have hexpression := h.get?_rel (show "expression" ≠ "optional" by decide)
  rw [inner_eq, inner_eq, h.plainKind_eq]
  split
  · exact .nil
  split
  · generalize m.get? "expression" = a, c.get? "expression" = b at hexpression
    cases hexpression with
    | none => exact .nil
    | some hentry =>
      cases hentry with
      | skipped hskip => exact absurd hskip (by decide)
      | walked _ value => exact value.signed hP hR
  · cases h with
    | @intro l l' marked entries name =>
      have hmarkers : (entriesOf (.obj (Entries.setAll l' (markers marked)))).flatMap counted =
          l'.flatMap counted := by
        cases marked with
        | true =>
          have hfree : "optional" ∈ freeKeys := by decide
          refine flatMap_counted_set (fun w _ => ?_) fun _ => counted_free hfree _
          rw [counted_free hfree, counted_free hfree]
        | false => rfl
      rw [hmarkers]
      refine List.rel_flatMap entries fun entry entry' hentry => ?_
      obtain ⟨key, v⟩ := entry
      obtain ⟨_, v'⟩ := entry'
      obtain ⟨rfl, hentry⟩ := hentry
      cases hentry with
      | skipped hskip =>
        have hfree : key ∈ freeKeys := by
          rcases hskip with hmeta | ⟨rfl, -⟩
          · exact List.mem_cons_of_mem _ (List.mem_append_left _ hmeta)
          · exact List.mem_cons_self
        rw [counted_free hfree]
        exact .nil
      | walked _ value =>
        rw [counted, counted]
        split
        · exact .nil
        · exact value.signed hP hR

end

/-- The import that the rewrite adds has no signature. -/
theorem helperImport_signatures (o : FileOptions) : signatures (helperImport o) = [] := rfl

/-- What is inside a node stays on the way up. -/
theorem Leaves.inner_eq {o : FileOptions} {c : Json} (h : Leaves o c n') : inner n' = inner c := by
  cases h with
  | free => rfl
  | ruled _ left =>
    cases left with
    | program => rfl
    | importing field =>
      refine inner_set field (by decide) ?_
      rw [signatures_arr, signatures_arr, List.flatMap_cons,
        helperImport_signatures, List.nil_append]
    | function field reordered =>
      exact inner_set field (by decide) (reorderParams_signatures _ _ reordered)
    | withoutParams => rfl
    | pattern =>
      rw [leaveAssignmentPattern]
      split
      next left field =>
        split
        · exact inner_set field (by decide) (signatures_erase_free (by decide))
        · rfl
      next => rfl

/-! ## Down -/

variable {o : FileOptions} {site : Site} {rule : EnterRule} {m : Json}

/-- A specifier made plain keeps its signatures. -/
theorem plainSpecifier_signatures (s : Json) : signatures (plainSpecifier s) = signatures s := by
  rw [plainSpecifier]
  split
  · exact signatures_set_free (by decide) _
  · rfl

/-- What is inside a node that keeps its place stays. -/
theorem inner_keptAs : inner (keptAs o site n rule) = inner n := by
  have hmap {key : String} {items : List Json} {f : Json → Json}
      (hget : n.get? key = some (.arr items)) (hkey : key ≠ "type")
      (hf : ∀ item, signatures (f item) = signatures item) :
      inner (n.set key (.arr (items.map f))) = inner n := by
    refine inner_set hget hkey ?_
    rw [signatures_arr, signatures_arr, List.flatMap_map]
    exact congrArg (List.flatMap · items) (funext hf)
  cases rule with
  | importDeclaration =>
    rw [keptAs, importedAs]
    split
    · exact inner_set_free (by decide) _
    split
    · rfl
    split
    next hget => exact hmap hget (by decide) plainSpecifier_signatures
    next => rfl
  | exportNamed => exact inner_erase_free (by decide)
  | declarator =>
    rw [keptAs, declaredAs]
    split
    · split
      next id hget =>
        split
        · split
          · exact inner_set hget (by decide) (signatures_set_free (by decide) _)
          · rfl
        · rfl
      next => rfl
    · rfl
  | functionDeclaration =>
    rw [keptAs, annotateWithAny]
    split
    · split
      next hget =>
        refine hmap hget (by decide) fun param => ?_
        split
        · exact signatures_set_free (by decide) _
        · rfl
      next => rfl
    · rfl
  | classProperty =>
    rw [keptAs, propertyAs]
    split
    · rfl
    split
    · exact (inner_set_free (by decide) _).trans (inner_set_free (by decide) _)
    · exact inner_set_free (by decide) _
  | _ => rfl

/-- What a node inherits counts for nothing. -/
theorem inner_inherit (origin n : Json) : inner (Json.inherit origin n) = inner n := by
  refine Json.inherit_induction (P := fun m => inner m = inner n) rfl ?_
  intro m key v hkey _ hm
  have hall : ∀ key ∈ Json.inheritedKeys, key ∈ freeKeys := by decide
  exact (inner_set_free (hall key hkey) _).trans hm

/-- An assertion has the signatures of its expression. -/
theorem signatures_expression {n expression : Json} (h : n.plainKind ∈ assertionKinds)
    (field : n.get? "expression" = some expression) : signatures n = signatures expression := by
  have hall : ∀ kind ∈ assertionKinds, kind ∉ functionKinds ∧ kind ∉ typeLevelKinds := by decide
  obtain ⟨hfunction, htype⟩ := hall _ h
  rw [signatures_eq (by obtain ⟨l, rfl⟩ := Json.exists_obj_of_get? field; rfl), ownSignatures,
    if_neg hfunction, inner_eq, if_neg htype, if_pos h, field]
  rfl

/-- Of a cast the expression counts, and of what it becomes. -/
theorem CastOf.signatures_eq {expression : Json} (h : CastOf n expression)
    (hn : n.plainKind = "TypeCastExpression") : signatures n = signatures expression := by
  have hcast : n.plainKind ∈ assertionKinds := hn ▸ by decide
  cases h with
  | once field => exact signatures_expression hcast field
  | twice field cast inside =>
    rw [signatures_expression hcast field]
    refine signatures_expression ?_ inside
    rw [plainKind_of_type (get?_of_hasText cast)]
    decide

/-- What a cast becomes has the signatures of the cast's expression. -/
theorem CastAs.signatures_eq {expression new : Json} (h : CastAs o expression new) :
    signatures new = signatures expression := by
  have hasserted (expression type : Json) :
      signatures (asExpression expression type) = signatures expression := by
    have hkind : (asExpression expression type).plainKind = "TSAsExpression" := rfl
    exact signatures_expression (hkind ▸ by decide) rfl
  cases h with
  | asserted type => exact hasserted expression type
  | twice inner type => exact (hasserted _ type).trans (hasserted expression inner)
  | called type =>
    -- the callee has no function, and the type argument does not count
    have hparts : signatures (safeCastCall o.utilsBinding expression type) =
        [] ++ ([] ++ ([] ++ ((signatures expression ++ []) ++ ([] ++ [])))) := rfl
    simpa using hparts

end Retype.Migration
