import Retype.Proofs.Migration.Annotating
import Retype.Proofs.Migration.Passage
/-!
# What a tree binds at its top level

Names are bound by imports, variables, functions and classes that stand alone
or under an export. The table `forms` tells under which key the parts of a node
stand that may bind names, and what of a tree is found by following it is its
skeleton. Neither the walk (`Passed.binds`) nor the second stage
(`skeletons_annotateWaiting`) changes the skeleton of a declaration.
-/

namespace Retype.Migration

open Syntax (Place)

/-! ## Skeletons -/

/-- Where the parts of the nodes of a kind stand that may bind names, whether
they stand in a list, and of which kinds they are. -/
structure Form where
  kind : String
  key : String
  isList : Bool
  parts : List String
  deriving DecidableEq

/-- What may stand in the place of a name that is bound. -/
def patternKinds : List String :=
  ["Identifier", "ObjectPattern", "ArrayPattern", "AssignmentPattern"]

def specifierKinds : List String :=
  ["ImportSpecifier", "ImportDefaultSpecifier", "ImportNamespaceSpecifier"]

/-- The declarations that may be exported. -/
def declarationKinds : List String :=
  ["VariableDeclaration", "FunctionDeclaration", "ClassDeclaration"]

def fileForm : Form := ⟨"File", "program", false, ["Program"]⟩

def programForm : Form :=
  ⟨"Program", "body", true,
    ["ImportDeclaration", "ExportNamedDeclaration", "ExportDefaultDeclaration"] ++ declarationKinds⟩

def importForm : Form := ⟨"ImportDeclaration", "specifiers", true, specifierKinds⟩

def variableForm : Form := ⟨"VariableDeclaration", "declarations", true, ["VariableDeclarator"]⟩

def functionForm : Form := ⟨"FunctionDeclaration", "id", false, ["Identifier"]⟩

def classForm : Form := ⟨"ClassDeclaration", "id", false, ["Identifier"]⟩

/-- The forms in which names are bound at the top level. -/
def forms : List Form :=
  [fileForm, programForm, importForm, variableForm, functionForm, classForm,
    ⟨"ImportSpecifier", "local", false, ["Identifier"]⟩,
    ⟨"ImportDefaultSpecifier", "local", false, ["Identifier"]⟩,
    ⟨"ImportNamespaceSpecifier", "local", false, ["Identifier"]⟩,
    ⟨"ExportNamedDeclaration", "declaration", false, declarationKinds⟩,
    ⟨"ExportDefaultDeclaration", "declaration", false, declarationKinds⟩,
    ⟨"VariableDeclarator", "id", false, patternKinds⟩,
    ⟨"ObjectPattern", "properties", true, ["ObjectProperty", "RestElement"]⟩,
    ⟨"ObjectProperty", "value", false, patternKinds⟩,
    ⟨"RestElement", "argument", false, patternKinds⟩,
    ⟨"ArrayPattern", "elements", true, "RestElement" :: patternKinds⟩,
    ⟨"AssignmentPattern", "left", false, patternKinds⟩]

/-- What is found in a tree by following the forms: names, nodes with their
parts, and others that may not bind where they stand. -/
inductive Skeleton where
  | other
  | name (text : String)
  | node (kind : String) (parts : List Skeleton)

/-- The form of a node, if it is of a kind that has one. -/
def form? (n : Json) : Option Form := forms.find? (n.hasText "type" ·.kind)

/-- The name of a pattern. The grammar gives one to identifiers only. -/
def patternName? (n : Json) : Option String :=
  if n.kindIn patternKinds then
    match n.get? "name" with
    | some (.str name) => some name
    | _ => none
  else none

/-- What is found in a part of a node, unless it may not bind there. -/
def Form.accept (form : Form) (part : Json) (found : List Skeleton) : List Skeleton :=
  if part.kindIn form.parts then found else if part.isObject then [.other] else []

mutual

/-- The skeleton of a node; other values have none. -/
def skeletons : Json → List Skeleton
  | .obj entries =>
    match patternName? (.obj entries), form? (.obj entries) with
    | some name, _ => [.name name]
    | none, some form => [.node form.kind (partsAmong form entries)]
    | none, none => [.other]
  | _ => []

def partsAmong (form : Form) : List (String × Json) → List Skeleton
  | [] => []
  | (key, .arr items) :: rest =>
    if key = form.key then if form.isList then partsIn form items else []
    else partsAmong form rest
  | (key, v) :: rest =>
    if key = form.key then if form.isList then [] else form.accept v (skeletons v)
    else partsAmong form rest

def partsIn (form : Form) : List Json → List Skeleton
  | [] => []
  | item :: rest => form.accept item (skeletons item) ++ partsIn form rest

end

/-- The parts that a node has where its form says. -/
def Form.partsAt (form : Form) : Option Json → List Skeleton
  | some (.arr items) => if form.isList then partsIn form items else []
  | some v => if form.isList then [] else form.accept v (skeletons v)
  | none => []

theorem partsAmong_eq (form : Form) (l : Entries) :
    partsAmong form l = form.partsAt (Entries.get? l form.key) := by
  induction l with
  | nil => rw [partsAmong, Entries.get?, Form.partsAt]
  | cons entry rest ih =>
    obtain ⟨key, v⟩ := entry
    by_cases hkey : key = form.key <;> cases v <;>
      simp [partsAmong, Entries.get?, Form.partsAt, hkey, ih]

theorem partsIn_eq (form : Form) (items : List Json) :
    partsIn form items = items.flatMap fun item => form.accept item (skeletons item) := by
  induction items with
  | nil => rw [partsIn, List.flatMap_nil]
  | cons item rest ih => rw [partsIn, ih, List.flatMap_cons]

variable {n n' v v' w : Json} {form : Form} {key : String}

/-- A pattern has a name if it is of a kind that has one and its name is a text. -/
theorem patternName?_eq_some {name : String} : patternName? n = some name ↔
    n.kindIn patternKinds = true ∧ n.hasText "name" name = true := by
  rw [patternName?, Json.hasText]
  cases n.kindIn patternKinds with
  | false => simp
  | true =>
    cases n.get? "name" with
    | none => simp
    | some v => cases v <;> simp

/-- The form of a node is one of the forms, and that of its kind. -/
theorem mem_of_form? (h : form? n = some form) :
    form ∈ forms ∧ n.hasText "type" form.kind = true :=
  ⟨List.mem_of_find?_eq_some h,
    List.find?_some (p := fun form : Form => n.hasText "type" form.kind) h⟩

/-- A pattern with a name binds the name. -/
theorem skeletons_of_name {name : String} (h : patternName? n = some name) :
    skeletons n = [.name name] := by
  obtain ⟨l, rfl⟩ := Json.exists_obj_of_get? (get?_of_hasText (patternName?_eq_some.1 h).2)
  rw [skeletons, h]

/-- A node with a form binds what its parts bind. -/
theorem skeletons_of_form (hname : patternName? n = none) (h : form? n = some form) :
    skeletons n = [.node form.kind (form.partsAt (n.get? form.key))] := by
  obtain ⟨l, rfl⟩ := Json.exists_obj_of_get? (get?_of_hasText (mem_of_form? h).2)
  rw [skeletons, hname, h]
  dsimp only
  rw [partsAmong_eq]
  rfl

/-- Any other node binds nothing that the scan sees. -/
theorem skeletons_of_other (hn : n.isObject = true) (hname : patternName? n = none)
    (h : form? n = none) : skeletons n = [.other] := by
  obtain ⟨l, rfl⟩ := exists_obj_of_isObject hn
  rw [skeletons, hname, h]

/-- What is no object binds nothing. -/
theorem skeletons_of_not_isObject (hn : n.isObject = false) : skeletons n = [] := by
  cases n with
  | obj l => cases hn
  | _ => rw [skeletons]; simp

/-- What is found in a node of a kind that has a form. -/
theorem skeletons_of_kind (hform : form ∈ forms) (hpattern : form.kind ∉ patternKinds)
    (h : n.hasText "type" form.kind = true) :
    skeletons n = [.node form.kind (form.partsAt (n.get? form.key))] := by
  have htype := get?_of_hasText h
  refine skeletons_of_form ?_ ?_
  · rw [patternName?, kindIn_of_kind htype, if_neg]
    simpa using hpattern
  · have hown : ∀ form ∈ forms, forms.find? (form.kind == ·.kind) = some form := by decide
    simp only [form?, hasText_of_kind htype]
    exact hown form hform

/-- A name is found in a pattern alone. -/
theorem name_mem_skeletons {name : String} :
    .name name ∈ skeletons n ↔ patternName? n = some name := by
  cases hname : patternName? n with
  | some text =>
    rw [skeletons_of_name hname, List.mem_singleton, Skeleton.name.injEq, Option.some.injEq,
      eq_comm]
  | none =>
    refine iff_of_false ?_ (Option.some_ne_none name ∘ Eq.symm)
    cases hform : form? n with
    | some form => simp [skeletons_of_form hname hform]
    | none =>
      cases hobject : n.isObject with
      | true => simp [skeletons_of_other hobject hname hform]
      | false => simp [skeletons_of_not_isObject hobject]

/-- A node that is found is of the kind that it has. -/
theorem hasText_of_mem_skeletons {kind : String} {parts : List Skeleton}
    (h : .node kind parts ∈ skeletons n) : n.hasText "type" kind = true := by
  cases hname : patternName? n with
  | some text => simp [skeletons_of_name hname] at h
  | none =>
    cases hform : form? n with
    | some form =>
      rw [skeletons_of_form hname hform, List.mem_singleton, Skeleton.node.injEq] at h
      rw [h.1]
      exact (mem_of_form? hform).2
    | none =>
      cases hobject : n.isObject with
      | true => simp [skeletons_of_other hobject hname hform] at h
      | false => simp [skeletons_of_not_isObject hobject] at h

theorem hasText_of_not_isObject (h : v.isObject = false) (text : String) :
    v.hasText key text = false := by
  rw [Bool.eq_false_iff]
  intro htext
  rw [isObject_of_hasText htext] at h
  cases h

/-- No form accepts what is no object. -/
theorem Form.accept_of_not_isObject (h : v.isObject = false) (found : List Skeleton) :
    form.accept v found = [] := by
  have hkind : v.kindIn form.parts = false :=
    List.any_eq_false.2 fun kind _ => by rw [hasText_of_not_isObject h]; exact Bool.false_ne_true
  rw [Form.accept, hkind, h]
  rfl

/-- The part of a node that has one where its form says. -/
theorem Form.partsAt_of_single (hlist : form.isList = false) (v : Json) :
    form.partsAt (some v) = form.accept v (skeletons v) := by
  cases v with
  | arr items =>
    rw [Form.partsAt, hlist, Form.accept_of_not_isObject rfl]
    rfl
  | _ =>
    rw [Form.partsAt, hlist]
    · rfl
    · rintro _ ⟨⟩

/-- The parts of a node that has a list of them where its form says. -/
theorem Form.partsAt_of_list (hlist : form.isList = true) (n : Json) :
    form.partsAt (n.get? form.key) =
      (n.itemsAt form.key).flatMap fun item => form.accept item (skeletons item) := by
  rw [Json.itemsAt]
  cases n.get? form.key with
  | none => rfl
  | some v =>
    cases v with
    | arr items =>
      rw [Form.partsAt, if_pos hlist, partsIn_eq]
      rfl
    | _ =>
      rw [Form.partsAt, if_pos hlist]
      · rfl
      · rintro _ ⟨⟩

/-! ## Nodes that bind the same -/

/-- The kinds of nodes that may be found. -/
def knownKinds : List String := "Identifier" :: forms.map (·.kind)

/-- A value is an object of one of the known kinds if another one is. -/
structure Kindred (v v' : Json) : Prop where
  isObject : v'.isObject = v.isObject
  hasText (kind : String) (h : kind ∈ knownKinds) : v'.hasText "type" kind = v.hasText "type" kind

/-- A value binds what another one does. -/
structure BindsAs (v v' : Json) : Prop extends Kindred v v' where
  skeletons : skeletons v' = skeletons v

/-- Nodes of one type are kindred. -/
theorem Kindred.of_type (hobject : v'.isObject = v.isObject)
    (htype : v'.get? "type" = v.get? "type") : Kindred v v' :=
  ⟨hobject, fun kind _ => Json.hasText_congr htype kind⟩

namespace Kindred

/-- What is kindred twice is kindred. -/
theorem trans (h : Kindred v v') (h' : Kindred v' w) : Kindred v w :=
  ⟨h'.isObject.trans h.isObject, fun kind hkind =>
    (h'.hasText kind hkind).trans (h.hasText kind hkind)⟩

/-- Kindred nodes are of the same kinds, of those that matter. -/
theorem kindIn (h : Kindred v v') {kinds : List String} (hkinds : kinds ⊆ knownKinds) :
    v'.kindIn kinds = v.kindIn kinds := by
  rw [Bool.eq_iff_iff, Json.kindIn, Json.kindIn, List.any_eq_true, List.any_eq_true]
  exact exists_congr fun kind => and_congr_right fun hkind => by
    rw [h.hasText kind (hkinds hkind)]

/-- Kindred nodes have the same form. -/
theorem form? (h : Kindred v v') : Migration.form? v' = Migration.form? v := by
  have hall : ∀ l ⊆ forms, l.find? (v'.hasText "type" ·.kind) =
      l.find? (v.hasText "type" ·.kind) := by
    intro l hl
    induction l with
    | nil => rfl
    | cons form rest ih =>
      obtain ⟨hform, hrest⟩ := List.cons_subset.1 hl
      rw [List.find?_cons, List.find?_cons, ih hrest,
        h.hasText _ (List.mem_cons_of_mem _ (List.mem_map_of_mem hform))]
  exact hall forms fun _ hform => hform

/-- Kindred nodes with the same name are patterns of the same name. -/
theorem patternName? (h : Kindred v v')
    (hname : ∀ text, v'.hasText "name" text = v.hasText "name" text) :
    Migration.patternName? v' = Migration.patternName? v := by
  refine Option.ext fun name => ?_
  rw [patternName?_eq_some, patternName?_eq_some, hname, h.kindIn (by decide)]

/-- Two nodes have the same skeleton if they have the same name, and their
parts have the same. -/
theorem skeletons_eq (h : Kindred v v')
    (hname : ∀ text, v'.hasText "name" text = v.hasText "name" text)
    (hparts : ∀ form ∈ forms, v.hasText "type" form.kind = true →
      form.partsAt (v'.get? form.key) = form.partsAt (v.get? form.key)) :
    skeletons v' = skeletons v := by
  have hsame := h.patternName? hname
  cases hobject : v.isObject with
  | false =>
    rw [skeletons_of_not_isObject hobject, skeletons_of_not_isObject (h.isObject.trans hobject)]
  | true =>
    cases hpattern : Migration.patternName? v with
    | some name => rw [skeletons_of_name hpattern, skeletons_of_name (hsame.trans hpattern)]
    | none =>
      cases hform : Migration.form? v with
      | some form =>
        obtain ⟨hmem, hkind⟩ := mem_of_form? hform
        rw [skeletons_of_form hpattern hform,
          skeletons_of_form (hsame.trans hpattern) (h.form?.trans hform), hparts form hmem hkind]
      | none =>
        rw [skeletons_of_other hobject hpattern hform, skeletons_of_other
          (h.isObject.trans hobject) (hsame.trans hpattern) (h.form?.trans hform)]

end Kindred

/-- A node of no known kind binds nothing. -/
theorem skeletons_of_unknown (hn : n.isObject = true)
    (h : ∀ kind ∈ knownKinds, n.hasText "type" kind = false) : skeletons n = [.other] := by
  refine skeletons_of_other hn (Option.eq_none_iff_forall_not_mem.2 fun name hname => ?_)
    (Option.eq_none_iff_forall_not_mem.2 fun form hform => ?_)
  · obtain ⟨hkind, -⟩ := patternName?_eq_some.1 hname
    obtain ⟨kind, hmem, hkind⟩ := List.any_eq_true.1 hkind
    have hpatterns : patternKinds ⊆ knownKinds := by decide
    rw [h kind (hpatterns hmem)] at hkind
    cases hkind
  · obtain ⟨hmem, hkind⟩ := mem_of_form? hform
    rw [h _ (List.mem_cons_of_mem _ (List.mem_map_of_mem hmem))] at hkind
    cases hkind

namespace BindsAs

/-- A value binds as itself. -/
theorem refl (v : Json) : BindsAs v v := ⟨⟨rfl, fun _ _ => rfl⟩, rfl⟩

/-- What binds alike twice binds alike. -/
theorem trans (h : BindsAs v v') (h' : BindsAs v' w) : BindsAs v w :=
  ⟨h.toKindred.trans h'.toKindred, h'.skeletons.trans h.skeletons⟩

end BindsAs

/-- The keys that say what a node binds. -/
def bindingKeys : List String := "type" :: "name" :: forms.map (·.key)

/-- What agrees under the keys of bindings binds alike. -/
theorem BindsAs.of_get? (hobject : v'.isObject = v.isObject)
    (h : ∀ key ∈ bindingKeys, v'.get? key = v.get? key) : BindsAs v v' := by
  have hkind : Kindred v v' := .of_type hobject (h "type" (by decide))
  refine ⟨hkind, hkind.skeletons_eq (Json.hasText_congr (h "name" (by decide))) ?_⟩
  intro form hform _
  rw [h form.key (List.mem_cons_of_mem _ (List.mem_cons_of_mem _ (List.mem_map_of_mem hform)))]

/-- Other keys may be set. -/
theorem BindsAs.set (n : Json) (hkey : key ∉ bindingKeys) (v : Json) : BindsAs n (n.set key v) :=
  .of_get? (Json.isObject_set ..) fun _ hother =>
    Json.get?_set_ne (ne_of_mem_of_not_mem hother hkey) v

/-- Other keys may be erased. -/
theorem BindsAs.erase (n : Json) (hkey : key ∉ bindingKeys) : BindsAs n (n.erase key) :=
  .of_get? (Json.isObject_erase ..) fun _ hother =>
    Json.get?_erase_ne (ne_of_mem_of_not_mem hother hkey)

/-- A part that binds the same is admitted for the same. -/
theorem BindsAs.accept (h : BindsAs v v') (hform : form ∈ forms) :
    form.accept v' (Migration.skeletons v') = form.accept v (Migration.skeletons v) := by
  have hparts : ∀ form ∈ forms, form.parts ⊆ knownKinds := by decide
  rw [Form.accept, Form.accept, h.skeletons, h.isObject, h.kindIn (hparts form hform)]

/-- What binds alike has the same parts. -/
theorem BindsAs.partsAt (h : BindsAs v v') (hobject : v.isObject = true) (hform : form ∈ forms) :
    form.partsAt (some v') = form.partsAt (some v) := by
  obtain ⟨l, rfl⟩ := exists_obj_of_isObject hobject
  obtain ⟨l', rfl⟩ := exists_obj_of_isObject (h.isObject.trans hobject)
  exact congrArg (if form.isList then [] else ·) (h.accept hform)

/-- A node with another part that binds the same. -/
theorem BindsAs.set_part (hget : n.get? key = some v) (hkey : key ∉ ["type", "name"])
    (h : ∀ form ∈ forms, form.partsAt (some v') = form.partsAt (some v)) :
    BindsAs n (n.set key v') := by
  simp only [List.mem_cons, List.not_mem_nil, or_false, not_or] at hkey
  have hkind : Kindred n (n.set key v') :=
    .of_type (Json.isObject_set ..) (Json.get?_set_ne (Ne.symm hkey.1) v')
  refine ⟨hkind, hkind.skeletons_eq
    (Json.hasText_congr (Json.get?_set_ne (Ne.symm hkey.2) v')) ?_⟩
  intro form hform _
  by_cases hsame : form.key = key
  · rw [hsame, Json.get?_set_self hget, hget, h form hform]
  · rw [Json.get?_set_ne hsame]

/-- A node with another list of parts that each bind the same. -/
theorem partsIn_congr {items items' : List Json} (hform : form ∈ forms)
    (h : List.Forall₂ BindsAs items items') : partsIn form items' = partsIn form items := by
  induction h with
  | nil => rfl
  | cons hitem _ ih => rw [partsIn, partsIn, ih, hitem.accept hform]

/-! ## Down and up -/

variable {o : FileOptions} {site : Site} {rule : EnterRule} {c m : Json} {mark : Bool}

/-- An import of values binds what it bound. -/
theorem importedAs_bindsAs (n : Json) : BindsAs n (importedAs n) := by
  rw [importedAs]
  split
  · exact .set n (by decide) _
  split
  · exact .refl n
  split
  next specifiers hget =>
    refine .set_part hget (by decide) fun form hform => ?_
    have hitems : List.Forall₂ BindsAs specifiers (specifiers.map plainSpecifier) := by
      refine List.forall₂_map_right_iff.2 (List.forall₂_same.2 fun s _ => ?_)
      rw [plainSpecifier]
      split
      · exact .set s (by decide) _
      · exact .refl s
    rw [Form.partsAt, Form.partsAt, partsIn_congr hform hitems]
  next => exact .refl n

/-- A variable that gets an annotation binds what it bound. -/
theorem declaredAs_bindsAs (n : Json) : BindsAs n (declaredAs o site n) := by
  rw [declaredAs]
  split
  · split
    next id hid =>
      split
      next hun =>
        split
        next type _ =>
          refine .set_part hid (by decide) fun form hform => ?_
          have hobject : id.isObject = true := isObject_of_hasText (Bool.and_eq_true_iff.1 hun).1
          exact (BindsAs.set id (by decide) type).partsAt hobject hform
        next => exact .refl n
      next => exact .refl n
    next => exact .refl n
  · exact .refl n

/-- A node that keeps its place binds what it did. -/
theorem keptAs_bindsAs (n : Json) : BindsAs n (keptAs o site n rule) := by
  cases rule with
  | importDeclaration => exact importedAs_bindsAs n
  | exportNamed => exact .erase n (by decide)
  | declarator => exact declaredAs_bindsAs n
  | functionDeclaration =>
    rw [keptAs, annotateWithAny]
    split
    · split
      · exact .set n (by decide) _
      · exact .refl n
    · exact .refl n
  | classProperty =>
    rw [keptAs, propertyAs]
    split
    · exact .refl n
    split
    · exact (BindsAs.set n (by decide) _).trans (.set _ (by decide) _)
    · exact .set n (by decide) _
  | _ => exact .refl n

/-- What takes the place of a node binds as little as the node. -/
theorem replaces_bindsAs {new : Json} (hn : n.isNode = true) (hnew : new.isNode = true)
    (rules : enterRule? n.kind = some rule) (gives : rule.keepsPlace = false)
    (h : Replaces o site n rule new mark) : BindsAs n (Json.inherit n new) := by
  have hbefore : ∀ kind ∈ knownKinds, n.hasText "type" kind = false := by
    intro kind hkind
    rw [Bool.eq_false_iff]
    intro htext
    have hkeeps : ∀ kind ∈ knownKinds, (enterRule? kind).all (·.keepsPlace) = true := by decide
    have hall := hkeeps kind hkind
    rw [← kind_of_kind (get?_of_hasText htext), rules] at hall
    rw [Option.all_some, gives] at hall
    cases hall
  have hafter : ∀ kind ∈ knownKinds, (Json.inherit n new).hasText "type" kind = false := by
    intro kind hkind
    obtain ⟨written, hwritten, htype⟩ := h.kind
    rw [hasText_of_kind ((Json.get?_type_inherit n new).trans htype), beq_eq_false_iff_ne]
    rintro rfl
    have hapart : ∀ kind ∈ writtenKinds, kind ∉ knownKinds := by decide
    exact hapart _ hwritten hkind
  have hobject := isObject_of_isNode hn
  have hobject' : (Json.inherit n new).isObject = true :=
    isObject_of_isNode ((isNode_inherit n new).trans hnew)
  exact ⟨⟨hobject'.trans hobject.symm,
    fun kind hkind => (hafter kind hkind).trans (hbefore kind hkind).symm⟩,
    by rw [skeletons_of_unknown hobject hbefore, skeletons_of_unknown hobject' hafter]⟩

/-- **What is entered binds what it bound.** -/
theorem Enters.bindsAs {D : Prop} {p : Json → Bool} (h : Enters D p o site n m mark)
    (hn : n.isNode = true) : BindsAs n m := by
  cases h with
  | free => exact .refl n
  | kept => exact keptAs_bindsAs n
  | replaced rules gives _ hreplaced =>
    exact replaces_bindsAs hn hreplaced.written.isNode rules gives hreplaced.replaces

/-- A node that is no root binds what it did once it has been left. -/
theorem Leaves.bindsAs (h : Leaves o c n') (hroot : c.kind ∉ rootKinds) : BindsAs c n' := by
  cases h with
  | free => exact .refl _
  | ruled rules left =>
    cases left with
    | program => exact .refl _
    | importing =>
      rw [leaveRule?, List.lookup_eq_some_iff] at rules
      obtain ⟨before, after, hrules, -⟩ := rules
      have hmem : (c.kind, LeaveRule.program) ∈ leaveRules := by
        rw [hrules]
        simp
      have hprogram : ∀ r ∈ leaveRules, r.2 = .program → r.1 ∈ rootKinds := by decide
      exact absurd (hprogram _ hmem rfl) hroot
    | function => exact .set c (by decide) _
    | withoutParams => exact .refl _
    | pattern =>
      rw [leaveAssignmentPattern]
      split
      next left hleft =>
        split
        next hname =>
          refine .set_part hleft (by decide) fun form hform => ?_
          exact (BindsAs.erase left (by decide)).partsAt
            (isObject_of_hasText (Bool.and_eq_true_iff.1 hname).2) hform
        next => exact .refl _
      next => exact .refl _

/-! ## Through the children -/

/-- What the walk makes of a node: a node that is no root binds the same. -/
structure Binds (v v' : Json) : Prop extends Kindred v v' where
  skeletons (h : v.kind ∉ rootKinds) : skeletons v' = skeletons v

/-- Parts of a form in which no root stands. -/
theorem Binds.accept (h : Binds v v') (hform : form ∈ forms)
    (hroots : ∀ kind ∈ form.parts, kind ∉ rootKinds) :
    form.accept v' (Migration.skeletons v') = form.accept v (Migration.skeletons v) := by
  have hparts : ∀ form ∈ forms, form.parts ⊆ knownKinds := by decide
  rw [Form.accept, Form.accept, h.isObject, h.kindIn (hparts form hform)]
  split
  next hkind =>
    obtain ⟨kind, hmem, htext⟩ := List.any_eq_true.1 hkind
    refine h.skeletons fun hroot => ?_
    rw [kind_of_kind (get?_of_hasText htext)] at hroot
    exact hroots kind hmem hroot
  next => rfl

section
variable {marked : Prop} (hform : form ∈ forms) (hroots : ∀ kind ∈ form.parts, kind ∉ rootKinds)
include hform hroots

/-- A form accepts an item as before when it was walked. -/
theorem accept_of_walked (h : ItemWalked (fun _ v v' _ => Binds v v') site marked v v') :
    form.accept v' (skeletons v') = form.accept v (skeletons v) := by
  cases h with
  | leaf => rfl
  | node _ walked => exact walked.accept hform hroots

/-- A form has the same parts when they were walked. -/
theorem partsAt_of_walked (h : ValueWalked (fun _ v v' _ => Binds v v') site marked v v') :
    form.partsAt (some v') = form.partsAt (some v) := by
  cases h with
  | single _ item =>
    cases item with
    | leaf => rfl
    | node hn walked came =>
      obtain ⟨l, rfl⟩ := exists_obj_of_isObject (isObject_of_isNode hn)
      obtain ⟨l', rfl⟩ := exists_obj_of_isObject (isObject_of_isNode came.isNode)
      exact congrArg (if form.isList then [] else ·) (walked.accept hform hroots)
  | arr items =>
    have hitems {vs vs' : List Json}
        (h : List.Forall₂ (ItemWalked (fun _ v v' _ => Binds v v') site marked) vs vs') :
        partsIn form vs' = partsIn form vs := by
      induction h with
      | nil => rfl
      | cons item _ ih => rw [partsIn, partsIn, ih, accept_of_walked hform hroots item]
    rw [Form.partsAt, Form.partsAt, hitems items]

end

/-- A node whose children were walked is kindred to what it was. -/
theorem ChildrenWalked.kindred {R : Site → Json → Json → Bool → Prop}
    (h : ChildrenWalked R site m c) (hm : m.isNode = true) : Kindred m c := by
  refine ⟨?_, fun kind _ => h.hasText_eq (by decide) kind⟩
  rw [isObject_of_isNode hm, isObject_of_isNode (h.isNode_eq.trans hm)]

/-- A node that is no file binds what it did once its children have been walked. -/
theorem ChildrenWalked.bindsAs (h : ChildrenWalked (fun _ v v' _ => Binds v v') site m c)
    (hm : m.isNode = true) (hfile : m.hasText "type" "File" = false) : BindsAs m c := by
  have hkind := h.kindred hm
  refine ⟨hkind, hkind.skeletons_eq (h.hasText_eq (by decide)) fun form hform htext => ?_⟩
  have hplain : ∀ form ∈ forms, form.key ≠ "optional" ∧
      (form.kind = "File" ∨ ∀ kind ∈ form.parts, kind ∉ rootKinds) := by
    decide
  obtain ⟨hmarker, hroots⟩ := hplain form hform
  replace hroots := hroots.resolve_left fun hkind => by
    rw [hkind, hfile] at htext
    cases htext
  have hrel := h.get?_rel hmarker
  generalize m.get? form.key = a, c.get? form.key = b at hrel
  cases hrel with
  | none => rfl
  | some hentry =>
    cases hentry with
    | skipped => rfl
    | walked _ value => exact partsAt_of_walked hform hroots value

/-- A node that is left is kindred to what it was. -/
theorem Leaves.kindred (h : Leaves o c n') : Kindred c n' := by
  refine .of_type ?_ (h.get?_eq (by decide))
  obtain rfl | ⟨key, v, rfl, -⟩ := h.eq_or_set
  · rfl
  · exact Json.isObject_set v

theorem mem_rootKinds_iff (n : Json) : n.plainKind ∈ rootKinds ↔ n.kind ∈ rootKinds := by
  simp only [rootKinds, List.mem_cons, List.not_mem_nil, or_false]
  rw [plainKind_eq_iff rfl, plainKind_eq_iff rfl]

/-- No node becomes a root. -/
theorem Enters.not_root {D : Prop} {p : Json → Bool} (h : Enters D p o site n m mark)
    (hroot : n.kind ∉ rootKinds) : m.kind ∉ rootKinds := by
  rw [← mem_rootKinds_iff] at hroot ⊢
  have hapart : ∀ kind ∈ writtenKinds, kind ∉ rootKinds := by decide
  rcases h.kind with hkind | hwritten
  · rwa [hkind]
  · exact hapart _ hwritten

/-- **The walk leaves what is bound.** What becomes of a node that is no root
binds what the node does, given that it is so for its children. -/
theorem Passed.binds {D : Prop} {p : Json → Bool} (hn : n.isNode = true)
    (h : Passed D p o (fun _ v v' _ => Binds v v') site n n' mark) : Binds n n' := by
  obtain ⟨m, c, henters, hchildren, hleaves⟩ := h.passes
  have hdown := henters.bindsAs hn
  have hm := henters.isNode hn
  refine ⟨(hdown.toKindred.trans (hchildren.kindred hm)).trans hleaves.kindred, fun hroot => ?_⟩
  have hroot := henters.not_root hroot
  have hfile : m.hasText "type" "File" = false := by
    rw [Bool.eq_false_iff]
    intro htext
    rw [kind_of_kind (get?_of_hasText htext)] at hroot
    exact hroot (by decide)
  have hroot' : c.kind ∉ rootKinds := by
    rwa [← mem_rootKinds_iff, hchildren.plainKind_eq, mem_rootKinds_iff]
  exact ((hdown.trans (hchildren.bindsAs hm hfile)).trans (hleaves.bindsAs hroot')).skeletons

/-! ## The second stage -/

/-- What the second stage makes of a value looks the same and binds the same. -/
structure BindsAgain (v v' : Json) : Prop extends BindsAs v v' where
  sort : Json.SameSort v v'
  partsAt (form : Form) (h : form ∈ forms) : form.partsAt (some v') = form.partsAt (some v)

theorem BindsAgain.refl (v : Json) : BindsAgain v v := ⟨.refl v, .refl v, fun _ _ => rfl⟩

theorem BindsAgain.arr {items items' : List Json} (h : List.Forall₂ BindsAgain items items') :
    BindsAgain (.arr items) (.arr items') where
  isObject := rfl
  hasText _ _ := rfl
  skeletons := by rw [Migration.skeletons, Migration.skeletons] <;> simp
  sort := .arr h.length_eq
  partsAt form hform := by
    rw [Form.partsAt, Form.partsAt, partsIn_congr hform (h.imp fun _ _ h => h.toBindsAs)]

/-- Annotations bind nothing. -/
theorem annotateParams_bindsAs (annotations : List (Option Json)) (n : Json) :
    BindsAs n (annotateParams annotations n) := by
  rw [annotateParams]
  split
  · exact .set n (by decide) _
  · exact .refl n

/-- A node whose entries were annotated, and then its parameters. -/
theorem BindsAgain.obj {l l' : Entries} (h : l.Rel (fun _ => BindsAgain) l')
    (annotations : List (Option Json)) :
    BindsAgain (.obj l) (annotateParams annotations (.obj l')) := by
  have htext (key text : String) : (Json.obj l').hasText key text = (Json.obj l).hasText key text :=
    hasText_of_rel (h.mono fun _ _ _ hv => hv.sort) key text
  have hkind : Kindred (.obj l) (.obj l') := ⟨rfl, fun kind _ => htext "type" kind⟩
  have hentries : BindsAs (.obj l) (.obj l') := by
    refine ⟨hkind, hkind.skeletons_eq (htext "name") fun form hform _ => ?_⟩
    have hrel := h.get? form.key
    simp only [Json.get?]
    generalize l.get? form.key = a, l'.get? form.key = b at hrel
    cases hrel with
    | none => rfl
    | some hv => exact hv.partsAt form hform
  have hbinds := hentries.trans (annotateParams_bindsAs annotations (.obj l'))
  refine ⟨hbinds, .of_isObject rfl (hbinds.isObject.trans rfl), fun form hform => ?_⟩
  exact hbinds.partsAt rfl hform

/-- So the second stage binds what the first one did. -/
theorem annotates_bindsAgain : Annotates (fun _ => True) BindsAgain where
  refl := .refl
  arr := .arr
  obj {_ _} h {annotations} _ := .obj h annotations

/-- **The second stage leaves what is bound.** -/
theorem skeletons_annotateWaiting (o : FileOptions) (annotations : List (Option Json))
    (tree : Json) : skeletons (annotateWaiting o annotations tree) = skeletons tree :=
  (annotateWaiting_related o annotates_bindsAgain (fun _ _ => trivial) tree).skeletons

end Retype.Migration
