import Retype.Proofs.Migration.Bindings
/-!
# What the scan of a program sees

Before a program imports the helpers, its statements are scanned for one that
binds their name. The scan sees what stands right in an import, a declaration
of variables, a function or a class (`bindsName_eq`), and what it sees is bound
(`bound_of_seen`). It passes over exported declarations, and over the names
inside patterns.
-/

namespace Retype.Migration

variable {n s : Json} {form : Form} {name : String}

/-! ## What is bound -/

namespace Skeleton

mutual

/-- A skeleton and all that is in it. -/
def within : Skeleton → List Skeleton
  | .other => [.other]
  | .name text => [.name text]
  | .node kind parts => .node kind parts :: withinAll parts

def withinAll : List Skeleton → List Skeleton
  | [] => []
  | found :: rest => found.within ++ withinAll rest

end

def isOther : Skeleton → Bool
  | .other => true
  | _ => false

def name? : Skeleton → Option String
  | .name text => some text
  | _ => none

def isName (name : String) : Skeleton → Bool
  | .name text => text == name
  | _ => false

def isImport : Skeleton → Bool
  | .node kind _ => kind == "ImportDeclaration"
  | _ => false

theorem withinAll_append (found rest : List Skeleton) :
    withinAll (found ++ rest) = withinAll found ++ withinAll rest := by
  induction found with
  | nil => rfl
  | cons first found ih => rw [List.cons_append, withinAll, withinAll, ih, List.append_assoc]

theorem mem_within_self (found : Skeleton) : found ∈ found.within := by
  cases found <;> simp [within]

theorem mem_withinAll {found : List Skeleton} {t : Skeleton} :
    t ∈ withinAll found ↔ ∃ part ∈ found, t ∈ part.within := by
  induction found with
  | nil => simp [withinAll]
  | cons first found ih => simp [withinAll, ih]

end Skeleton

/-- The names that a tree binds at its top level, one for each binding. -/
def boundNames (tree : Json) : List String :=
  (Skeleton.withinAll (skeletons tree)).filterMap (·.name?)

/-- The number of imports of a tree. -/
def importCount (tree : Json) : Nat := (Skeleton.withinAll (skeletons tree)).countP (·.isImport)

theorem boundNames_of_node {kind : String} {parts : List Skeleton}
    (h : skeletons n = [.node kind parts]) :
    boundNames n = (Skeleton.withinAll parts).filterMap (·.name?) := by
  rw [boundNames, h, Skeleton.withinAll, Skeleton.within, Skeleton.withinAll, List.append_nil,
    List.filterMap_cons]
  rfl

theorem importCount_of_node {kind : String} {parts : List Skeleton}
    (h : skeletons n = [.node kind parts]) (hkind : kind ≠ "ImportDeclaration") :
    importCount n = (Skeleton.withinAll parts).countP (·.isImport) := by
  rw [importCount, h, Skeleton.withinAll, Skeleton.within, Skeleton.withinAll, List.append_nil,
    List.countP_cons_of_neg]
  simpa [Skeleton.isImport] using hkind

/-- The kinds of the declarations that the scan sees, and of their parts. -/
def plainKinds : List String :=
  ["ImportDeclaration", "VariableDeclaration", "VariableDeclarator", "FunctionDeclaration",
    "ClassDeclaration"] ++ specifierKinds

/-- The parts of a declaration, if the scan sees it, are of kinds that belong
there. -/
def Skeleton.isFormed : Skeleton → Bool
  | .node kind parts => !plainKinds.contains kind || parts.all (!·.isOther)
  | _ => true

def AllFormed (found : List Skeleton) : Prop :=
  ∀ t ∈ Skeleton.withinAll found, t.isFormed = true

theorem AllFormed.of_mem {found found' : List Skeleton} (h : AllFormed found)
    (hsub : found' ⊆ found) : AllFormed found' := fun t ht => by
  obtain ⟨part, hpart, ht⟩ := Skeleton.mem_withinAll.1 ht
  exact h t (Skeleton.mem_withinAll.2 ⟨part, hsub hpart, ht⟩)

section
variable {kind : String} {parts : List Skeleton} (h : AllFormed [.node kind parts])
include h

theorem AllFormed.below : AllFormed parts := fun t ht => by
  refine h t (Skeleton.mem_withinAll.2 ⟨_, List.mem_singleton_self _, ?_⟩)
  rw [Skeleton.within]
  exact List.mem_cons_of_mem _ ht

/-- No part of a plain declaration is of a kind that does not belong there. -/
theorem AllFormed.isOther (hkind : kind ∈ plainKinds) : ∀ part ∈ parts, part.isOther = false := by
  have hself := h _ (Skeleton.mem_withinAll.2
    ⟨_, List.mem_singleton_self _, Skeleton.mem_within_self _⟩)
  simpa [Skeleton.isFormed, hkind] using hself

end

/-- The declarations of a tree are as the grammar has them: the specifiers of
an import have local names, a variable is declared by a pattern, and functions
and classes have names for identifiers. -/
def declarationsFormed (tree : Json) : Bool :=
  (Skeleton.withinAll (skeletons tree)).all (·.isFormed)

/-! ## What the scan sees -/

/-- Whether a name is bound right in a part. -/
def Skeleton.holds (name : String) : Skeleton → Bool
  | .node _ parts => parts.any (·.isName name)
  | _ => false

/-- Whether the scan sees that a name is bound. -/
def Skeleton.declares (name : String) : Skeleton → Bool
  | .node kind parts =>
    if ["ImportDeclaration", "VariableDeclaration"].contains kind then parts.any (·.holds name)
    else ["FunctionDeclaration", "ClassDeclaration"].contains kind && parts.any (·.isName name)
  | _ => false

theorem Skeleton.isName_iff {found : Skeleton} : found.isName name = true ↔ found = .name name := by
  cases found <;> simp [Skeleton.isName]

/-- What the scan sees is bound. -/
theorem Skeleton.mem_of_declares {found : Skeleton} (h : found.declares name = true) :
    .name name ∈ found.within := by
  have hparts {parts : List Skeleton} (h : parts.any (·.isName name) = true) :
      .name name ∈ withinAll parts := by
    obtain ⟨part, hpart, hname⟩ := List.any_eq_true.1 h
    rw [Skeleton.isName_iff] at hname
    exact mem_withinAll.2 ⟨part, hpart, hname ▸ mem_within_self _⟩
  cases found with
  | node kind parts =>
    rw [declares] at h
    rw [within]
    refine List.mem_cons_of_mem _ ?_
    split at h
    · obtain ⟨part, hpart, hholds⟩ := List.any_eq_true.1 h
      refine mem_withinAll.2 ⟨part, hpart, ?_⟩
      cases part with
      | node kind parts =>
        rw [within]
        exact List.mem_cons_of_mem _ (hparts hholds)
      | _ => cases hholds
    · exact hparts (Bool.and_eq_true_iff.1 h).2
  | _ => cases h

/-- A test of the parts in a list, item by item. -/
theorem Form.any_partsAt (hlist : form.isList = true) {f : Json → Bool} {g : Skeleton → Bool}
    (h : ∀ item ∈ n.itemsAt form.key, form.accept item (skeletons item) ⊆
      form.partsAt (n.get? form.key) → f item = (form.accept item (skeletons item)).any g) :
    (n.itemsAt form.key).any f = (form.partsAt (n.get? form.key)).any g := by
  rw [Form.partsAt_of_list hlist] at h ⊢
  rw [List.any_flatMap, Bool.eq_iff_iff, List.any_eq_true, List.any_eq_true]
  refine exists_congr fun item => and_congr_right fun hitem => ?_
  rw [h item hitem fun _ hfound => List.mem_flatMap.2 ⟨item, hitem, hfound⟩]

/-- A name that is found right under a key, if nothing else stands there. -/
theorem isNamed_eq (hlist : form.isList = false) (hparts : form.parts ⊆ patternKinds)
    (hformed : ∀ part ∈ form.partsAt (n.get? form.key), part.isOther = false) :
    isNamed n form.key name = (form.partsAt (n.get? form.key)).any (·.isName name) := by
  rw [isNamed]
  cases hget : n.get? form.key with
  | none => rfl
  | some v =>
    rw [hget, Form.partsAt_of_single hlist] at hformed
    rw [Form.partsAt_of_single hlist]
    dsimp only
    cases hobject : v.isObject with
    | false =>
      rw [Form.accept_of_not_isObject hobject, hasText_of_not_isObject hobject]
      rfl
    | true =>
      rw [Form.accept, hobject] at hformed
      split at hformed
      next hkind =>
        obtain ⟨kind, hmem, htext⟩ := List.any_eq_true.1 hkind
        have hpattern : v.kindIn patternKinds = true :=
          List.any_eq_true.2 ⟨kind, hparts hmem, htext⟩
        have hname : v.hasText "name" name = true ↔ .name name ∈ skeletons v := by
          rw [name_mem_skeletons, patternName?_eq_some, and_iff_right hpattern]
        rw [Form.accept, if_pos hkind, Bool.eq_iff_iff, hname, List.any_eq_true]
        simp only [Skeleton.isName_iff, exists_eq_right]
      next =>
        have hother := hformed .other (List.mem_singleton_self _)
        cases hother

/-- The parts of a declaration that are read in turn: specifiers and
declarators. -/
theorem any_isNamed (key : String) (hform : form ∈ forms) (hkind : form.kind ∈ plainKinds)
    (hlist : form.isList = true) (hn : n.hasText "type" form.kind = true)
    (hparts : ∀ kind ∈ form.parts, ∃ part ∈ forms, part.kind = kind ∧ part.kind ∈ plainKinds ∧
      part.key = key ∧ part.isList = false ∧ part.parts ⊆ patternKinds)
    (hformed : AllFormed (skeletons n)) :
    (n.itemsAt form.key).any (isNamed · key name) =
      (form.partsAt (n.get? form.key)).any (·.holds name) := by
  have hapart : ∀ kind ∈ plainKinds, kind ∉ patternKinds := by decide
  rw [skeletons_of_kind hform (hapart _ hkind) hn] at hformed
  refine form.any_partsAt hlist fun item _ hsub => ?_
  cases hobject : item.isObject with
  | false =>
    have hnone : item.get? key = none := by
      cases item with
      | obj l => cases hobject
      | _ => rfl
    rw [isNamed, hnone, Form.accept_of_not_isObject hobject]
    rfl
  | true =>
    rw [Form.accept, hobject] at hsub ⊢
    split at hsub
    next hitemKind =>
      obtain ⟨kind, hmem, htext⟩ := List.any_eq_true.1 hitemKind
      obtain ⟨part, hpart, rfl, hplain, rfl, hsingle, hpatterns⟩ := hparts kind hmem
      have hnode := skeletons_of_kind hpart (hapart _ hplain) htext
      have hinside := hformed.below.of_mem hsub
      rw [hnode] at hinside
      rw [if_pos hitemKind, hnode, isNamed_eq hsingle hpatterns (hinside.isOther hplain),
        List.any_cons, List.any_nil, Bool.or_false, Skeleton.holds]
    next =>
      have hother := hformed.isOther hkind .other (hsub (List.mem_singleton_self _))
      cases hother

/-- Only declarations are seen, imports among them. -/
theorem Skeleton.kind_of_declares {found : Skeleton} (h : found.declares name = true) :
    ∃ kind parts, found = .node kind parts ∧
      kind ∈ "ImportDeclaration" :: declarationKinds := by
  cases found with
  | node kind parts =>
    refine ⟨kind, parts, rfl, ?_⟩
    rw [declares] at h
    split at h
    next hkind =>
      have hsub : ["ImportDeclaration", "VariableDeclaration"] ⊆
          "ImportDeclaration" :: declarationKinds := by decide
      exact hsub (List.contains_iff_mem.1 hkind)
    next =>
      have hsub : ["FunctionDeclaration", "ClassDeclaration"] ⊆
          "ImportDeclaration" :: declarationKinds := by decide
      exact hsub (List.contains_iff_mem.1 (Bool.and_eq_true_iff.1 h).1)
  | _ => cases h

/-- **What the scan sees** of a declaration that is as the grammar has it. -/
theorem bindsName_eq (hformed : AllFormed (skeletons s)) :
    bindsName name s = (skeletons s).any (·.declares name) := by
  have one (found : Skeleton) : [found].any (·.declares name) = found.declares name :=
    Bool.or_false _
  have hnamed {form : Form} (hform : form ∈ [functionForm, classForm])
      (hs : s.hasText "type" form.kind = true) :
      isNamed s "id" name = (skeletons s).any (·.declares name) := by
    have hforms : ∀ form ∈ [functionForm, classForm], form ∈ forms ∧ form.kind ∉ patternKinds ∧
        form.kind ∈ plainKinds ∧ form.isList = false ∧ form.parts ⊆ patternKinds ∧ form.key = "id" ∧
        ["ImportDeclaration", "VariableDeclaration"].contains form.kind = false ∧
        ["FunctionDeclaration", "ClassDeclaration"].contains form.kind = true := by
      decide
    obtain ⟨hmem, hapart, hplain, hsingle, hparts, hkey, hother, hown⟩ := hforms form hform
    rw [skeletons_of_kind hmem hapart hs] at hformed ⊢
    rw [one, Skeleton.declares, hother, hown, ← hkey,
      isNamed_eq hsingle hparts (hformed.isOther hplain)]
    rfl
  rw [bindsName]
  split
  next hs =>
    refine (any_isNamed "local" (show importForm ∈ forms by decide) (by decide) rfl hs (by decide)
      hformed).trans ?_
    rw [skeletons_of_kind (show importForm ∈ forms by decide) (by decide) hs, one]
    rfl
  split
  next hs =>
    refine (any_isNamed "id" (show variableForm ∈ forms by decide) (by decide) rfl hs (by decide)
      hformed).trans ?_
    rw [skeletons_of_kind (show variableForm ∈ forms by decide) (by decide) hs, one]
    rfl
  rw [Json.kindIn, List.any_cons, List.any_cons, List.any_nil, Bool.or_false]
  split
  next hs =>
    rcases Bool.or_eq_true_iff.1 hs with hs | hs
    · exact hnamed (show functionForm ∈ _ by decide) hs
    · exact hnamed (show classForm ∈ _ by decide) hs
  next himport hvariable hothers =>
    -- nothing else is seen
    rw [eq_comm, List.any_eq_false]
    intro found hfound hdeclares
    obtain ⟨kind, parts, rfl, hkind⟩ := Skeleton.kind_of_declares hdeclares
    have hs := hasText_of_mem_skeletons hfound
    rw [Bool.or_eq_true, not_or] at hothers
    simp only [declarationKinds, List.mem_cons, List.not_mem_nil, or_false] at hkind
    rcases hkind with rfl | rfl | rfl | rfl
    · exact himport hs
    · exact hvariable hs
    · exact hothers.1 hs
    · exact hothers.2 hs

theorem kind_of_bindsName (h : bindsName name s = true) :
    ∃ kind ∈ "ImportDeclaration" :: declarationKinds, s.hasText "type" kind = true := by
  rw [bindsName] at h
  split at h
  next hs => exact ⟨_, by decide, hs⟩
  split at h
  next hs => exact ⟨_, by decide, hs⟩
  split at h
  next hs =>
    obtain ⟨kind, hmem, htext⟩ := List.any_eq_true.1 hs
    have hsub : ["FunctionDeclaration", "ClassDeclaration"] ⊆
        "ImportDeclaration" :: declarationKinds := by decide
    exact ⟨kind, hsub hmem, htext⟩
  next => cases h

/-- What is found in a program. -/
theorem skeletons_program (hn : n.hasText "type" "Program" = true) :
    skeletons n = [.node "Program" (programForm.partsAt (n.get? "body"))] :=
  skeletons_of_kind (show programForm ∈ forms by decide) (by decide) hn

/-- The scan of a program. -/
theorem any_bindsName (hn : n.hasText "type" "Program" = true) (hformed : AllFormed (skeletons n)) :
    (n.itemsAt "body").any (bindsName name) =
      (programForm.partsAt (n.get? "body")).any (·.declares name) := by
  rw [skeletons_program hn] at hformed
  refine programForm.any_partsAt rfl fun item _ hsub => ?_
  rw [Form.accept] at hsub ⊢
  split at hsub
  next hkind => rw [if_pos hkind, bindsName_eq (hformed.below.of_mem hsub)]
  next hkind =>
    -- a statement of another kind is not seen, nor is anything found in it
    have hseen : bindsName name item = false := by
      rw [Bool.eq_false_iff]
      intro hbinds
      obtain ⟨kind, hmem, htext⟩ := kind_of_bindsName hbinds
      have hkinds : "ImportDeclaration" :: declarationKinds ⊆ programForm.parts := by decide
      exact hkind (List.any_eq_true.2 ⟨kind, hkinds hmem, htext⟩)
    rw [if_neg hkind, hseen]
    split <;> rfl

/-- What the scan sees is bound. -/
theorem bound_of_seen (hn : n.hasText "type" "Program" = true) (hformed : AllFormed (skeletons n))
    (h : (n.itemsAt "body").any (bindsName name) = true) : name ∈ boundNames n := by
  rw [any_bindsName hn hformed] at h
  obtain ⟨found, hfound, hdeclares⟩ := List.any_eq_true.1 h
  rw [boundNames_of_node (skeletons_program hn)]
  exact List.mem_filterMap.2 ⟨.name name,
    Skeleton.mem_withinAll.2 ⟨found, hfound, Skeleton.mem_of_declares hdeclares⟩, rfl⟩

end Retype.Migration
