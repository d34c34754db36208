import Retype.Proofs.Migration.Accounting
import Retype.Proofs.Migration.Scanning
/-!
# The import of the helpers

A program that has got a call of a helper imports the helpers, unless one of
its statements is seen to bind their name already. The scan for such a
statement sees imports, variables, functions and classes that stand alone
(`bindsName_eq`); what it sees is bound once in the end
(`helper_bound_once`). It does not see exported declarations, nor names inside
patterns: there the name is bound twice (`exported_binding_doubled`).
-/

namespace Retype

namespace Syntax

/-! ## Walking past what has no nodes -/

variable {m : Type → Type} [Monad m] [LawfulMonad m] {visit : Place → Json → m (Walked Json)}
  {up : Place}

theorem walkItems_of_no_node {frame : List Json → List Json → Frame} (done : Walked (List Json))
    {items : List Json} (h : ∀ item ∈ items, item.isNode = false) :
    walkItems visit frame up done items =
      pure ⟨done.present ++ items, done.former ++ items, done.parentFields⟩ := by
  induction items generalizing done with
  | nil => simp [walkItems]
  | cons item rest ih =>
    rw [List.forall_mem_cons] at h
    rw [walkItems, h.1]
    simp [ih _ h.2, Walked.snoc, Walked.same]

theorem walkEntry_of_no_node {before after : Entries} {key : String} {v : Json}
    (h : v.nodes = []) : walkEntry visit up before key after v = pure (Walked.same v) := by
  have hn : v.isNode = false := by
    rw [Bool.eq_false_iff]
    intro hn
    rw [Migration.nodes_of_isNode hn] at h
    cases h
  cases v with
  | arr items =>
    have hitems : ∀ item ∈ items, item.isNode = false := by
      rw [Json.nodes, List.filter_eq_nil_iff] at h
      simpa using h
    rw [walkEntry, walkItems_of_no_node _ hitems]
    simp [Walked.same, Walked.array]
  | _ =>
    rw [walkEntry, hn]
    · rfl
    · rintro _ ⟨⟩

omit [LawfulMonad m] in
theorem walkEntry_of_isNode {before after : Entries} {key : String} {v : Json}
    (h : v.isNode = true) :
    walkEntry visit up before key after v = visit (⟨before, key, none, after⟩ :: up) v := by
  cases v with
  | arr items => cases h
  | _ => rw [walkEntry, if_pos h]; rintro _ ⟨⟩

/-- Nothing is walked in an entry. -/
def Nodeless (entry : String × Json) : Prop := entry.1 ∈ Json.metadataKeys ∨ entry.2.nodes = []

theorem walkEntries_append_of_nodeless (done : Walked Entries) {before : Entries} (rest : Entries)
    (h : ∀ entry ∈ before, Nodeless entry) :
    walkEntries visit up done (before ++ rest) = walkEntries visit up
      ⟨done.present ++ before, done.former ++ before, done.parentFields⟩ rest := by
  induction before generalizing done with
  | nil => simp
  | cons entry before ih =>
    obtain ⟨key, v⟩ := entry
    rw [List.forall_mem_cons] at h
    have hnext : walkEntries visit up (done.snoc ((Walked.same v).under key)) (before ++ rest) =
        walkEntries visit up ⟨done.present ++ (key, v) :: before, done.former ++ (key, v) :: before,
          done.parentFields⟩ rest := by
      rw [ih _ h.2]
      simp [Walked.snoc, Walked.same, Walked.under]
    rw [List.cons_append, walkEntries]
    split
    · rw [pure_bind]
      exact hnext
    next hkey =>
      have hv : v.nodes = [] := h.1.resolve_left fun hmeta => hkey (by
        rw [List.contains_iff_mem.2 hmeta, Bool.true_or])
      rw [walkEntry_of_no_node hv, pure_bind]
      exact hnext

/-- The only child of a node is what is walked of it. -/
theorem walkChildren_of_only_child {before after : Entries} {key : String} {child : Json}
    (hbefore : ∀ entry ∈ before, Nodeless entry) (hafter : ∀ entry ∈ after, Nodeless entry)
    (hkey : key ∉ Json.metadataKeys) (hchild : child.isNode = true) :
    walkChildren visit up (.obj (before ++ (key, child) :: after)) = (fun w =>
        Walked.object ⟨before ++ (key, w.present) :: after, before ++ (key, w.former) :: after,
          w.parentFields⟩) <$> visit (⟨before, key, none, after⟩ :: up) child := by
  rw [walkChildren, walkEntries_append_of_nodeless _ _ hbefore, walkEntries]
  have hrest (done : Walked Entries) : walkEntries visit up done after =
      pure ⟨done.present ++ after, done.former ++ after, done.parentFields⟩ := by
    simpa [walkEntries] using walkEntries_append_of_nodeless done [] hafter
  simp [Walked.same, hkey, walkEntry_of_isNode hchild, hrest, Entries.contains, Walked.snoc,
    Walked.under]

end Syntax

namespace Migration

open Syntax (Place Frame Visit Walked Meeting)

variable {o : FileOptions} {n n' c program : Json}

/-! ## The import -/

/-- What is found in the import of the helpers. -/
def helperSkeleton (o : FileOptions) : Skeleton :=
  .node "ImportDeclaration" [.node "ImportDefaultSpecifier" [.name o.utilsBinding]]

/-- Whether a program gets the import: it uses a helper, and no statement of it
is seen to bind the name. -/
def needsImport (o : FileOptions) (used : Bool) (program : Json) : Bool :=
  used && !(program.itemsAt "body").any (bindsName o.utilsBinding)

/-- A program that was left, with the import if it needs it. -/
def LeftImporting (o : FileOptions) (used : Bool) (c c' : Json) : Prop :=
  if needsImport o used c then
    ∃ body, c.get? "body" = some (.arr body) ∧ c' = c.set "body" (.arr (helperImport o :: body))
  else c' = c

theorem leaveProgram_runs (c : Json) (p : Progress) :
    (leaveProgram o c).Runs p fun c' p' => p' = p ∧ LeftImporting o p.usesHelper c c' := by
  rw [leaveProgram]
  refine .bind (.get ?_)
  split
  next hsettled =>
    refine .pure ⟨rfl, ?_⟩
    have hneeds : needsImport o p.usesHelper c = false := by
      rw [needsImport, ← Bool.not_eq_true', Bool.not_and, Bool.not_not]
      exact hsettled
    rw [LeftImporting, hneeds]
    rfl
  next hneeds =>
    refine .bind (.ofResult fun body hbody => .pure ⟨rfl, ?_⟩)
    have hneeds : needsImport o p.usesHelper c = true := by
      rw [Bool.not_eq_true, Bool.or_eq_false_iff, Bool.not_eq_false'] at hneeds
      rw [needsImport, hneeds.1, hneeds.2]
      rfl
    rw [LeftImporting, if_pos hneeds]
    exact ⟨body, listField_yields c "body" body hbody, rfl⟩

/-- What a tree gains between what it was and what has become of it. -/
structure Gains (extra : List Skeleton) (n n' : Json) : Prop where
  names : boundNames n' = (Skeleton.withinAll extra).filterMap (·.name?) ++ boundNames n
  imports : importCount n' = (Skeleton.withinAll extra).countP (·.isImport) + importCount n

/-- What is found in a program that was left. -/
theorem LeftImporting.skeletons {used : Bool} {c' : Json} (h : LeftImporting o used c c')
    (hc : c.hasText "type" "Program" = true) : ∃ parts,
      Migration.skeletons c = [.node "Program" parts] ∧ Migration.skeletons c' =
        [.node "Program" ((if needsImport o used c then [helperSkeleton o] else []) ++ parts)] := by
  refine ⟨_, skeletons_program hc, ?_⟩
  rw [LeftImporting] at h
  split at h
  next hneeds =>
    obtain ⟨body, hbody, rfl⟩ := h
    have hkind := (Json.hasText_congr (Json.get?_set_ne (show "type" ≠ "body" by decide)
      (.arr (helperImport o :: body))) "Program").trans hc
    rw [skeletons_program hkind, if_pos hneeds, Json.get?_set_self hbody, hbody]
    rfl
  next hneeds =>
    rw [h, if_neg hneeds]
    exact skeletons_program hc

/-! ## The walk of a program -/

section
variable {fuel : Nat} {place : Place}

/-- A root is entered as it is. -/
theorem enter_root (hroot : n.kind ∈ rootKinds) :
    (rewriter o).enter place n = pure (Visit.keep n) := by
  have hrule : ∀ kind ∈ rootKinds, enterRule? kind = none := by decide
  rw [rewriter]
  dsimp only
  rw [hrule _ hroot]

theorem leave_program (hn : n.hasText "type" "Program" = true) :
    (rewriter o).leave place n = leaveProgram o n := by
  rw [rewriter]
  dsimp only
  rw [kind_of_kind (get?_of_hasText hn)]
  rfl

theorem leave_file (hn : n.hasText "type" "File" = true) : (rewriter o).leave place n = pure n := by
  rw [rewriter]
  dsimp only
  rw [kind_of_kind (get?_of_hasText hn)]
  rfl

/-- **A program is left last**: whether it uses a helper is known then. -/
theorem walk_program_runs (hn : n.hasText "type" "Program" = true)
    (hdue : Due False (Everywhere fun _ => true) (fuel + 1) n) (p : Progress) :
    (Syntax.walk (rewriter o) (fuel + 1) place n).Runs p fun w q => w.parentFields = [] ∧
      w.former = w.present ∧ ∃ c, BindsAs n c ∧ LeftImporting o q.usesHelper c w.present := by
  have hkind : n.kind = "Program" := kind_of_kind (get?_of_hasText hn)
  have hnode : n.isNode = true := isNode_of_hasText hn
  have hfile : n.hasText "type" "File" = false := by rw [hasText_of_kind (get?_of_hasText hn)]; rfl
  obtain ⟨-, hparts, -⟩ := hdue.visited (fun h => h.elim) hnode
  have hpasses := walk_passes (D := False) (p := fun _ => true) (o := o)
    (R := fun _ v v' _ => Binds v v') (fun h => h.elim) (fun _ _ _ _ hn h => Passed.binds hn h) fuel
  rw [Syntax.walk, enter_root (hkind ▸ by decide), pure_bind]
  refine .bind ((Rewrite.Runs.of_yields
    (walkChildren_visited hpasses hnode (.refl n) hparts)).mono fun inside q hinside => ?_)
  have hbinds := hinside.bindsAs hnode hfile
  rw [leave_program (by rw [hbinds.hasText "Program" (by decide), hn])]
  refine .bind ((leaveProgram_runs _ q).mono fun left q' hleft => .pure ⟨rfl, rfl, _, hbinds, ?_⟩)
  obtain ⟨rfl, hleft⟩ := hleft
  exact hleft

/-- What stands beside an only child has no nodes. -/
theorem nodeless_of_only_child {before after : Entries} {key : String}
    (hkey : key ∉ Json.metadataKeys) (hchild : n.isNode = true)
    (honly : (Json.obj (before ++ (key, n) :: after)).childNodes.length = 1) :
    (∀ entry ∈ before, Syntax.Nodeless entry) ∧ ∀ entry ∈ after, Syntax.Nodeless entry := by
  have hnone {l : Entries} (h : (Json.obj l).childNodes.length = 0) :
      ∀ entry ∈ l, Syntax.Nodeless entry := by
    intro entry hentry
    have hnil := List.flatMap_eq_nil_iff.1 (List.length_eq_zero_iff.1 h) entry hentry
    by_cases hmeta : entry.1 ∈ Json.metadataKeys
    · exact .inl hmeta
    · exact .inr (by simpa [hmeta] using hnil)
  have hlength : (Json.obj (before ++ (key, n) :: after)).childNodes.length =
      (Json.obj before).childNodes.length + ((Json.obj after).childNodes.length + 1) := by
    simp [Json.childNodes, entriesOf, hkey, nodes_of_isNode hchild]
  exact ⟨hnone (by omega), hnone (by omega)⟩

/-- A file whose only child is its program. -/
theorem walk_file_runs (hn : n.hasText "type" "File" = true)
    (hget : n.get? "program" = some program)
    (hprogram : program.hasText "type" "Program" = true) (honly : n.childNodes.length = 1)
    (hdue : Due False (Everywhere fun _ => true) (fuel + 2) n) (p : Progress) :
    (Syntax.walk (rewriter o) (fuel + 2) place n).Runs p fun w q => w.former = w.present ∧
      w.present.hasText "type" "File" = true ∧ ∃ c program', BindsAs program c ∧
        LeftImporting o q.usesHelper c program' ∧ w.present.get? "program" = some program' := by
  have hkind : n.kind = "File" := kind_of_kind (get?_of_hasText hn)
  have hnode : n.isNode = true := isNode_of_hasText hn
  have hnode' : program.isNode = true := isNode_of_hasText hprogram
  have hmeta : "program" ∉ Json.metadataKeys := by decide
  obtain ⟨-, hparts, -⟩ := hdue.visited (fun h => h.elim) hnode
  obtain ⟨l, rfl⟩ := exists_obj_of_isObject (isObject_of_isNode hnode)
  have hdueProgram := hparts ("program", program) (Entries.mem_of_get? hget) hmeta
  obtain ⟨before, after, rfl, hafterwards⟩ := Entries.exists_split_of_get? hget
  obtain ⟨hbefore, hafter⟩ := nodeless_of_only_child hmeta hnode' honly
  rw [Syntax.walk, enter_root (hkind ▸ by decide), pure_bind]
  dsimp only [Visit.keep]
  rw [Syntax.walkChildren_of_only_child hbefore hafter hmeta hnode']
  refine .bind (.map ((walk_program_runs hprogram hdueProgram p).mono fun w q hw => ?_))
  obtain ⟨hfields, -, c, hbinds, hleft⟩ := hw
  obtain ⟨hfield, hothers⟩ := hafterwards w.present
  -- the program gives its file no fields
  have hinside : (Walked.object ⟨before ++ ("program", w.present) :: after,
      before ++ ("program", w.former) :: after, w.parentFields⟩).present =
        .obj (before ++ ("program", w.present) :: after) := by
    rw [hfields]
    rfl
  have htype : (Json.obj (before ++ ("program", w.present) :: after)).get? "type" =
      (Json.obj (before ++ ("program", program) :: after)).get? "type" := hothers "type" (by decide)
  have htext := (Json.hasText_congr htype "File").trans hn
  rw [hinside, leave_file htext]
  exact .bind (.pure (.pure ⟨rfl, htext, c, w.present, hbinds, hleft, hfield⟩))

end

/-! ## What a tree gains -/

theorem needsImport_congr (h : BindsAs n c) (hn : n.hasText "type" "Program" = true)
    (hformed : AllFormed (skeletons n)) (used : Bool) :
    needsImport o used c = needsImport o used n := by
  have hc : c.hasText "type" "Program" = true := by rw [h.hasText "Program" (by decide), hn]
  have hparts := h.skeletons
  rw [skeletons_program hn, skeletons_program hc] at hparts
  have hsame : programForm.partsAt (c.get? "body") = programForm.partsAt (n.get? "body") :=
    (Skeleton.node.inj (List.cons.inj hparts).1).2
  rw [needsImport, needsImport, any_bindsName hn hformed,
    any_bindsName hc (h.skeletons.symm ▸ hformed), hsame]

/-- What a program has gained. -/
theorem program_gains {used : Bool} (hn : n.hasText "type" "Program" = true)
    (hformed : AllFormed (skeletons n)) (hbinds : BindsAs n c) (h : LeftImporting o used c n') :
    n'.hasText "type" "Program" = true ∧
      Gains (if needsImport o used n then [helperSkeleton o] else []) n n' := by
  have hc : c.hasText "type" "Program" = true := by rw [hbinds.hasText "Program" (by decide), hn]
  obtain ⟨parts, hparts, hparts'⟩ := h.skeletons hc
  rw [hbinds.skeletons] at hparts
  rw [needsImport_congr hbinds hn hformed] at hparts'
  refine ⟨hasText_of_mem_skeletons (hparts' ▸ List.mem_singleton_self _), ?_, ?_⟩
  · rw [boundNames_of_node hparts, boundNames_of_node hparts', Skeleton.withinAll_append,
      List.filterMap_append]
  · rw [importCount_of_node hparts (by decide), importCount_of_node hparts' (by decide),
      Skeleton.withinAll_append, List.countP_append]

/-- A file binds what its program does. -/
theorem skeletons_file (hn : n.hasText "type" "File" = true)
    (hget : n.get? "program" = some program) (hprogram : program.hasText "type" "Program" = true) :
    skeletons n = [.node "File" (skeletons program)] := by
  have haccept : fileForm.accept program (skeletons program) = skeletons program := by
    rw [Form.accept, if_pos]
    exact List.any_eq_true.2 ⟨_, List.mem_singleton_self _, hprogram⟩
  rw [skeletons_of_kind (show fileForm ∈ forms by decide) (by decide) hn,
    show n.get? fileForm.key = some program from hget, Form.partsAt_of_single rfl, haccept]
  rfl

theorem Gains.file {extra : List Skeleton} {file file' program' : Json}
    (h : Gains extra program program') (hfile : skeletons file = [.node "File" (skeletons program)])
    (hfile' : skeletons file' = [.node "File" (skeletons program')]) : Gains extra file file' := by
  refine ⟨?_, ?_⟩
  · rw [boundNames_of_node hfile, boundNames_of_node hfile']
    exact h.names
  · rw [importCount_of_node hfile (by decide), importCount_of_node hfile' (by decide)]
    exact h.imports

/-- The program of a tree, which is the tree or that of a file. -/
def programOf (tree : Json) : Json :=
  if tree.hasText "type" "File" then (tree.get? "program").getD .null else tree

def statements (tree : Json) : List Json := (programOf tree).itemsAt "body"

/-- A file has a program and no other child. -/
def hasProgram (tree : Json) : Bool :=
  !tree.hasText "type" "File" ||
    (programOf tree).hasText "type" "Program" && tree.childNodes.length == 1

section
variable {tree rewritten : Json} {p : Progress} (hroot : tree.kindIn rootKinds = true)
  (hprogram : hasProgram tree = true)
include hroot hprogram

/-- A tree is its program, or a file with no other child. -/
theorem programOf_cases : (programOf tree).hasText "type" "Program" = true ∧
    (programOf tree = tree ∨ tree.hasText "type" "File" = true ∧
      tree.get? "program" = some (programOf tree) ∧ tree.childNodes.length = 1) := by
  obtain ⟨kind, hkind, htext⟩ := List.any_eq_true.1 hroot
  simp only [rootKinds, List.mem_cons, List.not_mem_nil, or_false] at hkind
  rcases hkind with rfl | rfl
  · rw [hasProgram, htext, Bool.not_true, Bool.false_or, Bool.and_eq_true, beq_iff_eq] at hprogram
    refine ⟨hprogram.1, .inr ⟨htext, ?_, hprogram.2⟩⟩
    have hof : programOf tree = (tree.get? "program").getD .null := if_pos htext
    cases hget : tree.get? "program" with
    | none =>
      rw [hof, hget] at hprogram
      cases hprogram.1
    | some program => rw [hof, hget, Option.getD_some]
  · have hof : programOf tree = tree := if_neg (by
      rw [hasText_of_kind (get?_of_hasText htext)]
      decide)
    rw [hof]
    exact ⟨htext, .inl rfl⟩

/-- A tree has the declarations of its program. -/
theorem skeletons_programOf : programOf tree = tree ∨
    skeletons tree = [.node "File" (skeletons (programOf tree))] := by
  obtain ⟨hkind, hsame | ⟨hfile, hget, -⟩⟩ := programOf_cases hroot hprogram
  · exact .inl hsame
  · exact .inr (skeletons_file hfile hget hkind)

theorem boundNames_programOf : boundNames (programOf tree) = boundNames tree := by
  rcases skeletons_programOf hroot hprogram with hsame | hskeleton
  · rw [hsame]
  · exact (boundNames_of_node hskeleton).symm

theorem allFormed_programOf (hformed : declarationsFormed tree = true) :
    AllFormed (skeletons (programOf tree)) := by
  have hall : AllFormed (skeletons tree) := List.all_eq_true.1 hformed
  rcases skeletons_programOf hroot hprogram with hsame | hskeleton
  · rwa [hsame]
  · rw [hskeleton] at hall
    exact hall.below

variable (hformed : declarationsFormed tree = true) (h : rewriteTree o tree = (.ok rewritten, p))
include hformed h

/-- **What the rewriting of a tree adds to its declarations**: the import of
the helpers if it needs it, and nothing else. -/
theorem rewriteTree_gains :
    Gains (if needsImport o p.usesHelper (programOf tree) then [helperSkeleton o] else [])
      tree rewritten := by
  have hdue : Due False (Everywhere fun _ => true) (walkFuel tree) tree := by
    refine .source ?_ (Json.everywhere_of_forall (fun _ => rfl) tree)
    have hle := Json.nesting_le_depth tree
    rw [walkFuel]
    omega
  have hall := allFormed_programOf hroot hprogram hformed
  have hwalk : (Syntax.walkTree (rewriter o) (walkFuel tree) tree).Runs {} fun tree' q =>
      Gains (if needsImport o q.usesHelper (programOf tree) then [helperSkeleton o] else [])
        tree tree' := by
    rw [Syntax.walkTree]
    obtain ⟨hkind, hsame | ⟨hfile, hget, honly⟩⟩ := programOf_cases hroot hprogram
    · rw [hsame] at hall hkind ⊢
      refine .bind ((walk_program_runs hkind hdue {}).mono fun w q hw => .pure ?_)
      obtain ⟨-, hformer, c, hbinds, hleft⟩ := hw
      rw [hformer]
      exact (program_gains hkind hall hbinds hleft).2
    · refine .bind ((walk_file_runs hfile hget hkind honly hdue {}).mono fun w q hw => .pure ?_)
      obtain ⟨hformer, hfile', c, program', hbinds, hleft, hget'⟩ := hw
      obtain ⟨hkind', hgains⟩ := program_gains hkind hall hbinds hleft
      rw [hformer]
      exact hgains.file (skeletons_file hfile hget hkind) (skeletons_file hfile' hget' hkind')
  exact hwalk rewritten p h

/-- The import comes in front of what was bound before. -/
theorem boundNames_rewritten (annotations : List (Option Json)) :
    boundNames (annotateWaiting o annotations rewritten) =
      (if needsImport o p.usesHelper (programOf tree) then [o.utilsBinding] else []) ++
        boundNames tree := by
  have hgains := rewriteTree_gains hroot hprogram hformed h
  rw [boundNames, skeletons_annotateWaiting, ← boundNames, hgains.names]
  split <;> rfl

/-- The scan misses a binding, so there are two in the end. -/
theorem unseen_binding_doubled (hused : p.usesHelper = true)
    (hunseen : (statements tree).any (bindsName o.utilsBinding) = false)
    (hbound : o.utilsBinding ∈ boundNames tree) (annotations : List (Option Json)) :
    2 ≤ (boundNames (annotateWaiting o annotations rewritten)).count o.utilsBinding := by
  have hneeds : needsImport o p.usesHelper (programOf tree) = true := by
    rw [needsImport, hused, ← statements, hunseen]
    rfl
  have hpos := List.count_pos_iff.2 hbound
  rw [boundNames_rewritten hroot hprogram hformed h, if_pos hneeds, List.singleton_append,
    List.count_cons_self]
  omega

/-- **The name of the helpers is bound once.** Let a tree bind it at most once
at its top level, in a declaration that the scan sees. If a call of a helper is
put in, then what becomes of the tree binds the name exactly once; if none is,
no import is added. -/
theorem helper_bound_once (honce : (boundNames tree).count o.utilsBinding ≤ 1)
    (hseen : o.utilsBinding ∈ boundNames tree →
      (statements tree).any (bindsName o.utilsBinding) = true)
    (annotations : List (Option Json)) :
    ∃ met, rewriteNoting o tree = (.ok (rewritten, met), p) ∧
      ((∃ m ∈ met, m.checked?.isSome = true) →
        (boundNames (annotateWaiting o annotations rewritten)).count o.utilsBinding = 1) ∧
      ((∀ m ∈ met, m.checked? = none) →
        importCount (annotateWaiting o annotations rewritten) = importCount tree) := by
  obtain ⟨met, hmet⟩ := exists_rewriteNoting h
  have haccounts := rewriteNoting_accounts hmet
  refine ⟨met, hmet, fun hchecked => ?_, fun hunchecked => ?_⟩
  · have hused : p.usesHelper = true := haccounts.usesHelper_iff.2 hchecked
    rw [boundNames_rewritten hroot hprogram hformed h, needsImport, hused, Bool.true_and,
      ← statements]
    cases hscan : (statements tree).any (bindsName o.utilsBinding) with
    | true =>
      have hbound : o.utilsBinding ∈ boundNames tree := by
        rw [← boundNames_programOf hroot hprogram]
        exact bound_of_seen (programOf_cases hroot hprogram).1
          (allFormed_programOf hroot hprogram hformed) hscan
      have hpos := List.count_pos_iff.2 hbound
      rw [Bool.not_true, if_neg Bool.false_ne_true, List.nil_append]
      omega
    | false =>
      have hfree : o.utilsBinding ∉ boundNames tree := fun hbound => by
        rw [hseen hbound] at hscan
        cases hscan
      rw [Bool.not_false, if_pos rfl, List.singleton_append, List.count_cons_self,
        List.count_eq_zero_of_not_mem hfree]
  · have hunused : p.usesHelper = false := by
      rw [haccounts.helper, List.any_eq_false]
      intro m hm
      rw [hunchecked m hm]
      exact Bool.false_ne_true
    have hgains := rewriteTree_gains hroot hprogram hformed h
    rw [needsImport, hunused, Bool.false_and, if_neg Bool.false_ne_true] at hgains
    rw [importCount, skeletons_annotateWaiting, ← importCount, hgains.imports]
    exact Nat.zero_add _

end

open TypeScript (node identifier)

/-- `(x: string);` -/
def castStatement : Json :=
  node "ExpressionStatement" [("expression", node "TypeCastExpression"
    [("expression", identifier "x" []), ("typeAnnotation", node "TypeAnnotation"
      [("typeAnnotation", node "StringTypeAnnotation" [])])])]

/-- `import u from "m"; const { v } = w; (x: string);` -/
def importingFile : Json :=
  node "File" [("program", node "Program" [("body", .arr [
    node "ImportDeclaration"
      [("specifiers", .arr [node "ImportDefaultSpecifier" [("local", identifier "u" [])]]),
        ("source", node "StringLiteral" [("value", .str "m")])],
    node "VariableDeclaration" [("declarations", .arr [node "VariableDeclarator"
      [("id", node "ObjectPattern" [("properties", .arr [node "ObjectProperty"
        [("key", identifier "v" []), ("value", identifier "v" [])]])]),
        ("init", identifier "w" [])]])],
    castStatement])])]

theorem helper_bound_once_importingFile : importingFile.kindIn rootKinds = true ∧
    hasProgram importingFile = true ∧ declarationsFormed importingFile = true ∧
    boundNames importingFile = ["u", "v"] ∧ ∃ rewritten p, ∃ met : List Meeting,
      rewriteTree { path := "a.js" } importingFile = (.ok rewritten, p) ∧
      (∃ m ∈ met, m.checked?.isSome = true) ∧
      (boundNames (annotateWaiting { path := "a.js" } [] rewritten)).count "u" = 1 := by
  have hroot : importingFile.kindIn rootKinds = true := by decide
  have hprogram : hasProgram importingFile = true := by decide
  have hformed : declarationsFormed importingFile = true := by decide
  have hnames : boundNames importingFile = ["u", "v"] := by decide
  have hok : (rewriteTree { path := "a.js" } importingFile).1.toOption.isSome = true ∧
      (rewriteTree { path := "a.js" } importingFile).2.usesHelper = true := by
    decide +kernel
  obtain ⟨rewritten, hrun⟩ := exists_rewritten hok.1
  obtain ⟨met, hmet, honce, -⟩ := helper_bound_once hroot hprogram hformed hrun
    (by rw [hnames]; decide) (fun _ => by decide) []
  have hchecked := (rewriteNoting_accounts hmet).usesHelper_iff.1 hok.2
  exact ⟨hroot, hprogram, hformed, hnames, rewritten, _, met, hrun, hchecked, honce hchecked⟩

/-- `export const u = 1; (x: string);` -/
def exportingFile : Json :=
  node "Program" [("body", .arr [
    node "ExportNamedDeclaration" [("declaration", node "VariableDeclaration"
      [("declarations", .arr [node "VariableDeclarator"
        [("id", identifier "u" []), ("init", node "NumericLiteral" [("value", .int 1)])]])])],
    castStatement])]

/-- That the scan sees the declaration is needed: an exported one is not seen,
and the name is bound once more. -/
theorem exported_binding_doubled :
    ¬ ∀ (o : FileOptions) (tree rewritten : Json) (p : Progress) (met : List Meeting)
      (annotations : List (Option Json)), tree.kindIn rootKinds = true → hasProgram tree = true →
      declarationsFormed tree = true → (boundNames tree).count o.utilsBinding ≤ 1 →
      rewriteTree o tree = (.ok rewritten, p) → rewriteNoting o tree = (.ok (rewritten, met), p) →
      (∃ m ∈ met, m.checked?.isSome = true) →
      (boundNames (annotateWaiting o annotations rewritten)).count o.utilsBinding = 1 := by
  intro h
  have hok : (rewriteTree { path := "a.js" } exportingFile).1.toOption.isSome = true ∧
      (rewriteTree { path := "a.js" } exportingFile).2.usesHelper = true := by
    decide +kernel
  obtain ⟨rewritten, hrun⟩ := exists_rewritten hok.1
  obtain ⟨met, hmet⟩ := exists_rewriteNoting hrun
  have hchecked := (rewriteNoting_accounts hmet).usesHelper_iff.1 hok.2
  have honce := h { path := "a.js" } exportingFile rewritten _ met [] (by decide) (by decide)
    (by decide) (by decide) hrun hmet hchecked
  have htwice := unseen_binding_doubled (o := { path := "a.js" }) (by decide) (by decide)
    (by decide) hrun hok.2 (by decide) (by decide) []
  omega

end Migration

end Retype
