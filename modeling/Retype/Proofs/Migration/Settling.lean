import Retype.Proofs.Migration.Asking
/-!
# What open parameters get in the second stage

The second stage passes the tree in the order of the walk and gives each open
parameter the next annotation (`Settles`): the parameters of a node first, then
those below it. What it gives has no functions in it, so it meets the same
parameters as the walk did (`annotateWaiting_settles`).
-/

namespace Retype.Migration

variable {o : FileOptions} {inside : Bool} {n v v' param param' : Json} {l l' : Entries}
  {s s' : List (Option Json)} {L L' M M' : List Json}

/-- An open parameter with what it gets: an annotation, or none. -/
inductive Gets (param : Json) : Option Json → Json → Prop
  | none {param' : Json} (same : SameParam param param') : Gets param none param'
  | some {dressed annotation : Json} (same : SameParam param dressed) :
      Gets param (some annotation) (dressed.set "typeAnnotation" annotation)

/-- Each open parameter of a list has got the next annotation, if there is one;
the other parameters have got none. The annotations before and after. -/
inductive Settles : List (Option Json) → List Json → List Json → List (Option Json) → Prop
  | nil (s : List (Option Json)) : Settles s [] [] s
  | closed {s s' : List (Option Json)} {param param' : Json} {L L' : List Json}
      (annotated : isUnannotated param = false) (same : SameParam param param')
      (rest : Settles s L L' s') : Settles s (param :: L) (param' :: L') s'
  | settled {a : Option Json} {s s' : List (Option Json)} {param param' : Json} {L L' : List Json}
      (unannotated : isUnannotated param = true) (gets : Gets param a param')
      (rest : Settles s L L' s') : Settles (a :: s) (param :: L) (param' :: L') s'
  | short {param param' : Json} {L L' : List Json} {s' : List (Option Json)}
      (unannotated : isUnannotated param = true) (same : SameParam param param')
      (rest : Settles [] L L' s') : Settles [] (param :: L) (param' :: L') s'

namespace Settles

/-- Answers settle one list of questions after another. -/
theorem append {s'' : List (Option Json)} (h : Settles s L L' s') (h' : Settles s' M M' s'') :
    Settles s (L ++ M) (L' ++ M') s'' := by
  induction h with
  | nil => exact h'
  | closed annotated same _ ih => exact .closed annotated same (ih h')
  | settled unannotated gets _ ih => exact .settled unannotated gets (ih h')
  | short unannotated same _ ih => exact .short unannotated same (ih h')

/-- What is left was there before. -/
theorem mem (h : Settles s L L' s') {a : Option Json} (ha : a ∈ s') : a ∈ s := by
  induction h with
  | nil => exact ha
  | closed _ _ _ ih => exact ih ha
  | settled _ _ _ ih => exact List.mem_cons_of_mem _ (ih ha)
  | short _ _ _ ih => exact ih ha

/-- Without an annotation nobody is annotated. -/
theorem setAnnotations_nil (params : List Json) : setAnnotations [] params = params := by
  cases params <;> rfl

/-- The parameters of one list take as many annotations as there are open ones. -/
theorem of_params (h : List.Forall₂ SameParam L L') (s : List (Option Json)) :
    Settles s L (setAnnotations (s.take (L.filter isUnannotated).length) L')
      (s.drop (L.filter isUnannotated).length) := by
  induction h generalizing s with
  | nil => cases s <;> exact .nil _
  | @cons param param' L L' hparam hrest ih =>
    cases hun : isUnannotated param with
    | false =>
      have hun' : isUnannotated param' = false := hparam.unannotated.trans hun
      rw [List.filter_cons_of_neg (by simp [hun])]
      have hcons (t : List (Option Json)) :
          setAnnotations t (param' :: L') = param' :: setAnnotations t L' := by
        cases t with
        | nil => rw [setAnnotations_nil, setAnnotations_nil]
        | cons a t => simp only [setAnnotations, hun', if_neg Bool.false_ne_true]
      rw [hcons]
      exact .closed hun hparam (ih s)
    | true =>
      have hun' : isUnannotated param' = true := hparam.unannotated.trans hun
      rw [List.filter_cons_of_pos (by simp [hun]), List.length_cons]
      cases s with
      | nil =>
        have hrest' := ih []
        rw [List.take_nil, List.drop_nil, setAnnotations_nil] at hrest' ⊢
        exact .short hun hparam hrest'
      | cons a rest =>
        simp only [List.take_succ_cons, List.drop_succ_cons, setAnnotations, if_pos hun']
        refine .settled hun ?_ (ih rest)
        cases a with
        | none => exact .none hparam
        | some annotation => exact .some hparam

end Settles

/-! ## What is seen of a value -/

/-- What a value that gets annotations below it keeps. -/
structure Seen (v v' : Json) : Prop where
  sort : Json.SameSort v v'
  isNode : v'.isNode = v.isNode
  isTrue : v'.isTrue = v.isTrue
  name : v'.namesReactClass = v.namesReactClass
  param : SameParam v v'
  items : List.Forall₂ SameParam v.items v'.items

/-- A value that is left as it is looks the same. -/
theorem Seen.refl (v : Json) : Seen v v :=
  ⟨.refl v, rfl, rfl, rfl, .refl v, List.forall₂_same.2 fun param _ => .refl param⟩

/-- So does a list of items that look the same. -/
theorem Seen.arr {items items' : List Json} (h : List.Forall₂ Seen items items') :
    Seen (.arr items) (.arr items') := by
  refine ⟨.arr h.length_eq, rfl, by cases h <;> rfl, rfl, ⟨rfl, fun _ => rfl, fun _ _ => rfl⟩, ?_⟩
  exact h.imp fun _ _ hitem => hitem.param

/-- What has become of an entry: metadata stays. -/
def SeenEntry (key : String) (v v' : Json) : Prop := Seen v v' ∧ (key ∈ Json.metadataKeys → v' = v)

section
variable (hrel : l.Rel SeenEntry l') (annotations : List (Option Json))
include hrel

/-- The parameters in a list are the same parameters. -/
theorem itemsAt_seen (key : String) :
    List.Forall₂ SameParam ((Json.obj l).itemsAt key) ((Json.obj l').itemsAt key) := by
  have hentry := hrel.get? key
  simp only [Json.itemsAt, Json.get?]
  generalize Entries.get? l key = a, Entries.get? l' key = b at hentry
  cases hentry with
  | none => exact .nil
  | some hv => exact hv.1.items

/-- Fields are held alike. -/
theorem holds_seen (key : String) : (Json.obj l').holds key = (Json.obj l).holds key := by
  have hentry := hrel.get? key
  simp only [Json.holds, Json.get?]
  generalize Entries.get? l key = a, Entries.get? l' key = b at hentry
  cases hentry with
  | none => rfl
  | some hv => exact hv.1.isTrue

/-- Metadata is the same. -/
theorem get?_seen {key : String} (hkey : key ∈ Json.metadataKeys) :
    (Json.obj l').get? key = (Json.obj l).get? key := by
  have hentry := hrel.get? key
  simp only [Json.get?]
  generalize Entries.get? l key = a, Entries.get? l' key = b at hentry
  cases hentry with
  | none => rfl
  | some hv => exact congrArg some (hv.2 hkey)

/-- Texts are the same. -/
theorem hasText_seen (key text : String) :
    (Json.obj l').hasText key text = (Json.obj l).hasText key text :=
  hasText_of_rel (hrel.mono fun _ _ _ h => h.1.sort) key text

/-- So is the plain kind. -/
theorem plainKind_seen : (Json.obj l').plainKind = (Json.obj l).plainKind := by
  have hentry := hrel.get? "type"
  simp only [Json.plainKind, Json.get?]
  generalize Entries.get? l "type" = a, Entries.get? l' "type" = b at hentry
  cases hentry with
  | none => rfl
  | some hv => cases hv.1.sort <;> rfl

/-- So is whether a React class is created. -/
theorem isCreateReactClassCall_seen :
    isCreateReactClassCall (.obj l') = isCreateReactClassCall (.obj l) := by
  have hentry := hrel.get? "callee"
  simp only [isCreateReactClassCall, hasText_seen hrel, Json.get?]
  generalize Entries.get? l "callee" = a, Entries.get? l' "callee" = b at hentry
  cases hentry with
  | none => rfl
  | some hv => exact congrArg _ hv.1.name

/-- A node that gets annotations among its parameters, and below. -/
theorem seen_annotateParams : Seen (.obj l) (annotateParams annotations (.obj l')) := by
  have hget {key : String} (hkey : key ≠ "params") :=
    get?_annotateParams annotations (.obj l') hkey
  have htext {key : String} (hkey : key ≠ "params") (text : String) :
      (annotateParams annotations (.obj l')).hasText key text =
        (Json.obj l).hasText key text :=
    (Json.hasText_congr (hget hkey) text).trans (hasText_seen hrel key text)
  have hsort : Json.SameSort (.obj l) (annotateParams annotations (.obj l')) := by
    rw [annotateParams]
    split <;> exact .obj _ _
  refine ⟨hsort, (isNode_congr (hget (by decide))).trans (isNode_of_rel hrel),
    ?_, ?_, ⟨?_, fun _ => ?_,
    fun _ => htext (by decide)⟩, ?_⟩
  · have hlength : (Json.obj l').isTrue = (Json.obj l).isTrue := by cases hrel <;> rfl
    rw [annotateParams]
    split
    next params hparams => rw [Json.isTrue_set, ← hlength, Json.isTrue_of_get? hparams]
    next => exact hlength
  · rw [Json.namesReactClass, Json.namesReactClass, htext (by decide), htext (by decide)]
  · refine isUnannotated_congr (htext (by decide) _) ?_
    rw [Json.holds, hget (by decide)]
    exact holds_seen hrel "typeAnnotation"
  · rw [hget (by decide)]
    exact get?_seen hrel (by decide)
  · obtain ⟨l'', hl''⟩ := exists_obj_of_isObject (hsort.isObject_eq.trans rfl)
    rw [hl'']
    exact .nil

end

/-! ## The second stage -/

/-- Nothing that is asked about is in an annotation. -/
def BlankGiven (o : FileOptions) (a : Option Json) : Prop :=
  ∀ annotation, a = some annotation → Blank (ownParams o) annotation

/-- What is collected below a node is still there when its parameters have got
annotations. -/
theorem annotateParams_undisturbed {annotations : List (Option Json)}
    (h : ∀ a ∈ annotations, BlankGiven o a) (n : Json) :
    UndisturbedBelow (ownParams o) n (annotateParams annotations n) := by
  rw [annotateParams]
  split
  next params hparams =>
    refine .set (by decide) (by decide) ?_
    rw [hparams]
    refine .arr
      ((setAnnotations_gets (Q := BlankGiven o) h params).imp fun param param' hgets => ?_)
    rcases hgets with rfl | ⟨hun, a, ha, rfl⟩
    · exact ⟨rfl, .refl _⟩
    · exact annotated_undisturbed (ownParams_markerFree o).ofKinds hun (ha a rfl)
  next => exact .refl n

/-- What a value becomes, and what is left of the annotations. -/
structure Passes (o : FileOptions) (inside : Bool) (s : List (Option Json)) (v v' : Json)
    (s' : List (Option Json)) : Prop where
  seen : Seen v v'
  settles : Settles s (collectAt (ownParams o) inside v) (collectAt (ownParams o) inside v') s'

/-- A value without parameters to ask about is passed by. -/
theorem Passes.of_bare (h : Bare (ownParams o) v) : Passes o inside s v v s := by
  refine ⟨.refl v, ?_⟩
  rw [h inside]
  exact .nil s

/-- A node that asks takes one answer for each open parameter. -/
theorem takeAnnotations_eq (inside : Bool) (n : Json) (s : List (Option Json)) :
    takeAnnotations o inside n s =
      if asksTypes o inside n then
        (s.take (unannotatedParams n).length, s.drop (unannotatedParams n).length)
      else ([], s) := by
  rw [takeAnnotations, awaitsTypes_eq]
  split <;> rfl

/-- The parameters of a function get the answers in order. -/
theorem itemsAt_annotateParams_eq (annotations : List (Option Json)) (n : Json) :
    (annotateParams annotations n).itemsAt "params" =
      setAnnotations annotations (n.itemsAt "params") := by
  rw [annotateParams]
  split
  next params hparams => rw [Json.itemsAt, Json.itemsAt, Json.get?_set_self hparams, hparams]; rfl
  next hnone =>
    have hitems : n.itemsAt "params" = [] := by
      rw [Json.itemsAt]
      split
      next v hv =>
        cases v with
        | arr params => exact absurd hv (hnone params)
        | _ => rfl
      next => rfl
    rw [hitems]
    cases annotations <;> rfl

/-- A node, given what becomes of its entries: its own parameters get the first
annotations. -/
theorem annotateNode_passes (hn : (Json.obj l).isNode = true) (hs : ∀ a ∈ s, BlankGiven o a)
    (ih : ∀ s, (∀ a ∈ s, BlankGiven o a) →
      l.Rel SeenEntry (annotateEntries o (insideOf inside (.obj l)) l s).1 ∧
        Settles s (collectAmong (ownParams o) (insideOf inside (.obj l)) l)
          (collectAmong (ownParams o) (insideOf inside (.obj l))
            (annotateEntries o (insideOf inside (.obj l)) l s).1)
          (annotateEntries o (insideOf inside (.obj l)) l s).2) :
    let own := takeAnnotations o (insideOf inside (.obj l)) (.obj l) s
    let entries := annotateEntries o (insideOf inside (.obj l)) l own.2
    Passes o inside s (.obj l) (annotateParams own.1 (.obj entries.1)) entries.2 := by
  intro own entries
  obtain ⟨hown, hrest⟩ := takeAnnotations_mem o (insideOf inside (.obj l)) (.obj l) hs
  obtain ⟨hrel, hsettles⟩ := ih own.2 hrest
  have hseen : Seen (.obj l) (annotateParams own.1 (.obj entries.1)) := seen_annotateParams hrel _
  refine ⟨hseen, ?_⟩
  have hget {key : String} (hkey : key ≠ "params") :=
    get?_annotateParams own.1 (.obj entries.1) hkey
  have hinside : insideOf inside (annotateParams own.1 (.obj entries.1)) =
      insideOf inside (.obj l) := by
    rw [insideOf_congr (hget (by decide)) (hget (by decide)), insideOf, insideOf,
      isCreateReactClassCall_seen hrel]
  have hbelow : collectBelow (ownParams o) inside (annotateParams own.1 (.obj entries.1)) =
      collectAmong (ownParams o) (insideOf inside (.obj l)) entries.1 := by
    rw [collectBelow, (annotateParams_undisturbed hown _).collected, hinside]
    rfl
  rw [collectAt_of_isNode hn, collectAt_of_isNode (hseen.isNode.trans hn), collectIn_eq,
    collectIn_eq, hinside, hbelow]
  refine Settles.append ?_ hsettles
  have hkind : (annotateParams own.1 (.obj entries.1)).plainKind = (Json.obj l).plainKind :=
    (plainKind_congr (hget (by decide))).trans (plainKind_seen hrel)
  have htake : own = if asksTypes o (insideOf inside (.obj l)) (.obj l) then
      (s.take (unannotatedParams (.obj l)).length, s.drop (unannotatedParams (.obj l)).length)
      else ([], s) := takeAnnotations_eq _ _ s
  rw [ownParams, ownParams, asksTypes_congr hkind, itemsAt_annotateParams_eq]
  split at htake
  next hasks =>
    rw [htake, if_pos hasks, if_pos hasks]
    exact .of_params (itemsAt_seen hrel "params") s
  next hasks =>
    rw [htake, if_neg hasks, if_neg hasks]
    exact .nil s

/-- Two passes, one after the other. -/
theorem annotateEntries_cons (inside : Bool) (key : String) (v : Json) (l : Entries)
    (s : List (Option Json)) : annotateEntries o inside ((key, v) :: l) s =
      let passed := annotateValue o inside (Json.metadataKeys.contains key) v s
      let rest := annotateEntries o inside l passed.2
      ((key, passed.1) :: rest.1, rest.2) := rfl

/-- Items are annotated one after the other. -/
theorem annotateItems_cons (inside : Bool) (l : Entries) (items : List Json)
    (s : List (Option Json)) : annotateItems o inside (.obj l :: items) s =
      let passed := annotateValue o inside false (.obj l) s
      let rest := annotateItems o inside items passed.2
      (passed.1 :: rest.1, rest.2) := rfl

/-- What is collected in a list that begins with an object. -/
theorem collectAt_cons {item : Json} (hobject : item.isObject = true) (rest : List Json) :
    collectAt (ownParams o) inside (.arr (item :: rest)) =
      collectAt (ownParams o) inside item ++ collectAt (ownParams o) inside (.arr rest) := by
  cases hn : item.isNode with
  | true =>
    rw [collectAt_of_isNode hn, collectAt, collectAt, Json.nodes, Json.nodes,
      List.filter_cons_of_pos hn, List.flatMap_cons]
  | false =>
    obtain ⟨l, rfl⟩ := exists_obj_of_isObject hobject
    rw [collectAt_of_not_isNode hn rfl, collectAt, collectAt, Json.nodes, Json.nodes,
      List.filter_cons_of_neg (by simp [hn]), List.nil_append]

mutual

/-- **The annotations are handed out in the order of the questions**, over the entries of
a node. -/
theorem annotateEntries_passes (inside : Bool) :
    ∀ (l : List (String × Json)) (s : List (Option Json)), (∀ a ∈ s, BlankGiven o a) →
    Entries.Rel SeenEntry l (annotateEntries o inside l s).1 ∧
      Settles s (collectAmong (ownParams o) inside l)
        (collectAmong (ownParams o) inside (annotateEntries o inside l s).1)
        (annotateEntries o inside l s).2
  | [], s, _ => ⟨.nil, .nil s⟩
  | (key, value) :: rest, s, hs => by
    have hvalue := annotateValue_passes inside (Json.metadataKeys.contains key) value s hs
    have hrest (s' : List (Option Json)) (hs' : ∀ a ∈ s', a ∈ s) :=
      annotateEntries_passes inside rest s' fun a ha => hs a (hs' a ha)
    rw [annotateEntries_cons]
    cases hmeta : Json.metadataKeys.contains key with
    | true =>
      rw [hmeta] at hvalue
      obtain ⟨hrel, hsettles⟩ := hrest s fun _ ha => ha
      have hskipped (v : Json) : collectUnder (ownParams o) inside key v = [] := if_pos hmeta
      have hpassed : annotateValue o inside true value s = (value, s) := hvalue
      simp only [hpassed, collectAmong_cons, hskipped, List.nil_append]
      exact ⟨.cons ⟨rfl, .refl value, fun _ => rfl⟩ hrel, hsettles⟩
    | false =>
      rw [hmeta] at hvalue
      have hpassed : Passes o inside s value _ _ := hvalue
      obtain ⟨hrel, hsettles⟩ := hrest _ fun _ ha => hpassed.settles.mem ha
      have hwalked (v : Json) :
          collectUnder (ownParams o) inside key v = collectAt (ownParams o) inside v :=
        if_neg (by rw [hmeta]; exact Bool.false_ne_true)
      simp only [collectAmong_cons, hwalked]
      refine ⟨.cons ⟨rfl, hpassed.seen, fun hmem => ?_⟩ hrel, hpassed.settles.append hsettles⟩
      rw [List.contains_iff_mem.2 hmem] at hmeta
      cases hmeta

/-- So they are over a value. -/
theorem annotateValue_passes (inside isMetadata : Bool) :
    ∀ (v : Json) (s : List (Option Json)), (∀ a ∈ s, BlankGiven o a) →
    if isMetadata then annotateValue o inside isMetadata v s = (v, s)
    else Passes o inside s v (annotateValue o inside isMetadata v s).1
      (annotateValue o inside isMetadata v s).2
  | .arr items, s, hs => by
    have hitems := annotateItems_passes inside items s hs
    rw [annotateValue]
    cases isMetadata with
    | true => rfl
    | false => exact ⟨.arr hitems.1, hitems.2⟩
  | .obj l, s, hs => by
    have hnode (hn : (Json.obj l).isNode = true) :=
      annotateNode_passes hn hs (annotateEntries_passes (insideOf inside (.obj l)) l)
    rw [annotateValue]
    cases isMetadata with
    | true => rfl
    | false =>
      have hcontains : Entries.contains l "type" = (Json.obj l).isNode := by
        rw [Erasure.isNode_eq, Entries.contains_eq_isSome]
        rfl
      rw [hcontains, Bool.or_comm inside]
      cases hn : (Json.obj l).isNode with
      | false => exact .of_bare (Blank.of_not_isNode hn rfl).bare
      | true => exact hnode hn
  | .null, s, hs | .bool _, s, hs | .int _, s, hs | .double _, s, hs | .str _, s, hs => by
    cases isMetadata with
    | true => rfl
    | false => exact .of_bare (Blank.of_not_isNode rfl rfl).bare

/-- So they are over the items of a list. -/
theorem annotateItems_passes (inside : Bool) :
    ∀ (items : List Json) (s : List (Option Json)), (∀ a ∈ s, BlankGiven o a) →
    List.Forall₂ Seen items (annotateItems o inside items s).1 ∧
      Settles s (collectAt (ownParams o) inside (.arr items))
        (collectAt (ownParams o) inside (.arr (annotateItems o inside items s).1))
        (annotateItems o inside items s).2
  | [], s, hs => ⟨.nil, .nil s⟩
  | .obj l :: rest, s, hs => by
    have hitem : Passes o inside s (.obj l) _ _ := annotateValue_passes inside false (.obj l) s hs
    have hrest := annotateItems_passes inside rest _ fun a ha => hs a (hitem.settles.mem ha)
    rw [annotateItems_cons]
    refine ⟨.cons hitem.seen hrest.1, ?_⟩
    rw [collectAt_cons rfl, collectAt_cons (hitem.seen.sort.isObject_eq.trans rfl)]
    exact hitem.settles.append hrest.2
  | .null :: rest, s, hs | .bool _ :: rest, s, hs | .int _ :: rest, s, hs
  | .double _ :: rest, s, hs | .str _ :: rest, s, hs | .arr _ :: rest, s, hs => by
    have hrest := annotateItems_passes inside rest s hs
    exact ⟨.cons (.refl _) hrest.1, hrest.2⟩

end

/-- **Each open parameter in the tree gets the next annotation.** -/
theorem annotateWaiting_settles {annotations : List (Option Json)} {tree : Json}
    (hn : tree.isNode = true) (h : ∀ a ∈ annotations, BlankGiven o a) :
    ∃ left, Settles annotations (paramsIn o tree)
      (paramsIn o (annotateWaiting o annotations tree)) left := by
  obtain ⟨l, rfl⟩ := exists_obj_of_isObject (isObject_of_isNode hn)
  have hpasses := annotateNode_passes hn h
    (annotateEntries_passes (insideOf false (.obj l)) l)
  have hsettles := hpasses.settles
  rw [collectAt_of_isNode hn, collectAt_of_isNode (hpasses.seen.isNode.trans hn), insideOf,
    Bool.or_comm] at hsettles
  exact ⟨_, hsettles⟩

end Retype.Migration
