import Retype.Proofs.Migration.Retyped
import Retype.Proofs.Migration.Yields
/-!
# What a walk keeps

A walk keeps what is left of every well-placed value if the visitor does, on
the way down (`Entered`) and on the way up (`Leaves`). The invariant is
`Visited`; the induction is on the fuel, with the children's invariant as the
hypothesis of the parent's lemma (`children_kept`).

Types are no part of the invariant: of a node in the type level nothing is
known but that it stays a node, and that it marks no parent other than a name.
-/

namespace Retype.Migration

open Json (SameSort)
open Syntax (Place Frame Visit Visitor Walked)

variable {e : Erasure}

/-! ## The invariant -/

/-- The fields that a node at a place gives its parent: a marker, and only to
a name. -/
def MarksName (place : Place) (n : Json) (fields : Entries) : Prop :=
  ∀ field ∈ fields, field.1 = "optional" ∧ place.parentKind? n = some "Identifier"

/-- What is known of a node and of what a visitor makes of it on the way down. -/
structure Entered (e : Erasure) (place : Place) (n : Json) (visit : Visit) : Prop where
  isNode : visit.node.isNode = true
  kept : e.wellPlaced n = true → e.wellPlaced visit.node = true ∧ Kept e n visit.node
  marks : MarksName place n visit.parentFields

/-- What is known of a node when a visitor leaves it. -/
structure Settled (e : Erasure) (n : Json) : Prop where
  kind : ∃ kind, n.get? "type" = some (.str kind)
  unmarked : e.defaultUnmarked n = true
  params : n.kindIn typeOnlyKinds = false →
    ∀ param ∈ n.itemsAt "params", e.defaultUnmarked param = true

/-- What is known of a node and of what a visitor makes of it on the way up. -/
structure Left (e : Erasure) (n left : Json) : Prop where
  isObject : left.isObject = true
  kept : Settled e n → Kept e n left ∧ e.defaultUnmarked left = true

/-- **The invariant of the walk.** What is known of a node and of what has
come of it. -/
structure Visited (e : Erasure) (place : Place) (n : Json) (w : Walked Json) : Prop where
  isObject : w.present.isObject = true
  kept : e.wellPlaced n = true → Kept e n w.present ∧ e.defaultUnmarked w.present = true
  marks : MarksName place n w.parentFields

/-- A visitor that keeps what is left of each node. -/
structure Respects (e : Erasure) (visitor : Visitor Rewrite) : Prop where
  enter (place : Place) (n : Json) (hn : n.isNode = true) :
    (visitor.enter place n).Yields (Entered e place n)
  leave (place : Place) (n : Json) (hn : n.isObject = true) :
    (visitor.leave place n).Yields (Left e n)

/-! ## Nodes, and values that are none -/

theorem isObject_of_isNode {n : Json} (h : n.isNode = true) : n.isObject = true := by
  cases n with
  | obj l => rfl
  | _ => cases h

theorem exists_obj_of_isObject {n : Json} (h : n.isObject = true) : ∃ l, n = .obj l := by
  cases n with
  | obj l => exact ⟨l, rfl⟩
  | _ => cases h

theorem defaultUnmarked_of_not_isNode {v : Json} (h : v.isNode = false) :
    e.defaultUnmarked v = true := by
  rw [Erasure.isNode_eq] at h
  have hnone : v.get? "type" = none := by simpa using h
  simp [Erasure.defaultUnmarked, Json.hasText, hnone]

theorem isRuntimeNode_of_wellPlaced {n : Json} (hn : n.isNode = true)
    (h : e.wellPlaced n = true) : e.isRuntimeNode n = true := by
  obtain ⟨l, rfl⟩ := exists_obj_of_isObject (isObject_of_isNode hn)
  exact ((Erasure.wellPlaced_obj_iff l hn).1 h).1

theorem defaultUnmarked_of_wellPlaced {v : Json} (h : e.wellPlaced v = true) :
    e.defaultUnmarked v = true := by
  cases hn : v.isNode with
  | false => exact defaultUnmarked_of_not_isNode hn
  | true =>
    have := isRuntimeNode_of_wellPlaced hn h
    simp only [Erasure.isRuntimeNode, Bool.and_eq_true] at this
    exact this.2

/-- The kind of a well-placed node is a text, and none of a type. -/
theorem kind_of_wellPlaced {n : Json} (hn : n.isNode = true) (h : e.wellPlaced n = true) :
    ∃ kind, n.get? "type" = some (.str kind) ∧ kind ∉ Erasure.typeNodeKinds := by
  have := isRuntimeNode_of_wellPlaced hn h
  simp only [Erasure.isRuntimeNode, Bool.and_eq_true] at this
  have hkind := this.1
  split at hkind
  next kind hget => exact ⟨kind, hget, by simpa using hkind⟩
  next => cases hkind

/-! ## Lists -/

/-- What is known of an item and of what has come of it. -/
def ItemKept (e : Erasure) (v v' : Json) : Prop :=
  e.wellPlaced v = true → Kept e v v' ∧ e.defaultUnmarked v' = true

theorem ItemKept.refl (v : Json) : ItemKept e v v :=
  fun h => ⟨.refl v, defaultUnmarked_of_wellPlaced h⟩

theorem kept_arr {items items' : List Json} (h : List.Forall₂ (ItemKept e) items items')
    (hplaced : e.wellPlaced (.arr items) = true) :
    Kept e (.arr items) (.arr items') ∧ ∀ item ∈ items', e.defaultUnmarked item = true := by
  rw [Erasure.wellPlaced, Erasure.itemsWellPlaced_iff] at hplaced
  have hfacts : List.Forall₂ (fun v v' => e.erase v' = e.erase v) items items' ∧
      ∀ item ∈ items', e.defaultUnmarked item = true := by
    induction h with
    | nil => exact ⟨.nil, fun item hi => absurd hi List.not_mem_nil⟩
    | @cons v v' vs vs' hv _ ih =>
      obtain ⟨hkept, hunmarked⟩ := hv (hplaced v List.mem_cons_self)
      obtain ⟨herase, hall⟩ := ih fun item hi => hplaced item (List.mem_cons_of_mem _ hi)
      refine ⟨.cons hkept.erases herase, fun item hi => ?_⟩
      rcases List.mem_cons.1 hi with rfl | hi
      · exact hunmarked
      · exact hall item hi
  exact ⟨⟨Erasure.erase_arr_congr hfacts.1, fun _ => rfl⟩, hfacts.2⟩

/-! ## Entries -/

/-- What is known of the value of an entry and of what has come of it. -/
def EntryKept (e : Erasure) (owner : Json) (key : String) (v v' : Json) : Prop :=
  SameSort v v' ∧ (isTypeLevel owner key = false → e.wellPlaced v = true →
    Kept e v v' ∧ ∀ item ∈ v'.items, e.defaultUnmarked item = true)

theorem EntryKept.refl (owner : Json) (key : String) (v : Json) : EntryKept e owner key v v := by
  refine ⟨.refl v, fun _ h => ⟨.refl v, fun item hi => ?_⟩⟩
  cases v with
  | arr items =>
    rw [Erasure.wellPlaced, Erasure.itemsWellPlaced_iff] at h
    exact defaultUnmarked_of_wellPlaced (h item hi)
  | _ => cases hi

/-- A text is found again in entries that were walked. -/
theorem get?_text_of_rel {l l' : Entries} (h : l.Rel (fun _ => SameSort) l') {key text : String}
    (hget : l.get? key = some (.str text)) : l'.get? key = some (.str text) := by
  have hrel := h.get? key
  rw [hget] at hrel
  generalize l'.get? key = b at hrel
  cases hrel with
  | some hv => rw [hv.eq_of_str]

/-- The part of a node that was walked. -/
theorem kept_of_rel {l l' : Entries} (h : l.Rel (EntryKept e (.obj l)) l') {key : String}
    {v' : Json} (hlevel : isTypeLevel (.obj l) key = false)
    (hplaced : ∀ entry ∈ l, isTypeLevel (.obj l) entry.1 = true ∨ e.wellPlaced entry.2 = true)
    (hget : l'.get? key = some v') :
    ∃ v, l.get? key = some v ∧ Kept e v v' ∧ ∀ item ∈ v'.items, e.defaultUnmarked item = true := by
  have hrel := h.get? key
  rw [hget] at hrel
  generalize ha : l.get? key = a at hrel
  cases hrel with
  | @some v _ hv =>
    have hv' : e.wellPlaced v = true :=
      (hplaced _ (Entries.mem_of_get? ha)).resolve_left (by simp [hlevel])
    exact ⟨v, rfl, hv.2 hlevel hv'⟩

/-- The fields that children give a node change nothing that is seen of it. -/
theorem setAll_retyped {l fields : Entries}
    (hfields : ∀ field ∈ fields,
      field.1 = "optional" ∧ (Json.obj l).hasText "type" "Identifier" = true) :
    Retyped e (.obj l) (.obj (Entries.setAll l fields)) ∧
      ∀ key ≠ "optional", (Entries.setAll l fields).get? key = l.get? key := by
  induction fields generalizing l with
  | nil => exact ⟨.refl _, fun _ _ => rfl⟩
  | cons field rest ih =>
    obtain ⟨key, v⟩ := field
    obtain ⟨rfl, hname⟩ : key = "optional" ∧ (Json.obj l).hasText "type" "Identifier" = true :=
      hfields _ List.mem_cons_self
    have hset : Retyped e (.obj l) (.obj (Entries.set l "optional" v)) :=
      .set_typeLevel (.obj l) (by simp [isTypeLevel, hname]) (by decide) v
    obtain ⟨hrest, hgets⟩ := ih (l := Entries.set l "optional" v) fun field hf =>
      ⟨(hfields field (List.mem_cons_of_mem _ hf)).1, by
        rw [Json.hasText_congr hset.kind]; exact hname⟩
    exact ⟨hset.trans hrest, fun key hkey => (hgets key hkey).trans (Entries.get?_set_ne hkey v)⟩

/-- **What is left of a node whose children were walked.** -/
theorem children_kept {l l' fields : Entries} (hn : (Json.obj l).isNode = true)
    (hplaced : e.wellPlaced (.obj l) = true) (h : l.Rel (EntryKept e (.obj l)) l')
    (hfields : ∀ field ∈ fields,
      field.1 = "optional" ∧ (Json.obj l).hasText "type" "Identifier" = true) :
    Kept e (.obj l) (.obj (Entries.setAll l' fields)) ∧
      Settled e (.obj (Entries.setAll l' fields)) := by
  have sorts : l.Rel (fun _ => SameSort) l' := h.mono fun _ _ _ hv => hv.1
  have outside : SameOutside (.obj l) (.obj l') := .of_rel sorts
  have hparts := ((Erasure.wellPlaced_obj_iff l hn).1 hplaced).2
  obtain ⟨kind, hkind, -⟩ := kind_of_wellPlaced hn hplaced
  obtain ⟨hretyped, hgets⟩ : Retyped e (.obj l') (.obj (Entries.setAll l' fields)) ∧ _ :=
    setAll_retyped fun field hf => ⟨(hfields field hf).1, by
      rw [outside.kind]; exact (hfields field hf).2⟩
  have hkept : Kept e (.obj l) (.obj l') := by
    constructor
    · cases honly : (Json.obj l).kindIn typeOnlyKinds with
      | true =>
        simp [Erasure.erase, Erasure.ofParts, outside.kindIn, honly]
      | false =>
        refine Erasure.erase_obj_congr
          (h.mono_of_mem fun key v v' hmem hv => ⟨hv.1, fun hlevel => ?_⟩)
        have hv' : e.wellPlaced v = true := (hparts honly _ hmem).resolve_left (by simp [hlevel])
        rw [(hv.2 hlevel hv').1.erases]
    · intro hfree
      simp only [Erasure.markerFree, outside.kind, Bool.or_eq_true] at hfree ⊢
      refine hfree.imp_right fun hnone => ?_
      -- a walk adds no key, so there is no marker afterwards either
      have hrel := sorts.get? "optional"
      simp only [Json.get?] at hnone ⊢
      generalize l.get? "optional" = a, l'.get? "optional" = b at hrel hnone
      cases hrel with
      | none => rfl
      | some => cases hnone
  have hkind' : (Json.obj (Entries.setAll l' fields)).get? "type" = some (.str kind) :=
    hretyped.kind.trans (get?_text_of_rel sorts hkind)
  have hkinds (name : String) : (Json.obj (Entries.setAll l' fields)).hasText "type" name =
      (Json.obj l).hasText "type" name := by
    rw [Json.hasText_congr hretyped.kind, outside.kind]
  refine ⟨hkept.trans hretyped.toKept, ⟨kind, hkind'⟩, ?_, fun honly param hparam => ?_⟩
  · -- a pattern with a default value is no declaration of types, so its left side was walked
    cases hdefault : kind == "AssignmentPattern" with
    | false => simp [Erasure.defaultUnmarked, hasText_of_kind hkind', hdefault]
    | true =>
      have hbefore := defaultUnmarked_of_wellPlaced hplaced
      simp only [Erasure.defaultUnmarked, hkinds, Bool.or_eq_true, Bool.not_eq_true'] at hbefore ⊢
      refine hbefore.imp_right fun hleft => ?_
      have honly : (Json.obj l).kindIn typeOnlyKinds = false := by
        rw [kindIn_of_kind hkind, eq_of_beq hdefault]
        rfl
      simp only [Json.get?, hgets "left" (by decide)] at hleft ⊢
      cases hget : l'.get? "left" with
      | none => rfl
      | some v' =>
        obtain ⟨v, hv, hkeptLeft, -⟩ := kept_of_rel h (by rfl) (hparts honly) hget
        rw [hv] at hleft
        exact hkeptLeft.free hleft
  · have honly : (Json.obj l).kindIn typeOnlyKinds = false := by
      simpa only [Json.kindIn, hkinds] using honly
    simp only [Json.itemsAt, Json.get?, hgets "params" (by decide)] at hparam
    split at hparam
    next v' hget =>
      obtain ⟨v, -, -, hitems⟩ := kept_of_rel h (by rfl) (hparts honly) hget
      exact hitems param hparam
    next => cases hparam

/-! ## The children -/

section
variable {visit : Place → Json → Rewrite (Walked Json)}
  (hvisit : ∀ place n, n.isNode = true → (visit place n).Yields (Visited e place n))

/-- Fields that are markers, given to a parent for which a condition holds. -/
def MarksIf (condition : Prop) (fields : Entries) : Prop :=
  ∀ field ∈ fields, field.1 = "optional" ∧ condition

theorem MarksIf.nil {condition : Prop} : MarksIf condition [] :=
  fun _ h => absurd h List.not_mem_nil

theorem MarksIf.append {condition : Prop} {fields fields' : Entries}
    (h : MarksIf condition fields) (h' : MarksIf condition fields') :
    MarksIf condition (fields ++ fields') := by
  intro field hf
  exact (List.mem_append.1 hf).elim (h field) (h' field)

include hvisit in
/-- The items of a list. The places of all items show a parent with a list of
the same length, so one condition on the parent serves them all. -/
theorem walkItems_yields {frame : List Json → List Json → Frame} {up : Place} {marks : Prop}
    {items : List Json}
    (hframe : ∀ left item right, left.length + (right.length + 1) = items.length →
      Place.parentKind? (frame left right :: up) item = some "Identifier" → marks) :
    ∀ (done : Walked (List Json)) (before rest : List Json), before ++ rest = items →
      List.Forall₂ (ItemKept e) before done.present → MarksIf marks done.parentFields →
      (Syntax.walkItems visit frame up done rest).Yields fun w =>
        List.Forall₂ (ItemKept e) items w.present ∧ MarksIf marks w.parentFields := by
  intro done before rest
  induction rest generalizing done before with
  | nil =>
    rintro rfl hdone hmarks
    rw [List.append_nil]
    exact .pure ⟨hdone, hmarks⟩
  | cons item rest ih =>
    intro hsplit hdone hmarks
    have next (w : Walked Json) (hitem : ItemKept e item w.present)
        (hw : MarksIf marks w.parentFields) :
        (Syntax.walkItems visit frame up (done.snoc w) rest).Yields fun w =>
          List.Forall₂ (ItemKept e) items w.present ∧ MarksIf marks w.parentFields :=
      ih (done.snoc w) (before ++ [item]) (by simpa using hsplit)
        (List.rel_append hdone (.cons hitem .nil)) (hmarks.append hw)
    rw [Syntax.walkItems]
    refine .ite (fun hn => ?_) fun _ => .bind (.pure (next (Walked.same item) (.refl item) .nil))
    refine .bind ((hvisit _ _ hn).mono fun w hw => next w hw.kept fun field hf => ?_)
    -- what was walked and what is to come make up the whole list
    obtain ⟨hkey, hparent⟩ := hw.marks field hf
    refine ⟨hkey, hframe _ item _ ?_ hparent⟩
    rw [← hdone.length_eq, ← hsplit]
    simp

include hvisit in
/-- The value of an entry. -/
theorem walkEntry_yields {up : Place} {before after : Entries} {key : String} {marks : Prop}
    (owner v : Json)
    (hparent : ∀ v', SameSort v v' →
      (Json.obj (before ++ (key, v') :: after)).kind = "Identifier" → marks) :
    (Syntax.walkEntry visit up before key after v).Yields fun w =>
      EntryKept e owner key v w.present ∧ MarksIf marks w.parentFields := by
  have single (h : ∀ items, v ≠ .arr items) (hn : v.isNode = true) :
      (visit (⟨before, key, none, after⟩ :: up) v).Yields fun w =>
        EntryKept e owner key v w.present ∧ MarksIf marks w.parentFields := by
    refine (hvisit _ _ hn).mono fun w hw => ⟨⟨?_, fun _ hplaced => ⟨(hw.kept hplaced).1, ?_⟩⟩, ?_⟩
    · exact .of_isObject (isObject_of_isNode hn) hw.isObject
    · obtain ⟨l, hl⟩ := exists_obj_of_isObject hw.isObject
      rw [hl]
      nofun
    · intro field hf
      obtain ⟨hkey, hname⟩ := hw.marks field hf
      exact ⟨hkey, hparent v (.refl v) (by simpa [Place.parentKind?, Place.parent?,
        Place.ancestors, Frame.fill] using hname)⟩
  cases v with
  | arr items =>
    rw [Syntax.walkEntry]
    refine .bind ((walkItems_yields hvisit ?_ (Walked.same []) [] items rfl .nil .nil).mono
      fun w hw => .pure ⟨⟨.arr hw.1.length_eq, fun _ hplaced => kept_arr hw.1 hplaced⟩, hw.2⟩)
    intro left item right hlength hname
    refine hparent (.arr (left ++ item :: right)) (.arr ?_) ?_
    · simpa using hlength.symm
    · simpa [Place.parentKind?, Place.parent?, Place.ancestors, Frame.fill] using hname
  | _ =>
    rw [Syntax.walkEntry]
    · exact .ite (single nofun) fun _ => .pure ⟨.refl _ _ _, .nil⟩
    · nofun

include hvisit in
/-- The entries of a node, of which some were walked before. -/
theorem walkEntries_yields {up : Place} {l : Entries} :
    ∀ (done : Walked Entries) (before rest : Entries), before ++ rest = l →
      before.Rel (EntryKept e (.obj l)) done.present →
      MarksIf ((∃ kind, l.get? "type" = some (.str kind)) →
        (Json.obj l).hasText "type" "Identifier" = true) done.parentFields →
      (Syntax.walkEntries visit up done rest).Yields fun w =>
        l.Rel (EntryKept e (.obj l)) w.present ∧
        MarksIf ((∃ kind, l.get? "type" = some (.str kind)) →
          (Json.obj l).hasText "type" "Identifier" = true) w.parentFields := by
  intro done before rest
  induction rest generalizing done before with
  | nil =>
    rintro rfl hdone hmarks
    rw [List.append_nil] at hmarks ⊢
    rw [List.append_nil] at hdone
    exact .pure ⟨hdone, hmarks⟩
  | cons entry rest ih =>
    obtain ⟨key, v⟩ := entry
    intro hsplit hdone hmarks
    have next (w : Walked Json) (hentry : EntryKept e (.obj l) key v w.present)
        (hw : MarksIf ((∃ kind, l.get? "type" = some (.str kind)) →
          (Json.obj l).hasText "type" "Identifier" = true) w.parentFields) :=
      ih (done.snoc (w.under key)) (before ++ [(key, v)]) (by simpa using hsplit)
        (Entries.Rel.append hdone (.cons ⟨rfl, hentry⟩ .nil)) (hmarks.append hw)
    rw [Syntax.walkEntries]
    refine .ite (fun _ => .bind (.pure (next (Walked.same v) (.refl _ _ _) .nil))) fun _ => ?_
    refine .bind ((walkEntry_yields hvisit (.obj l) v ?_).mono fun w hw => next w hw.1 hw.2)
    -- the parent that the child sees is the node with some entries walked, so a name is a name
    rintro v' hv' hname ⟨kind, hkind⟩
    have hrel : l.Rel (fun _ => SameSort) (done.present ++ (key, v') :: rest) := by
      rw [← hsplit]
      refine Entries.Rel.append (hdone.mono fun _ _ _ h => h.1) (.cons ⟨rfl, hv'⟩ ?_)
      exact List.forall₂_same.2 fun entry _ => ⟨rfl, SameSort.refl entry.2⟩
    have hkind' := get?_text_of_rel hrel hkind
    rw [kind_of_kind (n := .obj _) hkind'] at hname
    rw [hasText_of_kind (n := .obj l) hkind, hname]
    rfl

include hvisit in
/-- The children of a node. -/
theorem walkChildren_yields {place : Place} {n : Json} (hn : n.isNode = true) :
    (Syntax.walkChildren visit place n).Yields fun w =>
      w.present.isObject = true ∧
        (e.wellPlaced n = true → Kept e n w.present ∧ Settled e w.present) := by
  obtain ⟨l, rfl⟩ := exists_obj_of_isObject (isObject_of_isNode hn)
  rw [Syntax.walkChildren]
  refine .bind ((walkEntries_yields hvisit (Walked.same []) [] l rfl .nil .nil).mono
    fun w hw => .pure ⟨rfl, fun hplaced => children_kept hn hplaced hw.1 fun field hf => ?_⟩)
  obtain ⟨kind, hkind, -⟩ := kind_of_wellPlaced hn hplaced
  exact ⟨(hw.2 field hf).1, (hw.2 field hf).2 ⟨kind, hkind⟩⟩

end

/-! ## The walk -/

/-- **A walk keeps what is left of every well-placed node**, however far its
fuel takes it. -/
theorem walk_yields {visitor : Visitor Rewrite} (hvisitor : Respects e visitor) (fuel : Nat) :
    ∀ (place : Place) (n : Json), n.isNode = true →
      (Syntax.walk visitor fuel place n).Yields (Visited e place n) := by
  induction fuel with
  | zero =>
    intro place n hn
    exact .pure ⟨isObject_of_isNode hn, fun hplaced =>
      ⟨.refl n, defaultUnmarked_of_wellPlaced hplaced⟩, fun _ h => absurd h List.not_mem_nil⟩
  | succ fuel ih =>
    intro place n hn
    rw [Syntax.walk]
    refine .bind ((hvisitor.enter place n hn).mono fun entered hentered => ?_)
    refine .bind ((walkChildren_yields ih hentered.isNode).mono fun inside hinside => ?_)
    refine .bind ((hvisitor.leave place inside.present hinside.1).mono fun left hleft => ?_)
    refine .pure ⟨hleft.isObject, fun hplaced => ?_, hentered.marks⟩
    -- down, through the children, and up again
    obtain ⟨hplaced', hkept⟩ := hentered.kept hplaced
    obtain ⟨hchildren, hsettled⟩ := hinside.2 hplaced'
    obtain ⟨hkeptLeft, hunmarked⟩ := hleft.kept hsettled
    exact ⟨(hkept.trans hchildren).trans hkeptLeft, hunmarked⟩

/-- A node that keeps its place is what has become of itself. -/
theorem walk_former {visitor : Visitor Rewrite} {place : Place} {n : Json}
    (henter : (visitor.enter place n).Yields fun visit => visit.handed.isNone = true) (fuel : Nat) :
    (Syntax.walk visitor fuel place n).Yields fun w => w.former = w.present := by
  cases fuel with
  | zero => exact .pure rfl
  | succ fuel =>
    rw [Syntax.walk]
    refine .bind (henter.mono fun entered hentered => ?_)
    refine .bind (.trivial _ fun inside => .bind (.trivial _ fun left => .pure ?_))
    rw [Option.isNone_iff_eq_none] at hentered
    simp only [hentered]

/-- The kinds of the roots of trees. -/
def rootKinds : List String := ["File", "Program"]

theorem isNode_of_root {tree : Json} (hroot : tree.kind ∈ rootKinds) : tree.isNode = true := by
  rw [Erasure.isNode_eq, Option.isSome_iff_ne_none]
  intro hnone
  simp [rootKinds, Json.kind, Json.textAt, hnone, Json.text, Json.quoted] at hroot

/-- What a walk makes of a root is the tree: a root has no rule on the way
down, so it keeps its place. -/
theorem walkTree_yields_present {o : FileOptions} {tree : Json} {fuel : Nat} {P : Json → Prop}
    (hroot : tree.kind ∈ rootKinds)
    (h : (Syntax.walk (rewriter o) fuel [] tree).Yields fun w => P w.present) :
    (Syntax.walkTree (rewriter o) fuel tree).Yields P := by
  have henter : ((rewriter o).enter [] tree).Yields fun visit => visit.handed.isNone = true := by
    have hrule : enterRule? tree.kind = none := by
      simp only [rootKinds, List.mem_cons, List.not_mem_nil, or_false] at hroot
      rcases hroot with hkind | hkind <;> rw [hkind] <;> rfl
    rw [rewriter]
    simp only [hrule]
    exact .pure rfl
  rw [Syntax.walkTree]
  refine .bind ((h.and (walk_former henter fuel)).mono fun w hw => .pure ?_)
  rw [hw.2]
  exact hw.1

end Retype.Migration
