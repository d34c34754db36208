import Retype.Proofs.Migration.Collecting
/-!
# What is met of what is collected

A walk meets the nodes of a tree in the order in which things are collected in
it. What the meetings of a walk account for is all that is collected in the
tree (`rewriteNoting_takes`), provided that a node that is entered is as good
as what its meeting accounts for, and what is below (`Takes`).
-/

namespace Retype.Migration

open Json (Looks)
open Syntax (Place Frame Walked Meeting)

variable {α : Type} {own : Bool → Json → List α} {taken : Meeting → List α} {p : Json → Bool}
  {o : FileOptions} {place : Place} {n m : Json} {k : Nat} {inside : Bool}

/-- What is known of a node that was entered: what is collected in it is what
the meeting accounts for, and what is collected below what took its place. -/
structure Takes (own : Bool → Json → List α) (taken : Meeting → List α) (p : Json → Bool) (k : Nat)
    (place : Place) (n m : Json) : Prop where
  isNode : m.isNode = true
  looks : Looks n m
  collected : collectIn own (siteAt place n).inside n =
    taken ⟨place, n, m⟩ ++ collectBelow own (siteAt place n).inside m
  plain : AllBelow (PlainMarker own) m
  keys : ((entriesOf m).map (·.1)).Nodup
  parts : DueParts True (Everywhere p) k m

/-- What a visit of a node notes accounts for what is collected in the node. -/
structure Noted (own : Bool → Json → List α) (taken : Meeting → List α) (inside : Bool) (n : Json)
    (new : List Meeting) (w : Walked Json) : Prop where
  collected : collectIn own inside n = new.flatMap taken
  markers : OnlyMarkers w.parentFields
  looks : Looks n w.present

section
variable {visit : Place → Json → Noting (Walked Json)}
  (hvisit : ∀ place n, n.isNode = true → Due True (Everywhere p) k n →
    AllBelow (PlainMarker own) n →
    Noting.Notes (visit place n) (Noted own taken (siteAt place n).inside n))
include hvisit

theorem walkItems_takes {frame : List Json → List Json → Frame} {up : Place} {items : List Json}
    (done : Walked (List Json)) (hdone : OnlyMarkers done.parentFields)
    (hframe : items ≠ [] → ∀ left item right,
      (siteAt (frame left right :: up) item).inside = inside)
    (hdue : ∀ item ∈ items, Due True (Everywhere p) k item)
    (hplain : AllInside (PlainMarker own) (.arr items)) :
    Noting.Notes (Syntax.walkItems visit frame up done items) fun new w =>
      collectAt own inside (.arr items) = new.flatMap taken ∧ OnlyMarkers w.parentFields ∧
        w.present.length = done.present.length + items.length := by
  induction items generalizing done with
  | nil => exact .pure ⟨rfl, hdone, rfl⟩
  | cons item rest ih =>
    rw [List.forall_mem_cons] at hdue
    have hbelow := allInside_arr_iff.1 hplain
    rw [List.forall_mem_cons] at hbelow
    have hrest : AllInside (PlainMarker own) (.arr rest) := allInside_arr_iff.2 hbelow.2
    have hlength (w : Walked Json) : (done.snoc w).present.length + rest.length =
        done.present.length + (item :: rest).length := by
      simp only [Walked.snoc, List.length_append, List.length_cons, List.length_nil]
      omega
    rw [Syntax.walkItems]
    refine .ite (fun hn => .bind ?_) fun hn => .bind (.pure ?_)
    · refine (hvisit _ _ hn hdue.1 (hbelow.1 hn)).mono fun new w hw => ?_
      refine (ih (done.snoc w) (hdone.append hw.markers) (fun _ => hframe (List.cons_ne_nil _ _))
        hdue.2 hrest).mono fun more w' hw' => ⟨?_, hw'.2.1, hw'.2.2.trans (hlength w)⟩
      rw [List.flatMap_append, ← hw.collected, ← hw'.1, hframe (List.cons_ne_nil _ _)]
      simp [collectAt, Json.nodes, hn]
    · refine (ih (done.snoc (Walked.same item)) (hdone.append .nil)
        (fun _ => hframe (List.cons_ne_nil _ _)) hdue.2 hrest).mono
        fun more w' hw' => ⟨?_, hw'.2.1, hw'.2.2.trans (hlength _)⟩
      rw [List.nil_append, ← hw'.1]
      simp [collectAt, Json.nodes, hn]

theorem walkEntry_takes {up : Place} {before after : Entries} {key : String} {v : Json}
    (hsite : ∀ (f : Frame) (child v' : Json), Looks v v' →
      f.fill child = .obj (before ++ (key, v') :: after) →
      (siteAt (f :: up) child).inside = inside)
    (hdue : Due True (Everywhere p) k v) (hplain : AllInside (PlainMarker own) v) :
    Noting.Notes (Syntax.walkEntry visit up before key after v) fun new w =>
      collectAt own inside v = new.flatMap taken ∧ OnlyMarkers w.parentFields ∧
        Looks v w.present := by
  unfold Syntax.walkEntry
  split
  next items =>
    have hframe (hne : items ≠ []) (left : List Json) (item : Json) (right : List Json) :
        (siteAt (⟨before, key, some (left, right), after⟩ :: up) item).inside = inside := by
      refine hsite _ _ (.arr (left ++ item :: right)) (.arr ?_) rfl
      rw [Json.isTrue, Json.isTrue, List.isEmpty_eq_false_iff.2 hne,
        List.isEmpty_eq_false_iff.2 (List.append_ne_nil_of_right_ne_nil _ (List.cons_ne_nil _ _))]
    refine .bind ((walkItems_takes hvisit (Walked.same []) .nil hframe hdue.items hplain).mono
      fun new w hw => .pure ?_)
    obtain ⟨hcollected, hmarkers, hlength⟩ := hw
    rw [List.append_nil]
    refine ⟨hcollected, hmarkers, .arr ?_⟩
    have hsame : w.present.length = items.length := by simpa [Walked.same] using hlength
    rw [Json.isTrue, Json.isTrue]
    cases items with
    | nil => rw [List.length_eq_zero_iff.1 hsame]
    | cons item rest =>
      have hne : w.present ≠ [] := List.ne_nil_of_length_pos (by rw [hsame]; exact Nat.succ_pos _)
      rw [List.isEmpty_eq_false_iff.2 hne]
      rfl
  next hlist =>
    refine .ite (fun hn => ?_) fun hn => .pure ⟨?_, .nil, .refl v⟩
    · rw [collectAt_of_isNode hn]
      refine (hvisit _ _ hn hdue (hplain.node hn)).mono fun new w hw => ?_
      rw [hsite ⟨before, key, none, after⟩ v v (.refl v) rfl] at hw
      exact ⟨hw.collected, hw.markers, hw.looks⟩
    · refine collectAt_of_not_isNode (by simpa using hn) ?_
      cases v with
      | arr items => exact absurd rfl (hlist items)
      | _ => rfl

/-- What is known of an entry that is to be walked. -/
structure DueEntry (own : Bool → Json → List α) (p : Json → Bool) (k : Nat) (key : String)
    (v : Json) : Prop where
  due (h : key ∉ Json.metadataKeys) : Due True (Everywhere p) k v
  plain (h : key ∉ Json.metadataKeys) : AllInside (PlainMarker own) v
  marker (h : key = "optional") : Bare own v

theorem walkEntries_takes {l : Entries} (hlooks : Looks n (.obj l))
    (done : Walked Entries) (before rest : Entries) (hsplit : before ++ rest = l)
    (hdone : OnlyMarkers done.parentFields) (hbefore : before.Rel (fun _ => Looks) done.present)
    (hentries : ∀ entry ∈ rest, DueEntry own p k entry.1 entry.2) :
    Noting.Notes (Syntax.walkEntries visit place done rest) fun new w =>
      collectAmong own (insideOf (siteAt place n).inside (.obj l)) rest = new.flatMap taken ∧
        OnlyMarkers w.parentFields := by
  induction rest generalizing done before with
  | nil => exact .pure ⟨rfl, hdone⟩
  | cons entry rest ih =>
    obtain ⟨key, v⟩ := entry
    rw [List.forall_mem_cons] at hentries
    have hnext (w : Walked Json) (hw : Looks v w.present) :
        (before ++ [(key, v)]).Rel (fun _ => Looks) (done.snoc (w.under key)).present :=
      hbefore.append (.cons ⟨rfl, hw⟩ .nil)
    rw [Syntax.walkEntries]
    refine .ite (fun hskip => .bind (.pure ?_)) fun hwalk => .bind ?_
    · have hnone : collectUnder own (insideOf (siteAt place n).inside (.obj l)) key v = [] := by
        refine Bare.under fun hmeta => hentries.1.marker ?_
        -- what is skipped and holds no metadata was given by a child
        rw [Bool.or_eq_true, List.contains_iff_mem] at hskip
        obtain ⟨field, hfield, hkey⟩ := List.any_eq_true.1 (hskip.resolve_left hmeta)
        exact (of_decide_eq_true hkey).symm.trans (hdone field hfield)
      refine (ih (done.snoc ((Walked.same v).under key)) (before ++ [(key, v)])
        (by simpa using hsplit)
        (hdone.append .nil) (hnext _ (.refl v)) hentries.2).mono fun more w hw => ⟨?_, hw.2⟩
      rw [collectAmong_cons, hnone]
      exact hw.1
    · have hmeta : key ∉ Json.metadataKeys := fun hmem => by simp [hmem] at hwalk
      have hsite (f : Frame) (child v' : Json) (hv' : Looks v v')
          (hfill : f.fill child = .obj (done.present ++ (key, v') :: rest)) :
          (siteAt (f :: place) child).inside = insideOf (siteAt place n).inside (.obj l) := by
        rw [siteAt_cons hlooks hfill (hsplit ▸ fill_rel hbefore hv')]
        rfl
      refine (walkEntry_takes hvisit hsite (hentries.1.due hmeta)
        (hentries.1.plain hmeta)).mono fun new w hw => ?_
      refine (ih (done.snoc (w.under key)) (before ++ [(key, v)]) (by simpa using hsplit)
        (hdone.append hw.2.1) (hnext w hw.2.2) hentries.2).mono fun more w' hw' => ⟨?_, hw'.2⟩
      rw [collectAmong_cons, List.flatMap_append, ← hw.1, ← hw'.1, collectUnder]
      simp [hmeta]

theorem walkChildren_takes (h : Takes own taken p k place n m) :
    Noting.Notes (Syntax.walkChildren visit place m) fun new w =>
      collectBelow own (siteAt place n).inside m = new.flatMap taken ∧
        OnlyMarkers w.parentFields := by
  obtain ⟨l, rfl⟩ := exists_obj_of_isObject (isObject_of_isNode h.isNode)
  rw [Syntax.walkChildren]
  refine .bind ((walkEntries_takes hvisit h.looks (Walked.same []) [] l rfl .nil .nil
    fun entry hentry => ?_).mono fun new w hw => .pure ?_)
  · have hget : (Json.obj l).get? entry.1 = some entry.2 := Entries.get?_of_mem h.keys hentry
    exact ⟨h.parts entry hentry, fun hmeta => h.plain.get? hmeta hget,
      fun hkey => h.plain.self _ (hkey ▸ hentry)⟩
  · rw [List.append_nil]
    exact ⟨hw.1, .nil⟩

end

/-- What a step notes, and what it gives without the notes. -/
theorem Noting.Notes.and_yields {β : Type} {x : Noting β} {y : Rewrite β}
    {P : List Meeting → β → Prop} {Q : β → Prop} (h : x.Notes P) (hforgets : Syntax.Forgets x y)
    (hy : y.Yields Q) : x.Notes fun new b => P new b ∧ Q b := by
  intro met progress ran progress' hran
  obtain ⟨new, hnew, hP⟩ := h met progress ran progress' hran
  refine ⟨new, hnew, hP, hy progress ran.1 progress' ?_⟩
  rw [← hforgets met, run_map, hran]
  rfl

variable (hkeys : ∀ l : Entries, p (.obj l) = true → (l.map (·.1)).Nodup)
  (henter : ∀ k place n, n.isNode = true → Due True (Everywhere p) (k + 1) n →
    AllBelow (PlainMarker own) n → ((rewriter o).enter place n).Yields fun visit =>
      Takes own taken p k place n visit.node ∧ OnlyMarkers visit.parentFields)
include hkeys henter

/-- **What a walk meets accounts for what is collected.** -/
theorem walk_takes (fuel : Nat) : ∀ (place : Place) (n : Json), n.isNode = true →
    Due True (Everywhere p) fuel n → AllBelow (PlainMarker own) n →
    Noting.Notes (Syntax.walk (rewriter o).noting fuel place n)
      (Noted own taken (siteAt place n).inside n) := by
  induction fuel with
  | zero => exact fun _ _ hn hdue => absurd hdue (Due.not_zero hn)
  | succ fuel ih =>
    intro place n hn hdue hplain
    have hcame : (Syntax.walk (rewriter o) (fuel + 1) place n).Yields fun w => Came n w.present :=
      (walk_passes (R := fun _ _ _ _ => True) (fun _ => hkeys) (fun _ _ _ _ _ _ => trivial) _
        place n hn hdue).mono fun _ hw => hw.came
    have hnotes : Noting.Notes (Syntax.walk (rewriter o).noting (fuel + 1) place n) fun new w =>
        collectIn own (siteAt place n).inside n = new.flatMap taken ∧
          OnlyMarkers w.parentFields := by
      rw [Syntax.walk]
      refine .bind ((enter_notes (henter fuel place n hn hdue hplain)).mono
        fun new entered hentered => ?_)
      obtain ⟨rfl, htakes, hfields⟩ := hentered
      refine .bind ((walkChildren_takes ih htakes).mono fun more inside hinside => ?_)
      refine .bind (leave_notes.mono fun none left hnone => .pure ⟨?_, hfields⟩)
      rw [hnone, List.append_nil, List.append_nil, List.flatMap_append, ← hinside.1,
        htakes.collected]
      simp
    exact (hnotes.and_yields (Syntax.walk_forgets _ _ _ _) hcame).mono fun _ _ hw =>
      ⟨hw.1.1, hw.1.2, hw.2.looks⟩

/-- **What a rewriting meets accounts for what is collected in the tree.** -/
theorem rewriteNoting_takes {tree rewritten : Json} {met : List Meeting} {progress : Progress}
    (hroot : tree.kind ∈ rootKinds) (hsource : tree.everywhere p = true)
    (hplain : AllInside (PlainMarker own) tree)
    (h : rewriteNoting o tree = (.ok (rewritten, met), progress)) :
    collectIn own false tree = met.flatMap taken := by
  have hn := isNode_of_root hroot
  have hdue : Due True (Everywhere p) (walkFuel tree) tree := by
    refine .source ?_ hsource
    have hle := Json.nesting_le_depth tree
    rw [walkFuel]
    omega
  have hwalk : Noting.Notes (Syntax.walkTree (rewriter o).noting (walkFuel tree) tree)
      fun new _ => collectIn own false tree = new.flatMap taken :=
    .bind ((walk_takes hkeys henter _ [] tree hn hdue (hplain.node hn)).mono
      fun new w hw => .pure (by rw [List.append_nil]; exact hw.collected))
  obtain ⟨new, hnew, hcollected⟩ := hwalk [] {} (rewritten, met) progress h
  obtain rfl : met = new := hnew
  exact hcollected

end Retype.Migration
