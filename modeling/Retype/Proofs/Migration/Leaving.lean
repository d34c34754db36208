import Retype.Proofs.Migration.Walking
/-!
# What the rules do on the way up

Three rules apply on the way up, and each of them is kept out of what is left:
optional parameters lose and gain markers and types (`reorderParams_kept`), a
pattern with a default value loses the marker of its name, and a program gains
the import of the helpers. The one marker that is not a name's is that of a
pattern with a default value; erasure either drops it too, or the pattern is
known to have none.
-/

namespace Retype.Migration

variable {e : Erasure}

/-! ## Losing a marker -/

namespace Erasure

/-- The fields that are left of a node without a marker. -/
theorem eraseEntries_unmark (n : Json) (l : Entries) :
    e.eraseEntries n (l.erase "optional") =
      (e.eraseEntries n l).filter fun field => field.1 ≠ "optional" := by
  induction l with
  | nil => rfl
  | cons entry rest ih =>
    obtain ⟨key, v⟩ := entry
    by_cases hkey : key = "optional"
    · subst hkey
      cases hlevel : isTypeLevel n "optional" <;>
        simp [Entries.erase_cons, eraseEntries, hlevel, ih]
    · cases hlevel : isTypeLevel n key <;>
        simp [Entries.erase_cons, eraseEntries, hlevel, hkey, ih]

theorem remaining_unmark (fields : List (String × Option Json)) :
    remaining (fields.filter fun field => field.1 ≠ "optional") =
      (remaining fields).erase "optional" := by
  induction fields with
  | nil => rfl
  | cons field rest ih =>
    obtain ⟨key, v⟩ := field
    simp only [remaining, Entries.erase, ne_eq, decide_not] at ih ⊢
    by_cases hkey : key = "optional" <;> cases v <;> simp [hkey, ih]

theorem lookup_unmark (fields : List (String × Option Json)) :
    (fields.filter fun field => field.1 ≠ "optional").lookup "expression" =
      fields.lookup "expression" := by
  induction fields with
  | nil => rfl
  | cons field rest ih =>
    obtain ⟨key, v⟩ := field
    by_cases hkey : key = "optional"
    · subst hkey
      simpa [List.lookup_cons] using ih
    · simp only [ne_eq, decide_not] at ih
      cases hexpr : "expression" == key <;> simp [List.lookup_cons, hkey, hexpr, ih]

theorem erase_erase (v : Json) (key : String) : (v.erase key).erase key = v.erase key := by
  cases v with
  | obj l => simp [Json.erase, Entries.erase]
  | _ => rfl

/-- **A lost marker.** What is left of a node and of the node without its
marker differ in the marker at most. -/
theorem erase_unmark (l : Entries) :
    (e.erase ((Json.obj l).erase "optional")).map (·.erase "optional") =
      (e.erase (.obj l)).map (·.erase "optional") := by
  have hget (key : String) (h : key ≠ "optional") :
      ((Json.obj l).erase "optional").get? key = (Json.obj l).get? key :=
    Json.get?_erase_ne h
  have outside : SameOutside (.obj l) (.obj (Entries.erase l "optional")) :=
    .of_get? fun key hkey => hget key fun h => by subst h; revert hkey; decide
  simp only [Json.erase, erase, ofParts_congr outside, eraseEntries_owner outside,
    eraseEntries_unmark]
  generalize e.eraseEntries (.obj l) l = fields
  have hparts (key : String) (h : key ≠ "optional") :
      (Json.obj (Entries.erase (remaining fields) "optional")).get? key =
        (Json.obj (remaining fields)).get? key :=
    Entries.get?_erase_ne h
  have himport : e.isHelperImport (.obj (Entries.erase (remaining fields) "optional")) =
      e.isHelperImport (.obj (remaining fields)) := by
    simp only [isHelperImport, hparts "specifiers" (by decide), hparts "source" (by decide)]
  simp only [ofParts, lookup_unmark, remaining_unmark, hparts "callee" (by decide), Json.itemsAt,
    hparts "arguments" (by decide), himport]
  split_ifs
  all_goals first | rfl | exact congrArg some (erase_erase (.obj (remaining fields)) "optional")

end Erasure

/-! ## Optional parameters -/

/-- A parameter that has to be given has changed in its types. -/
theorem widenWithUndefined_retyped (param : Json) :
    Result.Yields (widenWithUndefined param) (Retyped e param) := by
  rw [widenWithUndefined]
  split
  · split
    · refine .bind fun inner _ => .bind fun type _ => .pure ?_
      exact .set_typeLevel _ rfl (by decide) _
    · exact .ok (.refl _)
  · exact .ok (.refl _)

theorem requireParam_retyped (param : Json) :
    Result.Yields (requireParam param) (Retyped e param) := by
  rw [requireParam]
  split
  next hname =>
    have hlevel : isTypeLevel param "optional" = true := by simp [isTypeLevel, hname]
    exact (widenWithUndefined_retyped _).mono fun _ =>
      (Retyped.erase_typeLevel param hlevel (by decide)).trans
  next => exact .ok (.refl _)

/-- The left side of a default value without its marker, as the pattern
leaves it. -/
theorem leavesSame_unmark {param : Json} {l : Entries}
    (hdefault : param.hasText "type" "AssignmentPattern" = true)
    (hget : param.get? "left" = some (.obj l)) (hunmarked : e.defaultUnmarked param = true)
    (hname : (Json.obj l).hasText "type" "Identifier" = false) :
    e.LeavesSame param "left" (.obj l) ((Json.obj l).erase "optional") := by
  intro _
  cases hkeeps : e.keepsDefaultMarkers with
  | false =>
    have htrim : e.trim param "left" = (·.erase "optional") := by
      funext part
      simp [Erasure.trim, hdefault, hkeeps]
    rw [htrim, Erasure.erase_unmark]
  | true =>
    -- the marker would be left, but there is none
    have hfree : Erasure.markerFree (.obj l) = true := by
      simpa [Erasure.defaultUnmarked, hkeeps, hdefault, hget] using hunmarked
    have hnone : Entries.get? l "optional" = none := by
      simpa [Erasure.markerFree, hname, Json.get?] using hfree
    rw [Json.erase, Entries.erase_of_get?_none hnone]

/-- A parameter keeps what is left of it, whether it may be left out or not. -/
theorem reorderParam_kept (param : Json) (trailing : Bool)
    (hunmarked : e.defaultUnmarked param = true) :
    Result.Yields (reorderParam param trailing) fun r => Kept e param r.1 := by
  rw [reorderParam]
  split
  · exact .pure (.refl _)
  split
  next hdefault =>
    split
    next l hget =>
      -- a name loses its marker with its types; another pattern has none, or is trimmed
      have hsame : e.LeavesSame param "left" (.obj l) ((Json.obj l).erase "optional") := by
        cases hname : (Json.obj l).hasText "type" "Identifier" with
        | false => exact leavesSame_unmark hdefault hget hunmarked hname
        | true =>
          have hlevel : isTypeLevel (.obj l) "optional" = true := by simp [isTypeLevel, hname]
          exact fun _ => by rw [(Retyped.erase_typeLevel _ hlevel (by decide)).erases]
      have hleft (left : Json) (h : Retyped e ((Json.obj l).erase "optional") left) :
          Kept e param (param.set "left" left) :=
        .set_part hget (by decide) (by decide) fun _ hlevel => by rw [h.erases, hsame hlevel]
      cases trailing with
      | true => exact .pure (hleft _ (.refl _))
      | false => exact .bind ((requireParam_retyped _).mono fun left h => .pure (hleft left h))
    next => exact .error _
  split
  · split
    · exact .pure (.refl _)
    · exact .bind ((requireParam_retyped _).mono fun _ h => .pure h.toKept)
  next => exact .pure (.refl _)

theorem reorderFrom_kept (params : List Json)
    (hunmarked : ∀ param ∈ params, e.defaultUnmarked param = true) :
    Result.Yields (reorderFrom params) fun r => List.Forall₂ (Kept e) params r.1 := by
  induction params with
  | nil => exact .pure .nil
  | cons param rest ih =>
    have ih := ih fun p hp => hunmarked p (List.mem_cons_of_mem _ hp)
    rw [reorderFrom]
    refine .bind (ih.mono fun r hrest => .bind ?_)
    exact (reorderParam_kept param r.2 (hunmarked param List.mem_cons_self)).mono
      fun _ hparam => .pure (.cons hparam hrest)

/-- **The parameters keep what is left of them.** -/
theorem reorderParams_kept (params : List Json)
    (hunmarked : ∀ param ∈ params, e.defaultUnmarked param = true) :
    Result.Yields (reorderParams params) (List.Forall₂ (Kept e) params) :=
  .bind ((reorderFrom_kept params hunmarked).mono fun _ h => .pure h)

/-! ## The rules -/

theorem defaultUnmarked_congr {n n' : Json} (hkind : n'.get? "type" = n.get? "type")
    (hleft : n'.get? "left" = n.get? "left") : e.defaultUnmarked n' = e.defaultUnmarked n := by
  simp only [Erasure.defaultUnmarked, Json.hasText, hkind, hleft]

/-- A part of a node other than the pattern of a default value may change if
what is left of it stays. -/
theorem Left.set_part {n v v' : Json} {key : String} (hn : n.isObject = true)
    (hget : n.get? key = some v) (hout : key ∉ outsideKeys) (hkey : key ≠ "optional" ∧ key ≠ "left")
    (herase : Settled e n → n.kindIn typeOnlyKinds = false → e.erase v' = e.erase v) :
    Left e n (n.set key v') := by
  have htype : "type" ≠ key := fun h => hout (h ▸ by decide)
  refine ⟨by simpa using hn, fun hsettled => ⟨?_, ?_⟩⟩
  · exact .set_part hget hout hkey.1 fun honly _ => by rw [herase hsettled honly]
  · rw [defaultUnmarked_congr (Json.get?_set_ne htype v') (Json.get?_set_ne hkey.2.symm v')]
    exact hsettled.unmarked

theorem leaveFunction_left (n : Json) (hn : n.isObject = true) :
    (leaveFunction n).Yields (Left e n) := by
  rw [leaveFunction]
  split
  next params hget =>
    -- whether its parameters are unmarked is known once the function has settled
    have hitems : n.itemsAt "params" = params := by simp [Json.itemsAt, hget, Json.items]
    refine .bind (.ofResult fun params' hparams => .pure ?_)
    refine .set_part hn hget (by decide) (by decide) fun hsettled honly => ?_
    have hkept := reorderParams_kept params (hitems ▸ hsettled.params honly) params' hparams
    exact Erasure.erase_arr_congr (hkept.imp fun _ _ h => h.erases)
  next => exact .pure ⟨hn, fun hsettled => ⟨.refl n, hsettled.unmarked⟩⟩

theorem leaveAssignmentPattern_left (n : Json) (hn : n.isObject = true) :
    Left e n (leaveAssignmentPattern n) := by
  have hsame : Left e n n := ⟨hn, fun hsettled => ⟨.refl n, hsettled.unmarked⟩⟩
  rw [leaveAssignmentPattern]
  split
  next left hget =>
    split
    next hname =>
      simp only [Bool.and_eq_true] at hname
      have hlevel : isTypeLevel left "optional" = true := by simp [isTypeLevel, hname.2]
      have hretyped : Retyped e left (left.erase "optional") :=
        .erase_typeLevel left hlevel (by decide)
      refine ⟨by simpa using hn, fun _ => ⟨?_, ?_⟩⟩
      · exact (Retyped.set_part hget (by decide) (by decide) hretyped).toKept
      · have hfree : Erasure.markerFree (left.erase "optional") = true := by
          simp [Erasure.markerFree, Json.hasText_congr hretyped.kind, hname.2]
        obtain ⟨l, rfl⟩ := Json.exists_obj_of_get? hget
        simp [Erasure.defaultUnmarked, Json.set, Json.get?, Entries.get?_set_self, hfree]
    next => exact hsame
  next => exact hsame

variable (o : FileOptions) {keeps : Bool}

/-- The import of the helpers is not left. -/
theorem erase_helperImport : (o.erasure keeps).erase (helperImport o) = none := by
  simp [helperImport, TypeScript.node, TypeScript.identifier, Erasure.erase, Erasure.eraseEntries,
    Erasure.eraseItems, Erasure.ofParts, Erasure.trim, Erasure.isHelperImport, isIdentifierAt,
    isTypeLevel, isTypedCall, remaining, Json.kindIn, Json.hasText, Json.get?, Entries.get?,
    Json.metadataKeys, typeKeys, typeOnlyKinds, assertionKinds, FileOptions.erasure]

theorem leaveProgram_left (n : Json) (hn : n.isObject = true) :
    (leaveProgram o n).Yields (Left (o.erasure keeps) n) := by
  rw [leaveProgram]
  refine .bind (.trivial _ fun p => .ite (fun _ => ?_) fun _ => ?_)
  · exact .pure ⟨hn, fun hsettled => ⟨.refl n, hsettled.unmarked⟩⟩
  · refine .bind (.ofResult fun body hbody => .pure ?_)
    have hget : n.get? "body" = some (.arr body) := by
      rw [Json.listField] at hbody
      split at hbody <;> cases hbody
      assumption
    -- the body has one statement more, of which nothing is left
    refine .set_part hn hget (by decide) (by decide) fun _ _ => ?_
    simp [Erasure.erase, Erasure.eraseItems_eq, erase_helperImport]

/-- **On the way up every rule keeps what is left of a node.** -/
theorem applyLeave_left (n : Json) (hn : n.isObject = true) (rule : LeaveRule) :
    (applyLeave o n rule).Yields (Left (o.erasure keeps) n) := by
  cases rule with
  | program => exact leaveProgram_left o n hn
  | function => exact leaveFunction_left n hn
  | assignmentPattern => exact .pure (leaveAssignmentPattern_left n hn)

end Retype.Migration
