import Retype.Proofs.Source.Path
import Retype.Source.Files
/-!
# What the operations on files change

A normal path leads to the file that its components name, whatever else is
there: `..` is what makes a place depend on the directories on the way.
Writing and removing such a path change one place and no directory
(`DifferOnlyAt`), so everything that is read from another place stays.
-/

namespace Retype

namespace Files

variable {fs fs' : Files} {p : Path} {t : Trail} {bytes : List UInt8}

/-! ## Places -/

theorem resolveFrom_eq {here : Trail} {parts : List String} (hup : ".." ∉ parts)
    (h : fs.resolveFrom here parts = .ok t) : t = here ++ parts := by
  induction parts generalizing here with
  | nil =>
    rw [resolveFrom] at h
    rw [List.append_nil]
    exact (Except.ok.inj h).symm
  | cons part rest ih =>
    rw [List.mem_cons, not_or] at hup
    rw [resolveFrom] at h
    split_ifs at h with hdirectory hpart
    · exact absurd hpart.symm hup.1
    · rw [ih hup.2 h, List.append_assoc]
      rfl

/-- **A normal path leads to the place that its components name.** -/
theorem resolve_eq (hp : p.IsNormal) (h : fs.resolve p = .ok t) : t = p.parts := by
  rw [resolve, if_pos hp.absolute] at h
  exact resolveFrom_eq hp.no_up h

theorem resolveFrom_congr (hdirectories : fs'.directories = fs.directories) {here : Trail}
    {parts : List String} (h : fs.resolveFrom here parts = .ok t) :
    fs'.resolveFrom here parts = .ok t := by
  have hsame : ∀ there, fs'.isDirectory there = fs.isDirectory there := fun there => by
    rw [isDirectory, isDirectory, hdirectories]
  induction parts generalizing here with
  | nil => exact h
  | cons part rest ih =>
    rw [resolveFrom] at h ⊢
    rw [hsame]
    split_ifs at h with hdirectory hpart
    · rw [if_pos hdirectory, if_pos hpart]
      exact ih h
    · rw [if_pos hdirectory, if_neg hpart]
      exact ih h

/-- Where a path leads depends on the directories alone. -/
theorem resolve_congr (hdirectories : fs'.directories = fs.directories) (h : fs.resolve p = .ok t) :
    fs'.resolve p = .ok t := by
  rw [resolve] at h ⊢
  split_ifs at h ⊢ with habsolute
  exact resolveFrom_congr hdirectories h

/-! ## One place -/

theorem read_of_resolve (h : fs.resolve p = .ok t) : fs.read p =
    match fs.get? t with
    | some bytes => .ok bytes
    | none => .error (if fs.isDirectory t then .isDirectory else .notFound) := by
  unfold read
  rw [h]
  rfl

theorem read_eq_ok_iff :
    fs.read p = .ok bytes ↔ ∃ t, fs.resolve p = .ok t ∧ fs.get? t = some bytes := by
  constructor
  · intro h
    cases ht : fs.resolve p with
    | error e =>
      unfold read at h
      rw [ht] at h
      cases h
    | ok t =>
      rw [read_of_resolve ht] at h
      split at h
      next found hget => exact ⟨t, rfl, hget.trans (congrArg some (Except.ok.inj h))⟩
      · cases h
  · rintro ⟨t, ht, hget⟩
    rw [read_of_resolve ht, hget]

theorem lookup_map_self {files : List (Trail × List UInt8)} (h : (files.lookup t).isSome) :
    (files.map fun f => if f.1 = t then (t, bytes) else f).lookup t = some bytes := by
  induction files with
  | nil => cases h
  | cons f rest ih =>
    obtain ⟨place, old⟩ := f
    by_cases hplace : place = t
    · subst hplace
      simp
    · have hne : (t == place) = false := beq_false_of_ne (Ne.symm hplace)
      rw [List.lookup_cons, hne] at h
      simp [hplace, List.lookup_cons, hne, ih h]

theorem lookup_map_of_ne {files : List (Trail × List UInt8)} {t' : Trail} (h : t' ≠ t) :
    (files.map fun f => if f.1 = t then (t, bytes) else f).lookup t' = files.lookup t' := by
  induction files with
  | nil => rfl
  | cons f rest ih =>
    obtain ⟨place, old⟩ := f
    by_cases hplace : place = t
    · subst hplace
      simp [List.lookup_cons, beq_false_of_ne h, ih]
    · simp [hplace, List.lookup_cons, ih]

theorem get?_put_self : (fs.put t bytes).get? t = some bytes := by
  unfold put
  split_ifs with h
  · exact lookup_map_self h
  · rw [Option.not_isSome_iff_eq_none] at h
    show (fs.files ++ [(t, bytes)]).lookup t = some bytes
    rw [List.lookup_append, show fs.files.lookup t = none from h]
    simp

theorem get?_put_of_ne {t' : Trail} (h : t' ≠ t) : (fs.put t bytes).get? t' = fs.get? t' := by
  unfold put
  split_ifs
  · exact lookup_map_of_ne h
  · show (fs.files ++ [(t, bytes)]).lookup t' = fs.files.lookup t'
    rw [List.lookup_append]
    simp [List.lookup_cons, beq_false_of_ne h]

theorem directories_put : (fs.put t bytes).directories = fs.directories := by
  unfold put
  split_ifs <;> rfl

theorem lookup_filter_of_ne {files : List (Trail × List UInt8)} {t' : Trail} (h : t' ≠ t) :
    (files.filter fun f => f.1 ≠ t).lookup t' = files.lookup t' := by
  induction files with
  | nil => rfl
  | cons f rest ih =>
    obtain ⟨place, old⟩ := f
    by_cases hplace : place = t
    · subst hplace
      rw [List.filter_cons_of_neg (by simp), ih, List.lookup_cons, beq_false_of_ne h]
    · rw [List.filter_cons_of_pos (by simpa using hplace), List.lookup_cons, List.lookup_cons, ih]

/-! ## What stays -/

/-- **Files that differ at some places at most.** -/
structure DifferOnlyAt (places : Trail → Prop) (fs fs' : Files) : Prop where
  directories : fs'.directories = fs.directories
  get? : ∀ t, ¬ places t → fs'.get? t = fs.get? t

namespace DifferOnlyAt

variable {places places' : Trail → Prop} {fs'' : Files}

theorem refl (places : Trail → Prop) (fs : Files) : DifferOnlyAt places fs fs :=
  ⟨rfl, fun _ _ => rfl⟩

theorem trans (h : DifferOnlyAt places fs fs') (h' : DifferOnlyAt places fs' fs'') :
    DifferOnlyAt places fs fs'' :=
  ⟨h'.directories.trans h.directories, fun t ht => (h'.get? t ht).trans (h.get? t ht)⟩

theorem mono (h : DifferOnlyAt places fs fs') (hplaces : ∀ t, places t → places' t) :
    DifferOnlyAt places' fs fs' :=
  ⟨h.directories, fun t ht => h.get? t fun hplace => ht (hplaces t hplace)⟩

/-- What is read, if anything, stays where none of the places is read. -/
theorem toOption_read (h : DifferOnlyAt places fs fs')
    (hplace : ∀ t, fs.resolve p = .ok t → ¬ places t) :
    (fs'.read p).toOption = (fs.read p).toOption := by
  cases ht : fs.resolve p with
  | ok t =>
    rw [read_of_resolve ht, read_of_resolve (resolve_congr h.directories ht),
      h.get? t (hplace t ht)]
    split <;> rfl
  | error e =>
    cases ht' : fs'.resolve p with
    | ok t =>
      rw [resolve_congr h.directories.symm ht'] at ht
      cases ht
    | error e' =>
      unfold Files.read
      rw [ht, ht']
      rfl

/-- A path leads to the same in files that do not differ. -/
theorem resolveFrom_eq (h : DifferOnlyAt (fun _ => False) fs fs') (here : Trail)
    (parts : List String) :
    fs'.resolveFrom here parts = fs.resolveFrom here parts := by
  have hdirectory : ∀ t, fs'.isDirectory t = fs.isDirectory t := fun t => by
    rw [isDirectory, isDirectory, h.directories]
  induction parts generalizing here with
  | nil => rfl
  | cons part rest ih =>
    simp only [resolveFrom, hdirectory, h.get? here id, ih]

/-- **Files that do not differ read alike**, errors included. -/
theorem read_eq (h : DifferOnlyAt (fun _ => False) fs fs') (p : Path) : fs'.read p = fs.read p := by
  have hresolve : fs'.resolve p = fs.resolve p := by
    simp only [resolve, h.resolveFrom_eq]
  cases ht : fs.resolve p with
  | error e =>
    unfold Files.read
    rw [hresolve, ht]
    rfl
  | ok t =>
    have hdirectory : fs'.isDirectory t = fs.isDirectory t := by
      rw [isDirectory, isDirectory, h.directories]
    rw [read_of_resolve ht, read_of_resolve (hresolve.trans ht), h.get? t id, hdirectory]

/-- What is read from another place stays. -/
theorem read (h : DifferOnlyAt places fs fs') (hp : p.IsNormal) (hplace : ¬ places p.parts)
    (hread : fs.read p = .ok bytes) : fs'.read p = .ok bytes := by
  obtain ⟨t, ht, hbytes⟩ := read_eq_ok_iff.1 hread
  obtain rfl := resolve_eq hp ht
  exact read_eq_ok_iff.2 ⟨_, resolve_congr h.directories ht, (h.get? _ hplace).trans hbytes⟩

end DifferOnlyAt

/-- What is written where, and what may not be written. -/
theorem write_eq_ok_iff : fs.write p bytes = .ok fs' ↔ ∃ t, fs.resolve p = .ok t ∧
    fs.isDirectory t = false ∧ fs.isDirectory t.dropLast = true ∧ fs' = fs.put t bytes := by
  unfold write
  cases ht : fs.resolve p with
  | error e =>
    refine ⟨fun h => ?_, fun ⟨_, h, _⟩ => ?_⟩
    · cases h
    · cases h
  | ok t =>
    constructor
    · intro h
      replace h : (if fs.isDirectory t then .error .isDirectory
          else if fs.isDirectory t.dropLast then pure (fs.put t bytes)
          else .error .notFound : Except FileError Files) = .ok fs' := h
      split_ifs at h with hdirectory hparent
      exact ⟨t, rfl, by simpa using hdirectory, hparent, (Except.ok.inj h).symm⟩
    · rintro ⟨t', h, hdirectory, hparent, rfl⟩
      obtain rfl := Except.ok.inj h
      show (if fs.isDirectory t = true then _ else _) = _
      rw [if_neg (by simp [hdirectory]), if_pos hparent]
      rfl

/-- Whether a file can be written depends on the directories alone. -/
theorem exists_write_congr (hdirectories : fs'.directories = fs.directories)
    (h : ∃ written, fs.write p bytes = .ok written) : ∃ written,
      fs'.write p bytes = .ok written := by
  obtain ⟨written, h⟩ := h
  obtain ⟨t, ht, hdirectory, hparent, -⟩ := write_eq_ok_iff.1 h
  have hsame : ∀ there, fs'.isDirectory there = fs.isDirectory there := fun there => by
    rw [isDirectory, isDirectory, hdirectories]
  exact ⟨_, write_eq_ok_iff.2 ⟨t, resolve_congr hdirectories ht, by rw [hsame, hdirectory],
    by rw [hsame, hparent], rfl⟩⟩

/-- What is written is read back, and nothing changes but the place of the path. -/
theorem write_read (h : fs.write p bytes = .ok fs') :
    DifferOnlyAt (fun t => fs.resolve p = .ok t) fs fs' ∧ fs'.read p = .ok bytes := by
  obtain ⟨t, ht, -, -, rfl⟩ := write_eq_ok_iff.1 h
  refine ⟨⟨directories_put, fun t' ht' => get?_put_of_ne fun heq => ht' (heq ▸ ht)⟩, ?_⟩
  exact read_eq_ok_iff.2 ⟨t, resolve_congr directories_put ht, get?_put_self⟩

/-- Removing a file changes nothing else. -/
theorem remove_normal (hp : p.IsNormal) (h : fs.remove p = .ok fs') :
    DifferOnlyAt (· = p.parts) fs fs' := by
  unfold remove at h
  split at h
  next t ht =>
    obtain rfl := resolve_eq hp ht
    split_ifs at h
    obtain rfl := Except.ok.inj h
    exact ⟨rfl, fun t ht => lookup_filter_of_ne ht⟩
  · obtain rfl := Except.ok.inj h
    exact .refl _ _
  · cases h

end Files

end Retype
