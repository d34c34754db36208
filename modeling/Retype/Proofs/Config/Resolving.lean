import Mathlib.Data.List.Basic
import Retype.Config.Basic
import Retype.Proofs.Number.Whole
import Retype.Proofs.Text.Utf8
import Retype.Proofs.Toml.Extent
/-!
# Resolving a configuration

Each setting is read in one way: `Means` says which values stand for something
of its kind and for what, and any other value leaves the default
(`Setting.Reads`). A reading fails only for a number out of all bounds, or for what
is nested too deep, so a reading, and whatever is made of readings, comes to an error
exactly where there is such a fault (`Settles`). That holds of the sections, of a
whole table, and of the file (`resolve_settles`); where there is no fault, the
settings lie within the bounds that a run relies on (`Follows.bounded`).
-/

namespace Retype

open Config (migrateSettings inferenceSettings printerOptions defaultMigrate defaultInference
  defaultPrinter section? tableOf ofTable resolve filePath quotes)

/-! ## Readings that may fail -/

/-- What a reading comes to: an error exactly where there is a fault, which
is that error; otherwise something that has a property. -/
def Settles {α : Type} (Fault : ConfigError → Prop) (P : α → Prop) : Except ConfigError α → Prop
  | .ok a => (∀ e, ¬ Fault e) ∧ P a
  | .error e => Fault e

namespace Settles

variable {α β : Type} {F G : ConfigError → Prop} {P : α → Prop} {Q : β → Prop}

/-- A value settles a setting that no fault stands in. -/
theorem ok {a : α} (hF : ∀ e, ¬ F e) (h : P a) : Settles F P (.ok a) := ⟨hF, h⟩

/-- A reading after another one has the faults of both. -/
theorem bind {r : Except ConfigError α} {f : α → Except ConfigError β} (h : Settles F P r)
    (hf : ∀ a, P a → Settles G Q (f a)) : Settles (fun e => F e ∨ G e) Q (r >>= f) := by
  cases r with
  | error e => exact Or.inl h
  | ok a =>
    have hfa := hf a h.2
    change Settles _ Q (f a)
    cases hr : f a with
    | error e =>
      rw [hr] at hfa
      exact Or.inr hfa
    | ok b =>
      rw [hr] at hfa
      exact ⟨fun e he => he.elim (h.1 e) (hfa.1 e), hfa.2⟩

/-- Settling depends on which faults and which values there are, not on how they are
said. -/
theorem congr {r : Except ConfigError α} {P' : α → Prop} (h : Settles F P r)
    (hF : ∀ e, F e ↔ G e) (hP : ∀ a, P a → P' a) : Settles G P' r := by
  cases r with
  | error e => exact (hF e).1 h
  | ok a => exact ⟨fun e he => h.1 e ((hF e).2 he), hP a h.2⟩

/-- What comes last gives a value without faults. -/
theorem map {r : Except ConfigError α} {f : α → β} (h : Settles F P r) (hf : ∀ a, P a → Q (f a)) :
    Settles F Q (r >>= fun a => pure (f a)) :=
  (h.bind (G := fun _ => False) fun a ha => ok (fun _ => id) (hf a ha)).congr
    (fun _ => or_iff_left id) fun _ => id

end Settles

/-! ## What settings stand for -/

namespace Setting

/-- How a setting is read: what it stands for, or the default if it stands for
nothing of the kind. -/
inductive Reads {α : Type} (Means : Setting → α → Prop) (default : α) (v : Setting) : α → Prop
  | meant {a : α} (means : Means v a) : Reads Means default v a
  | other (none : ∀ a, ¬ Means v a) : Reads Means default v default

/-- Positive whole numbers: as such, as numbers of which the fraction is cut off, or
as text. -/
inductive MeansCount : Setting → Int → Prop
  | int {i : Int} (pos : 0 < i) : MeansCount (.int i) i
  | double {x : Double} (finite : x.isFinite = true) (pos : 0 < x.trunc) :
    MeansCount (.double x) x.trunc
  | text {s : String} {n : Int} (spells : Numeral.int? s = some n) (pos : 0 < n) :
    MeansCount (.text s) n

/-- Positive numbers: whole ones that are doubles, doubles, or such as text. -/
inductive MeansSeconds : Setting → Double → Prop
  | int {i : Int} (pos : 0 < i) (fits : i.natAbs < Double.overflow) :
    MeansSeconds (.int i) (.ofInt i)
  | double {x : Double} (pos : x.isPositive = true) : MeansSeconds (.double x) x
  | text {s : String} {x : Double} (spells : Numeral.double? s = some x)
    (pos : x.isPositive = true) : MeansSeconds (.text s) x

/-- The texts in a setting: its own, or those of the list. -/
def texts : Setting → List String
  | text s => [s]
  | list items => items.filterMap fun
    | text s => some s
    | _ => none
  | _ => []

/-- Names, if there are any: those between the commas of its texts. -/
inductive MeansNames (v : Setting) : List String → Prop
  | intro (some : v.texts.flatMap namesIn ≠ []) : MeansNames v (v.texts.flatMap namesIn)

/-- The words of a command, if there are any: those of a text, or the texts of a list. -/
inductive MeansCommand : Setting → List String → Prop
  | text {s : String} (some : Text.words s ≠ []) : MeansCommand (.text s) (Text.words s)
  | list {items : List Setting} (some : (Setting.list items).texts ≠ []) :
    MeansCommand (.list items) (Setting.list items).texts

/-- Truth values, whole numbers, of which zero is false, and words. -/
inductive MeansTruth : Setting → Bool → Prop
  | bool (b : Bool) : MeansTruth (.bool b) b
  | int (i : Int) : MeansTruth (.int i) (i != 0)
  | text (s : String) : MeansTruth (.text s)
    (trueWords.contains (String.ofList ((Text.trim s).toList.map Char.toLower)))

/-- Whatever counts as set, as text. -/
inductive MeansText (v : Setting) : String → Prop
  | intro (holds : v.toJson.isTrue = true) : MeansText v v.asShown

/-- The names of the quotes. -/
inductive MeansQuote : Setting → String → Prop
  | intro {q : String} (known : q ∈ quotes) : MeansQuote (.text q) q

/-! ## Faults of single settings -/

/-- An infinity is no whole number. -/
inductive CountFault : Setting → ConfigError → Prop
  | infinite {x : Double} (h : x.isInfinite = true) : CountFault (.double x) .unbounded

/-- A whole number may be beyond all doubles. -/
inductive SecondsFault : Setting → ConfigError → Prop
  | overflow {i : Int} (h : Double.overflow ≤ i.natAbs) : SecondsFault (.int i) .unbounded

/-- The first part that cannot be written out, a whole number in it with too many digits
or what is nested deeper than some levels. -/
inductive TextFault (levels : Nat) (v : Setting) (e : ConfigError) : Prop
  | unshown (holds : v.toJson.isTrue = true) (h : v.unshown? levels = some e)

variable {α : Type} {Means : Setting → α → Prop} {v : Setting} {a : α}

/-- What is meant, if anything is, or else the default. -/
theorem Reads.of_option (default : α) {o : Option α} (h : ∀ a, Means v a ↔ o = some a) :
    Reads Means default v (o.getD default) := by
  cases o with
  | none => exact .other fun a ha => nomatch (h a).1 ha
  | some a => exact .meant ((h a).2 rfl)

/-- What holds of all that is meant and of the default holds of what is read. -/
theorem Reads.induction {P : α → Prop} {default : α} (h : Reads Means default v a)
    (hmeant : ∀ a, Means v a → P a) (hdefault : P default) : P a := by
  cases h with
  | meant h => exact hmeant a h
  | other => exact hdefault

/-! ## Reading single settings -/

/-- A count that is not positive is replaced by the default. -/
theorem positiveIntOr_eq (default : Int) (n : Option Int) :
    positiveIntOr default n = (n.filter (0 < ·)).getD default := by
  cases n with
  | none => rfl
  | some n =>
    rw [positiveIntOr, Option.filter]
    by_cases h : 0 < n <;> simp [h]

/-- So are seconds that are not positive. -/
theorem positiveDoubleOr_eq (default : Double) (x : Option Double) :
    positiveDoubleOr default x = (x.filter Double.isPositive).getD default := by
  cases x with
  | none => rfl
  | some x =>
    rw [positiveDoubleOr, Option.filter]
    cases x.isPositive <;> simp

/-- A setting read as a count is settled. -/
theorem asPositiveInt_settles (default : Int) (v : Setting) :
    Settles (CountFault v) (Reads MeansCount default v) (v.asPositiveInt default) := by
  have hother (hmeans : ∀ n, ¬ MeansCount v n) (hfault : ∀ e, ¬ CountFault v e) :
      Settles (CountFault v) (Reads MeansCount default v) (.ok default) :=
    .ok hfault (.other hmeans)
  cases v with
  | int i =>
    rw [asPositiveInt, positiveIntOr_eq]
    refine .ok nofun (.of_option default fun n => ?_)
    rw [Option.filter_eq_some_iff, decide_eq_true_iff, Option.some.injEq]
    exact ⟨fun | .int pos => ⟨rfl, pos⟩, fun ⟨heq, pos⟩ => heq ▸ .int (heq ▸ pos)⟩
  | double x =>
    rw [asPositiveInt, positiveIntOr_eq]
    split
    next hinfinite => exact CountFault.infinite hinfinite
    next hinfinite =>
      refine .ok (fun | _, .infinite h => hinfinite h) (.of_option default fun n => ?_)
      rw [Double.isNaN_eq_not_isFinite hinfinite, Option.filter_eq_some_iff, decide_eq_true_iff]
      cases hx : x.isFinite with
      | true =>
        refine ⟨fun | .double _ pos => ⟨rfl, pos⟩, fun ⟨heq, pos⟩ => ?_⟩
        obtain rfl : x.trunc = n := Option.some.inj heq
        exact .double hx pos
      | false => exact ⟨fun | .double h _ => absurd (hx.symm.trans h) Bool.false_ne_true, nofun⟩
  | text s =>
    rw [asPositiveInt, positiveIntOr_eq]
    refine .ok nofun (.of_option default fun n => ?_)
    rw [Option.filter_eq_some_iff, decide_eq_true_iff]
    exact ⟨fun | .text spells pos => ⟨spells, pos⟩, fun ⟨spells, pos⟩ => .text spells pos⟩
  | null | bool _ | moment _ | list _ | table _ => exact hother nofun nofun

/-- A setting read as seconds is settled. -/
theorem asPositiveDouble_settles (default : Double) (v : Setting) :
    Settles (SecondsFault v) (Reads MeansSeconds default v) (v.asPositiveDouble default) := by
  have hother (hmeans : ∀ x, ¬ MeansSeconds v x) (hfault : ∀ e, ¬ SecondsFault v e) :
      Settles (SecondsFault v) (Reads MeansSeconds default v) (.ok default) :=
    .ok hfault (.other hmeans)
  cases v with
  | int i =>
    rw [asPositiveDouble, positiveDoubleOr_eq]
    split
    next hover =>
      rw [Double.isInfinite_ofInt, decide_eq_true_iff] at hover
      exact SecondsFault.overflow hover
    next hover =>
      rw [Double.isInfinite_ofInt, decide_eq_true_iff] at hover
      refine .ok (fun | _, .overflow h => hover h) (.of_option default fun x => ?_)
      rw [Option.filter_eq_some_iff, Option.some.injEq]
      refine ⟨fun | .int pos _ => ⟨rfl, ?_⟩, fun ⟨heq, pos⟩ => ?_⟩
      · rw [Double.isPositive_ofInt, decide_eq_true_iff]
        exact pos
      · subst heq
        rw [Double.isPositive_ofInt, decide_eq_true_iff] at pos
        exact .int pos (Nat.lt_of_not_le hover)
  | double x =>
    rw [asPositiveDouble, positiveDoubleOr_eq]
    refine .ok nofun (.of_option default fun y => ?_)
    rw [Option.filter_eq_some_iff, Option.some.injEq]
    exact ⟨fun | .double pos => ⟨rfl, pos⟩, fun ⟨heq, pos⟩ => heq ▸ .double (heq ▸ pos)⟩
  | text s =>
    rw [asPositiveDouble, positiveDoubleOr_eq]
    refine .ok nofun (.of_option default fun x => ?_)
    rw [Option.filter_eq_some_iff]
    exact ⟨fun | .text spells pos => ⟨spells, pos⟩, fun ⟨spells, pos⟩ => .text spells pos⟩
  | null | bool _ | moment _ | list _ | table _ => exact hother nofun nofun

/-- A setting read as a text is settled. -/
theorem asText_settles (levels : Nat) (default : String) (v : Setting) :
    Settles (TextFault levels v) (Reads MeansText default v) (v.asText levels default) := by
  rw [asText]
  split
  next hholds =>
    rw [writtenOut]
    cases hunshown : v.unshown? levels with
    | some e => exact TextFault.unshown hholds hunshown
    | none => exact .ok (fun _ ⟨_, h⟩ => nomatch hunshown.symm.trans h) (.meant (.intro hholds))
  next hholds => exact .ok (fun _ ⟨h, _⟩ => hholds h) (.other fun | _, .intro h => hholds h)

/-- Names are read from every text of a setting. -/
theorem asNames_eq (v : Setting) : v.asNames = v.texts.flatMap namesIn := by
  cases v with
  | list items =>
    rw [asNames, texts, List.filterMap_eq_flatMap_toList, List.flatMap_assoc]
    refine congrArg (List.flatMap · items) (funext fun item => ?_)
    cases item with
    | text s => exact (List.flatMap_singleton namesIn s).symm
    | _ => rfl
  | text s => exact (List.flatMap_singleton namesIn s).symm
  | _ => rfl

/-- Names are what the setting says, or the default if it says none. -/
theorem asNames_reads (default : List String) (v : Setting) :
    Reads MeansNames default v (if v.asNames.isEmpty then default else v.asNames) := by
  rw [asNames_eq]
  split
  next h =>
    rw [List.isEmpty_iff] at h
    exact .other fun | _, .intro hsome => hsome h
  next h =>
    rw [List.isEmpty_iff] at h
    exact .meant (.intro h)

/-- Names without a default are what the setting says. -/
theorem asNames_reads_nil (v : Setting) : Reads MeansNames [] v v.asNames := by
  have h := asNames_reads [] v
  split at h
  next hnil => exact (List.isEmpty_iff.1 hnil).symm ▸ h
  next => exact h

/-- A command is what the setting says, or the default. -/
theorem asCommand_reads (default : List String) (v : Setting) :
    Reads MeansCommand default v (v.asCommand default) := by
  cases v with
  | text s =>
    rw [asCommand]
    split
    next h =>
      rw [List.isEmpty_iff] at h
      exact .other fun | _, .text hsome => hsome h
    next h =>
      rw [List.isEmpty_iff] at h
      exact .meant (.text h)
  | list items =>
    rw [asCommand]
    split
    next h =>
      rw [List.isEmpty_iff] at h
      exact .other fun | _, .list hsome => hsome h
    next h =>
      rw [List.isEmpty_iff] at h
      exact .meant (.list h)
  | null | bool _ | int _ | double _ | moment _ | table _ => exact .other nofun

/-- So is a truth value. -/
theorem asBool_reads (default : Bool) (v : Setting) :
    Reads MeansTruth default v (v.asBool default) := by
  cases v with
  | bool b => exact .meant (.bool b)
  | int i => exact .meant (.int i)
  | text s => exact .meant (.text s)
  | null | double _ | moment _ | list _ | table _ => exact .other nofun

end Setting

/-! ## Settings over others -/

namespace Table

/-- The setting of a key where newer settings are given, of which null gives nothing. -/
def given (t newer : Table) (key : String) : Setting :=
  match newer.value key with
  | .null => t.value key
  | v => v

/-- A value set is read back, and the other keys stay. -/
theorem get?_set (t : Table) (key key' : String) (v : Setting) :
    (t.set key v).get? key' = if key = key' then some v else t.get? key' := by
  induction t with
  | nil => rfl
  | cons first rest ih =>
    obtain ⟨k, w⟩ := first
    rw [set]
    split
    next h =>
      subst h
      rw [get?, get?]
      split <;> rfl
    next h =>
      rw [get?, get?, ih]
      by_cases hk : k = key'
      · subst hk
        rw [if_pos rfl, if_pos rfl, if_neg (Ne.symm h)]
      · rw [if_neg hk, if_neg hk]

/-- A key that is absent is not set. -/
theorem value_of_not_mem {t : Table} {key : String} (h : key ∉ t.map (·.1)) :
    t.value key = .null := by
  have hnone : t.get? key = none := by
    induction t with
    | nil => rfl
    | cons first rest ih =>
      rw [List.map_cons, List.mem_cons, not_or] at h
      rw [get?, if_neg (Ne.symm h.1), ih h.2]
  rw [value, hnone]
  rfl

/-- A table's first entry for a key is the one that counts. -/
theorem value_cons (k key : String) (v : Setting) (rest : Table) :
    value ((k, v) :: rest) key = if k = key then v else value rest key := by
  rw [value, get?]
  split <;> rfl

/-- What a key is given depends on its values in the two tables. -/
theorem given_congr {t t' newer newer' : Table} {key : String} (ht : t.value key = t'.value key)
    (hnewer : newer.value key = newer'.value key) : t.given newer key = t'.given newer' key := by
  rw [given, given, ht, hnewer]

/-- Overriding with one key gives that key its new value. -/
theorem value_override_single (t : Table) (k key : String) (v : Setting) :
    (t.override [(k, v)]).value key = t.given [(k, v)] key := by
  rw [given, value_cons]
  by_cases hk : k = key
  · cases v <;> simp [override, value, get?_set, hk]
  · rw [if_neg hk]
    cases v <;> simp [override, value, get?_set, get?, hk]

/-- **A newer setting is used unless it is null**, if no key is given twice. -/
theorem value_override (t : Table) {newer : Table} (hkeys : (newer.map (·.1)).Nodup)
    (key : String) : (t.override newer).value key = t.given newer key := by
  induction newer generalizing t with
  | nil => rfl
  | cons first rest ih =>
    obtain ⟨k, v⟩ := first
    rw [List.map_cons, List.nodup_cons] at hkeys
    -- the rest is put over a table that has the first setting already, and does not
    -- touch the key of the first one
    have hone := value_override_single t k key v
    refine (ih (t.override [(k, v)]) hkeys.2).trans ?_
    by_cases hk : k = key
    · subst hk
      have hrest : value rest k = .null := value_of_not_mem hkeys.1
      have hself : value [(k, v)] k = value ((k, v) :: rest) k := by simp [value_cons]
      rw [given, hrest, hone]
      exact given_congr rfl hself
    · have hnull : value [(k, v)] key = .null := by simp [hk, value, get?]
      refine given_congr ?_ (by simp [value_cons, hk])
      rw [hone, given, hnull]

end Table

namespace Config

open Setting (Reads MeansCount MeansSeconds MeansNames MeansCommand MeansTruth MeansText MeansQuote
  CountFault SecondsFault TextFault)

/-! ## The sections -/

/-- The keys of the migration that stand for whole numbers. -/
def countKeys : List String := ["batch_size", "workers", "max_file_bytes"]

/-- The keys of the migration that stand for text. -/
def textKeys : List String :=
  ["test_file_suffix", "utils_module", "utils_binding", "helpers_namespace"]

/-- The faults of the section of the migration. -/
inductive MigrateFault (levels : Nat) (setting : String → Setting) (e : ConfigError) : Prop
  | count {key : String} (mem : key ∈ countKeys) (fault : CountFault (setting key) e)
  | seconds (fault : SecondsFault (setting "stall_seconds") e)
  | text {key : String} (mem : key ∈ textKeys) (fault : TextFault levels (setting key) e)

/-- Each setting of the migration is that of its key. -/
structure MigrateFollows (processors : Option Nat) (setting : String → Setting)
    (m : MigrateSettings) : Prop where
  batchSize : (setting "batch_size").Reads MeansCount 50 m.batchSize
  workers : (setting "workers").Reads MeansCount (defaultWorkers processors) m.workers
  stallSeconds : (setting "stall_seconds").Reads MeansSeconds (.ofInt 120) m.stallSeconds
  maxFileBytes : (setting "max_file_bytes").Reads MeansCount 1000000 m.maxFileBytes
  extensions : (setting "extensions").Reads MeansNames [".js"] m.extensions
  ignoredDirs : (setting "ignored_dirs").Reads MeansNames [] m.ignoredDirs
  deleteOriginals : (setting "delete_originals").Reads MeansTruth true m.deleteOriginals
  testFileSuffix : (setting "test_file_suffix").Reads MeansText ".test.js" m.testFileSuffix
  utilsModule :
    (setting "utils_module").Reads MeansText Migration.defaultUtilsModule m.utilsModule
  utilsBinding : (setting "utils_binding").Reads MeansText "u" m.utilsBinding
  helpersNamespace : (setting "helpers_namespace").Reads MeansText "h" m.helpersNamespace

/-- Each setting of the inference is that of its key. -/
structure InferenceFollows (setting : String → Setting) (s : InferenceSettings) : Prop where
  enabled : (setting "enabled").Reads MeansTruth true s.enabled
  command : (setting "command").Reads MeansCommand ["flow"] s.command
  maxTypeLength : (setting "max_type_length").Reads MeansCount 100 s.maxTypeLength

/-- Each option of the printer is that of its key. -/
structure PrinterFollows (setting : String → Setting) (o : PrinterOptions) : Prop where
  quote : (setting "quote").Reads MeansQuote "single" o.quote
  trailingComma : (setting "trailing_comma").Reads MeansTruth true o.trailingComma
  objectCurlySpacing : (setting "object_curly_spacing").Reads MeansTruth false o.objectCurlySpacing

/-- The faults of the migration's settings are those of its single settings. -/
theorem migrateFault_iff {levels : Nat} {setting : String → Setting} {e : ConfigError} :
    (CountFault (setting "batch_size") e ∨ CountFault (setting "workers") e ∨
      SecondsFault (setting "stall_seconds") e ∨ CountFault (setting "max_file_bytes") e ∨
      TextFault levels (setting "test_file_suffix") e ∨
      TextFault levels (setting "utils_module") e ∨
      TextFault levels (setting "utils_binding") e ∨
      TextFault levels (setting "helpers_namespace") e) ↔
    MigrateFault levels setting e := by
  constructor
  · rintro (h | h | h | h | h | h | h | h)
    · exact .count (by decide) h
    · exact .count (by decide) h
    · exact .seconds h
    · exact .count (by decide) h
    · exact .text (by decide) h
    · exact .text (by decide) h
    · exact .text (by decide) h
    · exact .text (by decide) h
  · rintro (⟨hkey, h⟩ | h | ⟨hkey, h⟩)
    · simp only [countKeys, List.mem_cons, List.not_mem_nil, or_false] at hkey
      rcases hkey with rfl | rfl | rfl <;> simp [h]
    · simp [h]
    · simp only [textKeys, List.mem_cons, List.not_mem_nil, or_false] at hkey
      rcases hkey with rfl | rfl | rfl | rfl <;> simp [h]

/-- **The migration's settings are settled.** -/
theorem migrateSettings_settles (nesting : Nesting) (processors : Option Nat) (t : Table) :
    Settles (MigrateFault nesting.shown t.value) (MigrateFollows processors t.value)
      (migrateSettings nesting processors t) := by
  refine Settles.congr ?_ (fun _ => migrateFault_iff) fun _ => id
  rw [migrateSettings]
  refine .bind (Setting.asPositiveInt_settles _ _) fun batchSize hbatchSize => ?_
  refine .bind (Setting.asPositiveInt_settles _ _) fun workers hworkers => ?_
  refine .bind (Setting.asPositiveDouble_settles _ _) fun stallSeconds hstallSeconds => ?_
  refine .bind (Setting.asPositiveInt_settles _ _) fun maxFileBytes hmaxFileBytes => ?_
  refine .bind (Setting.asText_settles _ _ _) fun testFileSuffix htestFileSuffix => ?_
  refine .bind (Setting.asText_settles _ _ _) fun utilsModule hutilsModule => ?_
  refine .bind (Setting.asText_settles _ _ _) fun utilsBinding hutilsBinding => ?_
  refine .map (Setting.asText_settles _ _ _) fun helpersNamespace hhelpersNamespace => ?_
  exact {
    batchSize := hbatchSize
    workers := hworkers
    stallSeconds := hstallSeconds
    maxFileBytes := hmaxFileBytes
    extensions := Setting.asNames_reads _ _
    ignoredDirs := Setting.asNames_reads_nil _
    deleteOriginals := Setting.asBool_reads _ _
    testFileSuffix := htestFileSuffix
    utilsModule := hutilsModule
    utilsBinding := hutilsBinding
    helpersNamespace := hhelpersNamespace }

/-- So are the settings of the inference. -/
theorem inferenceSettings_settles (t : Table) :
    Settles (CountFault (t.value "max_type_length")) (InferenceFollows t.value)
      (inferenceSettings t) := by
  rw [inferenceSettings]
  refine .map (Setting.asPositiveInt_settles _ _) fun maxTypeLength hmaxTypeLength => ?_
  exact ⟨Setting.asBool_reads _ _, Setting.asCommand_reads _ _, hmaxTypeLength⟩

/-- The printer's options follow the table, which has no fault there. -/
theorem printerOptions_follows (t : Table) : PrinterFollows t.value (printerOptions t) where
  quote := by
    rw [printerOptions]
    cases t.value "quote" with
    | text q =>
      dsimp only
      split
      next h => exact .meant (.intro (List.contains_iff_mem.1 h))
      next h => exact .other fun | _, .intro known => h (List.contains_iff_mem.2 known)
    | null | bool _ | int _ | double _ | moment _ | list _ | table _ => exact .other nofun
  trailingComma := Setting.asBool_reads _ _
  objectCurlySpacing := Setting.asBool_reads _ _

/-! ## The whole table -/

/-- The setting of the migration for each key: that of the command line, unless it is
null, or else that of the table. -/
def migrateSetting (overrides t : Table) : String → Setting :=
  (section? t "migrate").given overrides

/-- The faults of a table and of what the command line puts over it. -/
inductive TableFault (levels : Nat) (overrides t : Table) (e : ConfigError) : Prop
  | migrate (fault : MigrateFault levels (migrateSetting overrides t) e)
  | typeLength (fault : CountFault ((section? t "oracle").value "max_type_length") e)

variable (root : String) (configPath : Option String) (processors : Option Nat)
  (bridgeScript : String)

/-- A configuration follows a table and the command line. -/
structure Follows (overrides t : Table) (c : Config) : Prop where
  root : c.root = root
  migrate : MigrateFollows processors (migrateSetting overrides t) c.migrate
  inference : InferenceFollows (section? t "oracle").value c.inference
  bridgeCommand : ((section? t "bridge").value "command").Reads MeansCommand
    ["node", bridgeScript] c.bridgeCommand
  printer : PrinterFollows (section? t "printer").value c.printer
  allowlists : c.allowlists = section? t "allowlists"
  configPath : c.configPath = configPath

/-- The bounds that a run relies on. -/
structure Bounded (c : Config) : Prop where
  batchSize : 1 ≤ c.migrate.batchSize
  workers : 1 ≤ c.migrate.workers
  maxFileBytes : 1 ≤ c.migrate.maxFileBytes
  maxTypeLength : 1 ≤ c.inference.maxTypeLength
  stallSeconds : c.migrate.stallSeconds.isPositive = true
  extensions : c.migrate.extensions ≠ []
  command : c.inference.command ≠ []
  bridgeCommand : c.bridgeCommand ≠ []

/-- A count that is read is at least one when its default is. -/
theorem one_le_of_reads {v : Setting} {default n : Int} (h : v.Reads MeansCount default n)
    (hdefault : 1 ≤ default) : 1 ≤ n := by
  refine h.induction (P := (1 ≤ ·)) (fun n hn => ?_) hdefault
  cases hn with
  | int pos | double _ pos | text _ pos => exact pos

/-- Seconds that are read are positive when their default is. -/
theorem isPositive_of_reads {v : Setting} {default x : Double}
    (h : v.Reads MeansSeconds default x) (hdefault : default.isPositive = true) :
    x.isPositive = true := by
  refine h.induction (P := (·.isPositive = true)) (fun x hx => ?_) hdefault
  cases hx with
  | int pos => rwa [Double.isPositive_ofInt, decide_eq_true_iff]
  | double pos | text _ pos => exact pos

/-- A command that is read has a word when its default does. -/
theorem ne_nil_of_reads {v : Setting} {default command : List String}
    (h : v.Reads MeansCommand default command) (hdefault : default ≠ []) : command ≠ [] := by
  refine h.induction (P := (· ≠ [])) (fun _ hmeans => ?_) hdefault
  cases hmeans with
  | text hsome | list hsome => exact hsome

/-- By default there is at least one worker. -/
theorem one_le_defaultWorkers (processors : Option Nat) : 1 ≤ defaultWorkers processors := by
  match processors with
  | some (n + 1) => exact Int.ofNat_le.2 (Nat.succ_le_succ (Nat.zero_le n))
  | some 0 | none => exact Int.le_refl 1

variable {root configPath processors bridgeScript} {nesting : Nesting}

/-- **What follows a table lies within the bounds**, whatever is in the table. -/
theorem Follows.bounded {overrides t : Table} {c : Config}
    (h : Follows root configPath processors bridgeScript overrides t c) : Bounded c where
  batchSize := one_le_of_reads h.migrate.batchSize (by decide)
  workers := one_le_of_reads h.migrate.workers (one_le_defaultWorkers processors)
  maxFileBytes := one_le_of_reads h.migrate.maxFileBytes (by decide)
  maxTypeLength := one_le_of_reads h.inference.maxTypeLength (by decide)
  stallSeconds := by
    refine isPositive_of_reads h.migrate.stallSeconds ?_
    rw [Double.isPositive_ofInt]
    decide
  extensions :=
    h.migrate.extensions.induction (P := (· ≠ [])) (fun | _, .intro hsome => hsome) (by simp)
  command := ne_nil_of_reads h.inference.command (by simp)
  bridgeCommand := ne_nil_of_reads h.bridgeCommand (by simp)

/-- **A whole table is settled**, whatever the overrides. -/
theorem ofTable_settles {overrides : Table} (hkeys : (overrides.map (·.1)).Nodup) (t : Table) :
    Settles (TableFault nesting.shown overrides t)
      (Follows root configPath processors bridgeScript overrides t)
      (ofTable nesting root configPath processors bridgeScript overrides t) := by
  have hmigrate :=
    migrateSettings_settles nesting processors ((section? t "migrate").override overrides)
  -- the section that is read is that of the file with the command line over it
  rw [show Table.value ((section? t "migrate").override overrides) = migrateSetting overrides t from
    funext (Table.value_override _ hkeys)] at hmigrate
  rw [ofTable]
  refine Settles.congr (.bind hmigrate fun migrate hmigrate =>
    .map (Q := Follows root configPath processors bridgeScript overrides t)
      (inferenceSettings_settles _) fun inference hinference => ?_) (fun e => ?_) fun _ => id
  · exact ⟨rfl, hmigrate, hinference, Setting.asCommand_reads _ _, printerOptions_follows _,
      rfl, rfl⟩
  · exact ⟨fun h => h.elim .migrate .typeLength,
      fun | .migrate h => .inl h | .typeLength h => .inr h⟩

/-! ## The file -/

/-- The faults of the file at a path: its bytes are no text, it has a whole number with
too many digits, or it opens more arrays and inline tables inside one another than a
limit. -/
inductive FileFault (limit : Nat) (files : Files) (path : Path) : ConfigError → Prop
  | notText {bytes : List UInt8} (read : files.read path = .ok bytes)
    (h : ∀ s, bytes ≠ Utf8.encode s) : FileFault limit files path .notText
  | tooManyDigits {s : String} (read : files.read path = .ok (Utf8.encode s))
    (long : HasLongRun Toml.isNumeral s.toList)
    (h : Toml.read limit s = .error (.text .tooManyDigits)) :
    FileFault limit files path .tooManyDigits
  | tooDeep {s : String} (read : files.read path = .ok (Utf8.encode s))
    (deep : limit < Toml.openings s.toList) (h : Toml.read limit s = .error .tooDeep) :
    FileFault limit files path .tooDeep

/-- The table in the file at a path; it is empty if no file can be read there, or no TOML. -/
def tableIn (limit : Nat) (files : Files) (path : Path) : Table :=
  match files.read path with
  | .ok bytes => ((Utf8.decode? bytes).bind fun s => (Toml.read limit s).toOption).getD []
  | .error _ => []

/-- Following links never finds a file that is not text. -/
theorem resolveFrom_ne_notText (files : Files) (here : Trail) (parts : List String) :
    files.resolveFrom here parts ≠ .error .notText := by
  induction parts generalizing here with
  | nil => exact nofun
  | cons part rest ih =>
    rw [Files.resolveFrom]
    split
    · split
      · exact ih _
      · exact ih _
    · split <;> exact nofun

/-- Reading bytes does not fail because of what they are. -/
theorem read_ne_notText (files : Files) (path : Path) : files.read path ≠ .error .notText := by
  have hresolve : files.resolve path ≠ .error .notText := by
    rw [Files.resolve]
    split
    · exact resolveFrom_ne_notText files [] _
    · split <;> exact nofun
  rw [Files.read]
  cases htrail : files.resolve path with
  | error e =>
    rintro ⟨⟩
    exact hresolve htrail
  | ok t =>
    dsimp only [bind, Except.bind]
    split
    · rintro ⟨⟩
    · split <;> rintro ⟨⟩

/-- A configuration file is settled: it is absent, a table, or a fault. -/
theorem tableOf_settles (files : Files) (path : Path) :
    Settles (FileFault nesting.read files path) (· = tableIn nesting.read files path)
      (tableOf nesting (files.readText path)) := by
  -- the bytes and the text of a file are unique, so a fault is one of those that are met
  rw [Files.readText, tableIn]
  cases hread : files.read path with
  | error e =>
    have hnone : ∀ e, ¬ FileFault nesting.read files path e := by
      rintro _ (⟨hread', -⟩ | ⟨hread', -⟩ | ⟨hread', -⟩) <;> cases hread.symm.trans hread'
    cases e with
    | notText => exact absurd hread (read_ne_notText files path)
    | notFound | isDirectory | notDirectory => exact .ok hnone rfl
  | ok bytes =>
    dsimp only [bind, Except.bind]
    cases hdecode : Utf8.decode? bytes with
    | none =>
      refine FileFault.notText hread fun s hs => ?_
      rw [Utf8.decode?_eq_some.2 hs] at hdecode
      cases hdecode
    | some s =>
      obtain rfl := Utf8.decode?_eq_some.1 hdecode
      have hsame {s' : String} (hread' : files.read path = .ok (Utf8.encode s')) : s' = s := by
        rw [← Except.ok.inj (hread'.symm.trans hread), Utf8.decode?_eq_some.2 rfl] at hdecode
        exact Option.some.inj hdecode
      have hnone (hdigits : Toml.read nesting.read s ≠ .error (.text .tooManyDigits))
          (hdeep : Toml.read nesting.read s ≠ .error .tooDeep) :
          ∀ e, ¬ FileFault nesting.read files path e := by
        rintro _ (⟨hread', htext⟩ | ⟨hread', -, h⟩ | ⟨hread', -, h⟩)
        · exact htext s (Except.ok.inj (hread'.symm.trans hread))
        · exact hdigits (hsame hread' ▸ h)
        · exact hdeep (hsame hread' ▸ h)
      change Settles _ (· = (Toml.read nesting.read s).toOption.getD []) (tableOf nesting (.ok s))
      rw [tableOf]
      cases htoml : Toml.read nesting.read s with
      | ok t => exact .ok (hnone (htoml ▸ nofun) (htoml ▸ nofun)) rfl
      | error e =>
        match e with
        | .text .malformed => exact .ok (hnone (htoml ▸ nofun) (htoml ▸ nofun)) rfl
        | .text .tooManyDigits =>
          exact FileFault.tooManyDigits hread (Toml.hasLongRun_of_read htoml) htoml
        | .tooDeep => exact FileFault.tooDeep hread (Toml.opens_of_read htoml) htoml

/-- **Resolving a configuration.** Let no key be given twice on the command line. For
every table, and so for every file or none, and however deep values may be nested, a
configuration fails exactly where there is a fault: bytes that are no text, a whole
number with too many digits, values nested too deep to be read or to be written out, an
infinity as a whole number, or a whole number beyond all doubles. Otherwise all its
settings are those of the command line and of the table, and lie within bounds. -/
theorem resolve_settles {overrides : Table} (hkeys : (overrides.map (·.1)).Nodup)
    (nesting : Nesting) (root : String) (configPath : Option String) (processors : Option Nat)
    (bridgeScript : String) :
    (∀ t, Settles (TableFault nesting.shown overrides t)
      (fun c => Bounded c ∧ Follows root configPath processors bridgeScript overrides t c)
      (ofTable nesting root configPath processors bridgeScript overrides t)) ∧
    ∀ files cwd, Settles
      (fun e => FileFault nesting.read files (filePath cwd root configPath) e ∨
        TableFault nesting.shown overrides
          (tableIn nesting.read files (filePath cwd root configPath)) e)
      (fun c => Bounded c ∧ Follows root configPath processors bridgeScript overrides
        (tableIn nesting.read files (filePath cwd root configPath)) c)
      (resolve nesting files cwd root configPath processors bridgeScript overrides) := by
  have htable (t : Table) : Settles (TableFault nesting.shown overrides t)
      (fun c => Bounded c ∧ Follows root configPath processors bridgeScript overrides t c)
      (ofTable nesting root configPath processors bridgeScript overrides t) :=
    (ofTable_settles hkeys t).congr (fun _ => Iff.rfl) fun c hc => ⟨hc.bounded, hc⟩
  refine ⟨htable, fun files cwd => ?_⟩
  rw [resolve]
  refine .bind (tableOf_settles files _) fun t ht => ?_
  rw [← ht]
  exact htable t

/-- The files of a repository with one configuration. -/
def configured (bytes : List UInt8) : Files := .ofList [(["r", "flowshift.toml"], bytes)]

/-- How deep values may be nested where a stack is small. -/
def someNesting : Nesting := ⟨8, 8⟩

/-- What fails in resolving the configuration of such a repository. -/
def failureOf (bytes : List UInt8) : Option ConfigError :=
  match resolve someNesting (configured bytes) "/r" "/r" none (some 4) "bridge.js" [] with
  | .error e => some e
  | .ok _ => none

/-- A byte that begins no character fails, and so do an infinite number of workers and
arrays nested too deep. -/
theorem resolve_fails : failureOf [0xff] = some .notText ∧
    failureOf (Utf8.encode "[migrate]\nworkers = inf\n") = some .unbounded ∧
    failureOf (Utf8.encode "a = [[[[[]]]]]\n") = some .tooDeep := by
  decide +kernel

/-- Settings of the command line: a number of workers, and a size of batches that is null. -/
def someOverrides : Table := [("workers", .int 3), ("batch_size", .null)]

/-- The size of batches is that of the file, and the number of workers that of the command
line, although the file has both. -/
theorem resolve_settles_configured :
    (someOverrides.map (·.1)).Nodup ∧
      ∃ c, resolve someNesting
          (configured (Utf8.encode "[migrate]\nbatch_size = 10\nworkers = 2\n"))
          "/r" "/r" none (some 4) "bridge.js" someOverrides = .ok c ∧
        Bounded c ∧ c.migrate.batchSize = 10 ∧ c.migrate.workers = 3 := by
  have hkeys : (someOverrides.map (·.1)).Nodup := by decide +kernel
  -- for all files first, so that nothing but the kernel reads the ones at hand
  have hresolved (files : Files)
      (hread : (resolve someNesting files "/r" "/r" none (some 4) "bridge.js"
        someOverrides).toOption.map (fun c => (c.migrate.batchSize, c.migrate.workers)) =
          some (10, 3)) :
      ∃ c, resolve someNesting files "/r" "/r" none (some 4) "bridge.js" someOverrides = .ok c ∧
        Bounded c ∧ c.migrate.batchSize = 10 ∧ c.migrate.workers = 3 := by
    have hsettles := (resolve_settles hkeys someNesting "/r" none (some 4) "bridge.js").2 files "/r"
    cases hr : resolve someNesting files "/r" "/r" none (some 4) "bridge.js" someOverrides with
    | error e =>
      rw [hr] at hread
      cases hread
    | ok c =>
      rw [hr] at hsettles hread
      obtain ⟨hbatchSize, hworkers⟩ := Prod.mk.inj (Option.some.inj hread)
      exact ⟨c, rfl, hsettles.2.1, hbatchSize, hworkers⟩
  exact ⟨hkeys, hresolved _ (by decide +kernel)⟩

end Config

end Retype
