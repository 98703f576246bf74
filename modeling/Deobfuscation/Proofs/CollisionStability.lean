import Deobfuscation.Proofs.MemberCollisions
import Deobfuscation.Proofs.TableOrder

/-!
Resolving collisions changes as little as it can. Entries are only added, behind the others, and
only for members that the class file of the class declares. What a class gets depends on its own
mapping, its own file and the class table, which stays as it is; so it does not matter in which
order class files come, and a second run finds nothing left to do.
-/

namespace Deobfuscation.Collision

theorem idxOf_le_of_getElem? {Key : Type} [DecidableEq Key] {keys : List Key} {key : Key}
    {position : Nat} (listed : keys[position]? = some key) : keys.idxOf key ≤ position := by
  obtain ⟨inside, same⟩ := List.getElem?_eq_some_iff.mp listed
  by_contra later
  have other := List.not_of_lt_findIdx (Nat.not_le.mp later)
  simp [same] at other

def Appends {Key : Type} (Allowed : Key × String → Prop) (table result : Table Key String) :
    Prop :=
  ∃ added, result.entries = table.entries ++ added ∧ ∀ entry ∈ added, Allowed entry

theorem appends_refl {Key : Type} (Allowed : Key × String → Prop) (table : Table Key String) :
    Appends Allowed table table := ⟨[], by simp, nofun⟩

theorem Appends.imp {Key : Type} {Allowed Permitted : Key × String → Prop}
    {table result : Table Key String} (appends : Appends Allowed table result)
    (weaker : ∀ entry, Allowed entry → Permitted entry) : Appends Permitted table result := by
  obtain ⟨added, entries, each⟩ := appends
  exact ⟨added, entries, fun entry member => weaker entry (each entry member)⟩

namespace Naming

variable {Key : Type} (naming : Naming Key) [DecidableEq Key]

/-- An entry that may be added: it is for a declared key that has no entry, and its name is made
with a number from the position of the first such key on. -/
structure NewEntry (table : Table Key String) (keys : List Key) (entry : Key × String) : Prop where
  declared : entry.1 ∈ keys
  unmapped : table.get? entry.1 = none
  numbered : ∃ ordinal, keys.idxOf entry.1 ≤ ordinal ∧
    entry.2 = candidate (naming.label entry.1) ordinal

variable {naming} {table : Table Key String} {keys : List Key} {shift : Shift Key}

theorem step_appends (appends : Appends (naming.NewEntry table keys) table shift.table)
    (targets : List Key) {item : Key × Nat} (listed : keys[item.2]? = some item.1) :
    Appends (naming.NewEntry table keys) table (naming.step targets shift item).table := by
  unfold step
  split
  · exact appends
  · rename_i moves
    push Not at moves
    obtain ⟨added, entries, each⟩ := appends
    have fresh : item.1 ∉ shift.table.entries.map Prod.fst :=
      Table.find_eq_none_iff.mp (Option.not_isSome_iff_eq_none.mp moves.1)
    refine ⟨added ++ [(item.1, freeName (naming.label item.1) item.2 shift.taken)], ?_, ?_⟩
    · rw [← List.append_assoc, ← entries]
      exact Table.put_of_fresh fresh _
    · intro entry member
      rcases List.mem_append.mp member with earlier | last
      · exact each entry earlier
      · rw [List.mem_singleton.mp last]
        obtain ⟨ordinal, first, same⟩ :=
          freeName_eq_candidate (naming.label item.1) item.2 shift.taken
        refine ⟨List.mem_of_getElem? listed, ?_, ordinal,
          Nat.le_trans (idxOf_le_of_getElem? listed) first, same⟩
        apply Table.find_eq_none_iff.mpr
        rw [entries, List.map_append] at fresh
        exact fun inside => fresh (List.mem_append_left _ inside)

theorem settle_appends (naming : Naming Key) (table : Table Key String) (keys : List Key) :
    Appends (naming.NewEntry table keys) table (naming.settle table keys) := by
  have all : ∀ (items : List (Key × Nat)) (shift : Shift Key),
      (∀ item ∈ items, keys[item.2]? = some item.1) →
      Appends (naming.NewEntry table keys) table shift.table →
      Appends (naming.NewEntry table keys) table
        (items.foldl (naming.step (naming.targets table)) shift).table := by
    intro items
    induction items with
    | nil => exact fun _ _ appends => appends
    | cons item rest ih =>
        intro shift listed appends
        apply ih
        · exact fun other later => listed other (List.mem_cons_of_mem item later)
        · exact step_appends appends _ (listed item List.mem_cons_self)
  exact all keys.zipIdx (naming.start table keys)
    (fun item member => List.mem_zipIdx_iff_getElem?.mp member) (appends_refl _ table)

/-- A declared key that has no entry at the end is no target then: old targets are evaded, and new
ones are no declared names. -/
theorem not_mem_targets_settle {key : Key} (declared : key ∈ keys)
    (absent : (naming.settle table keys).get? key = none) :
    key ∉ naming.targets (naming.settle table keys) := by
  have evading := settle_evading naming table keys
  -- the key had no entry at the start either, so it was no target then
  have unmapped : table.get? key = none := by
    cases found : table.get? key with
    | none => rfl
    | some name =>
        rw [settle, evading.kept key name found] at absent
        cases absent
  have untargeted : key ∉ naming.targets table := by
    intro target
    have present := (isSome_settle_iff naming table keys unmapped).mpr ⟨declared, target⟩
    rw [absent] at present
    cases present
  intro target
  obtain ⟨⟨other, name⟩, member, same⟩ := List.mem_map.mp target
  have found := (naming.settle table keys).get?_eq_some_iff.mpr member
  cases old : table.get? other with
  | some oldName =>
      rw [settle, evading.kept other oldName old] at found
      cases found
      exact untargeted (List.mem_map.mpr ⟨(other, name), Table.mem_of_find old, same⟩)
  | none =>
      apply evading.fresh other name ⟨old, found⟩
      have label : naming.label key = name := by rw [← same, naming.label_relabel]
      exact List.mem_append_right _ (List.mem_map.mpr ⟨key, declared, label⟩)

theorem settle_settle (naming : Naming Key) (table : Table Key String) (keys : List Key) :
    naming.settle (naming.settle table keys) keys = naming.settle table keys := by
  -- every declared key has its entry or is in nobody's way, so no turn does anything
  have all : ∀ items : List (Key × Nat), (∀ item ∈ items, item.1 ∈ keys) →
      items.foldl (naming.step (naming.targets (naming.settle table keys)))
          (naming.start (naming.settle table keys) keys) =
        naming.start (naming.settle table keys) keys := by
    intro items
    induction items with
    | nil => exact fun _ => rfl
    | cons item rest ih =>
        intro declared
        have idle : naming.step (naming.targets (naming.settle table keys))
            (naming.start (naming.settle table keys) keys) item =
            naming.start (naming.settle table keys) keys := by
          apply if_pos
          cases found : (naming.settle table keys).get? item.1 with
          | some name => simp [start, found]
          | none => exact Or.inr (not_mem_targets_settle (declared item List.mem_cons_self) found)
        rw [List.foldl_cons, idle]
        exact ih fun other later => declared other (List.mem_cons_of_mem item later)
  conv_lhs => rw [settle]
  rw [all keys.zipIdx fun item member => List.fst_mem_of_mem_zipIdx member]
  rfl

end Naming

section Success

variable {classNames : Table String String} {mappings next : Mappings} {file : ClassFile}
  {files : List ClassFile} {before after : Array Notice}

theorem runs_forM_note (notices : List Notice) (before : Array Notice) :
    ∃ after, Runs (notices.forM Logged.note) before () after := by
  induction notices generalizing before with
  | nil => exact ⟨before, runs_pure.mpr ⟨rfl, rfl⟩⟩
  | cons notice rest ih =>
      obtain ⟨after, run⟩ := ih (before.push notice)
      rw [List.forM_eq_forM, List.forM_cons]
      exact ⟨after, runs_bind.mpr ⟨(), before.push notice, runs_modify.mpr rfl, run⟩⟩

def Examinable (classNames : Table String String) (file : ClassFile) : Prop :=
  ∃ name, file.name = .ok name ∧ (name ∈ classNames.keys → ∃ names keys,
    fieldNames file = .ok names ∧ methodKeys classNames file = .ok keys)

theorem exists_runs_attach_iff (before : Array Notice) (mapping : ClassMapping) :
    (∃ attached after, Runs (attach classNames file mapping) before attached after) ↔
      ∃ names keys, fieldNames file = .ok names ∧ methodKeys classNames file = .ok keys := by
  simp only [attach, runs_bind, runs_lift, runs_pure]
  constructor
  · rintro ⟨_, _, names, _, ⟨namesRead, -⟩, _, _, -, keys, _, ⟨keysRead, -⟩, -⟩
    exact ⟨names, keys, namesRead, keysRead⟩
  · rintro ⟨names, keys, namesRead, keysRead⟩
    obtain ⟨middle, fieldNotes⟩ := runs_forM_note (moveFields mapping names).moved before
    obtain ⟨last, methodNotes⟩ :=
      runs_forM_note (moveMethods (moveFields mapping names).mapping keys).moved middle
    exact ⟨_, last, names, before, ⟨namesRead, rfl⟩, (), middle, fieldNotes, keys, middle,
      ⟨keysRead, rfl⟩, (), last, methodNotes, rfl, rfl⟩

theorem mem_keys_iff {name : String} :
    name ∈ mappings.classes.keys ↔ ∃ mapping, mappings.get? name = some mapping := by
  constructor
  · intro known
    obtain ⟨⟨_, mapping⟩, member, rfl⟩ := List.mem_map.mp known
    exact Table.find_of_mem member
  · rintro ⟨mapping, found⟩
    exact List.mem_map.mpr ⟨_, Table.mem_of_find found, rfl⟩

theorem exists_runs_resolveClass_iff (before : Array Notice)
    (sameKeys : mappings.classes.keys = classNames.keys) :
    (∃ next after, Runs (resolveClass classNames mappings file) before next after) ↔
      Examinable classNames file := by
  unfold Examinable
  rw [← sameKeys]
  constructor
  · rintro ⟨next, after, run⟩
    obtain ⟨name, named, ⟨unmapped, -⟩ | ⟨mapping, attached, _, _, -, attachRun, -⟩⟩ :=
      resolveClass_cases run
    · refine ⟨name, named, fun known => ?_⟩
      obtain ⟨mapping, found⟩ := mem_keys_iff.mp known
      rw [unmapped] at found
      cases found
    · exact ⟨name, named, fun _ => (exists_runs_attach_iff _ mapping).mp ⟨_, _, attachRun⟩⟩
  · rintro ⟨name, named, readable⟩
    simp only [resolveClass, runs_bind, runs_lift]
    cases found : mappings.get? name with
    | none => exact ⟨mappings, before, name, before, ⟨named, rfl⟩, by simp [found]⟩
    | some mapping =>
        obtain ⟨attached, last, attachRun⟩ := (exists_runs_attach_iff before mapping).mpr
          (readable (mem_keys_iff.mpr ⟨mapping, found⟩))
        refine ⟨mappings.adjust name fun _ => attached, last, name, before, ⟨named, rfl⟩, ?_⟩
        rw [found]
        simp only [runs_bind, runs_adapt, runs_pure]
        exact ⟨attached, last, attachRun, rfl, rfl⟩

theorem exists_runs_foldlM_iff (before : Array Notice)
    (sameKeys : mappings.classes.keys = classNames.keys) :
    (∃ last after, Runs (files.foldlM (resolveClass classNames) mappings) before last after) ↔
      ∀ file ∈ files, Examinable classNames file := by
  induction files generalizing mappings before with
  | nil => exact ⟨fun _ => nofun, fun _ => ⟨mappings, before, runs_pure.mpr ⟨rfl, rfl⟩⟩⟩
  | cons file rest ih =>
      simp only [List.foldlM_cons, runs_bind, List.forall_mem_cons]
      constructor
      · rintro ⟨last, after, next, middle, first, later⟩
        have nextKeys := (keys_resolveClass first).trans sameKeys
        exact ⟨(exists_runs_resolveClass_iff before sameKeys).mp ⟨next, middle, first⟩,
          (ih middle nextKeys).mp ⟨last, after, later⟩⟩
      · rintro ⟨head, tail⟩
        obtain ⟨next, middle, first⟩ := (exists_runs_resolveClass_iff before sameKeys).mpr head
        have nextKeys := (keys_resolveClass first).trans sameKeys
        obtain ⟨last, after, later⟩ := (ih middle nextKeys).mpr tail
        exact ⟨last, after, next, middle, first, later⟩

theorem exists_cleared_iff
    (distinct : files.Pairwise fun first second => first.name ≠ second.name) :
    (∃ resolved, Cleared mappings files resolved) ↔
      ∀ file ∈ files, Examinable mappings.classNames file := by
  rw [← exists_runs_foldlM_iff #[] (keys_classNames mappings).symm]
  constructor
  · rintro ⟨resolved, cleared⟩
    exact ⟨resolved, _, cleared.runs⟩
  · rintro ⟨resolved, after, run⟩
    exact ⟨resolved, distinct, congrArg Prod.fst run⟩

end Success

def settleClass (names : List String) (keys : List MethodKey) (mapping : ClassMapping) :
    ClassMapping :=
  { mapping with
    fields := fieldNaming.settle mapping.fields names
    methods := methodNaming.settle mapping.methods keys }

theorem settleClass_settleClass (names : List String) (keys : List MethodKey)
    (mapping : ClassMapping) :
    settleClass names keys (settleClass names keys mapping) = settleClass names keys mapping := by
  simp only [settleClass, Naming.settle_settle]

theorem eq_settleClass {mapping attached : ClassMapping} {names : List String}
    {keys : List MethodKey} (same : classNamesOf attached = classNamesOf mapping)
    (fields : attached.fields = fieldNaming.settle mapping.fields names)
    (methods : attached.methods = methodNaming.settle mapping.methods keys) :
    attached = settleClass names keys mapping := by
  cases attached
  cases same
  cases fields
  cases methods
  rfl

namespace Cleared

variable {mappings resolved : Mappings} {files : List ClassFile} {file : ClassFile}
  {owner : String}

theorem settled (cleared : Cleared mappings files resolved) (inside : file ∈ files)
    (named : file.name = .ok owner) {mapping : ClassMapping}
    (mapped : mappings.get? owner = some mapping) :
    ∃ names keys, fieldNames file = .ok names ∧ methodKeys mappings.classNames file = .ok keys ∧
      resolved.get? owner = some (settleClass names keys mapping) := by
  rcases cleared.attached inside named with ⟨missing, -⟩ | ⟨_, attached, same, found, attaches⟩
  · rw [missing] at mapped
    cases mapped
  · rw [mapped] at same
    cases same
    obtain ⟨names, namesRead, fields⟩ := attaches.fields
    obtain ⟨keys, keysRead, methods⟩ := attaches.methods
    have kept := classNamesOf_resolve cleared.runs owner
    rw [found, mapped, Option.map_some, Option.map_some] at kept
    exact ⟨names, keys, namesRead, keysRead,
      by rw [found, eq_settleClass (Option.some.inj kept) fields methods]⟩

/-- The result is fixed by what it has for each class: the settled mapping if the class has a
file, and the same mapping as before if not. -/
theorem eq_of_settled (cleared : Cleared mappings files resolved) {other : Mappings}
    (sameKeys : other.classes.keys = mappings.classes.keys)
    (each : ∀ file ∈ files, ∀ owner mapping names keys, file.name = .ok owner →
      mappings.get? owner = some mapping → fieldNames file = .ok names →
      methodKeys mappings.classNames file = .ok keys →
      other.get? owner = some (settleClass names keys mapping))
    (rest : ∀ owner, (∀ file ∈ files, file.name ≠ .ok owner) →
      other.get? owner = mappings.get? owner) : other = resolved := by
  have values : ∀ owner, other.get? owner = resolved.get? owner := by
    intro owner
    by_cases present : ∃ file ∈ files, file.name = .ok owner
    · obtain ⟨file, inside, named⟩ := present
      cases mapped : mappings.get? owner with
      | some mapping =>
          obtain ⟨names, keys, namesRead, keysRead, found⟩ := cleared.settled inside named mapped
          rw [each file inside owner mapping names keys named mapped namesRead keysRead, found]
      | none =>
          have absent : owner ∉ mappings.classes.keys := Table.find_eq_none_iff.mp mapped
          have left : other.get? owner = none :=
            Table.find_eq_none_iff.mpr fun known => absent (sameKeys ▸ known)
          have right : resolved.get? owner = none :=
            Table.find_eq_none_iff.mpr fun known => absent (keys_resolve cleared.runs ▸ known)
          rw [left, right]
    · push Not at present
      rw [rest owner present, get?_resolve_of_ne cleared.runs present]
  have same : other.classes = resolved.classes :=
    Table.eq_of_keys_of_values (sameKeys.trans (keys_resolve cleared.runs).symm) values
  cases other
  cases resolved
  cases same
  rfl

/-- A second run over the same class files changes nothing. -/
theorem again (cleared : Cleared mappings files resolved) : Cleared resolved files resolved := by
  have examinable := (exists_cleared_iff cleared.distinct).mp ⟨resolved, cleared⟩
  rw [← classNames_resolve cleared.runs] at examinable
  obtain ⟨last, second⟩ := (exists_cleared_iff cleared.distinct).mpr examinable
  have same : resolved = last := by
    refine second.eq_of_settled rfl ?_ fun _ _ => rfl
    intro file inside owner result names keys named found namesRead keysRead
    have known := keys_resolve cleared.runs ▸ mem_keys_iff.mpr ⟨result, found⟩
    obtain ⟨mapping, mapped⟩ := mem_keys_iff.mp known
    obtain ⟨oldNames, oldKeys, oldNamesRead, oldKeysRead, settled⟩ :=
      cleared.settled inside named mapped
    rw [classNames_resolve cleared.runs, oldKeysRead] at keysRead
    rw [oldNamesRead] at namesRead
    cases keysRead
    cases namesRead
    rw [found] at settled
    cases settled
    rw [settleClass_settleClass]
    exact found
  exact same ▸ second

theorem perm (cleared : Cleared mappings files resolved) {others : List ClassFile}
    (order : others.Perm files) : Cleared mappings others resolved := by
  have distinct := (order.pairwise_iff fun apart => apart.symm).mpr cleared.distinct
  have examinable := (exists_cleared_iff cleared.distinct).mp ⟨resolved, cleared⟩
  obtain ⟨last, reordered⟩ := (exists_cleared_iff distinct).mpr
    fun file member => examinable file (order.mem_iff.mp member)
  have same : resolved = last := by
    refine reordered.eq_of_settled (keys_resolve cleared.runs) ?_ ?_
    · intro file inside owner mapping names keys named mapped namesRead keysRead
      obtain ⟨_, _, sameNames, sameKeys, found⟩ :=
        cleared.settled (order.mem_iff.mp inside) named mapped
      rw [namesRead] at sameNames
      rw [keysRead] at sameKeys
      cases sameNames
      cases sameKeys
      exact found
    · intro owner elsewhere
      exact get?_resolve_of_ne cleared.runs fun file inside =>
        elsewhere file (order.mem_iff.mpr inside)
  exact same ▸ reordered

end Cleared

/-- A class keeps its names and its entries. Whatever is added stands behind them and is for a
member that the file of the class declares. -/
structure Conserved (mappings : Mappings) (files : List ClassFile) (owner : String)
    (mapping result : ClassMapping) : Prop where
  originalName : result.originalName = mapping.originalName
  obfuscatedName : result.obfuscatedName = mapping.obfuscatedName
  fields : Appends (fun entry => ∃ file ∈ files, file.name = .ok owner ∧
    ∃ names, fieldNames file = .ok names ∧ fieldNaming.NewEntry mapping.fields names entry)
    mapping.fields result.fields
  methods : Appends (fun entry => ∃ file ∈ files, file.name = .ok owner ∧
    ∃ keys, methodKeys mappings.classNames file = .ok keys ∧
      methodNaming.NewEntry mapping.methods keys entry) mapping.methods result.methods

theorem Cleared.conserved {mappings resolved : Mappings} {files : List ClassFile}
    (cleared : Cleared mappings files resolved) {owner : String} {mapping : ClassMapping}
    (mapped : mappings.get? owner = some mapping) :
    ∃ result, resolved.get? owner = some result ∧
      Conserved mappings files owner mapping result := by
  by_cases present : ∃ file ∈ files, file.name = .ok owner
  · obtain ⟨file, inside, named⟩ := present
    obtain ⟨names, keys, namesRead, keysRead, found⟩ := cleared.settled inside named mapped
    refine ⟨_, found, rfl, rfl, ?_, ?_⟩
    · exact (Naming.settle_appends fieldNaming mapping.fields names).imp fun _ new =>
        ⟨file, inside, named, names, namesRead, new⟩
    · exact (Naming.settle_appends methodNaming mapping.methods keys).imp fun _ new =>
        ⟨file, inside, named, keys, keysRead, new⟩
  · push Not at present
    have found := get?_resolve_of_ne cleared.runs present
    exact ⟨mapping, found.trans mapped, rfl, rfl, appends_refl _ _, appends_refl _ _⟩

/-- Resolving collisions is conservative, has nothing to do a second time, and does not depend on
the order of the class files. -/
structure Stable (mappings : Mappings) (files : List ClassFile) (resolved : Mappings) : Prop where
  classes : resolved.classes.keys = mappings.classes.keys
  conserved : ∀ owner mapping, mappings.get? owner = some mapping →
    ∃ result, resolved.get? owner = some result ∧ Conserved mappings files owner mapping result
  again : ((resolve resolved files).run.run #[]).1 = .ok resolved
  reordered : ∀ others, others.Perm files →
    ((resolve mappings others).run.run #[]).1 = .ok resolved

theorem resolve_stable (mappings resolved : Mappings) (files : List ClassFile)
    (distinct : files.Pairwise fun first second => first.name ≠ second.name)
    (run : ((resolve mappings files).run.run #[]).1 = .ok resolved) :
    Stable mappings files resolved := by
  have cleared : Cleared mappings files resolved := ⟨distinct, run⟩
  exact ⟨keys_resolve cleared.runs, fun _ _ => cleared.conserved, cleared.again.run,
    fun _ order => (cleared.perm order).run⟩

/-- The field moves past a candidate that is the name of another field, and the files of two
classes come in both orders. -/
theorem resolve_stable_crowded : ∃ resolved,
    Stable crowdedMappings [crowdedFile, heirFile] resolved ∧
      (resolved.get? "p").map (fun mapping => mapping.fields.entries) =
        some [("a", "x"), ("x", "x_2")] ∧
      ((resolve crowdedMappings [heirFile, crowdedFile]).run.run #[]).1 = .ok resolved := by
  have named : [crowdedFile, heirFile].map ClassFile.name = ["p", "c"].map .ok := by
    decide +kernel
  have run := eq_ok_of_isOk ({} : Mappings)
    (show ((resolve crowdedMappings [crowdedFile, heirFile]).run.run #[]).1.isOk = true by
      decide +kernel)
  have stable := resolve_stable _ _ _ (pairwise_of_names named (by decide)) run
  exact ⟨_, stable, by decide +kernel, stable.reordered _ (.swap _ _ _)⟩

end Deobfuscation.Collision
