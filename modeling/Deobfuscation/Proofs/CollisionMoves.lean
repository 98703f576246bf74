import Deobfuscation.Proofs.CollisionTables
import Deobfuscation.Proofs.FreeNames
import Mathlib.Data.List.Forall2
import Mathlib.Data.Option.Basic

/-!
Where colliding members go. Fields and methods follow one rule, and only the keys they are
told apart by differ. A member moves exactly if its class declares it without mapping it and
maps another member onto it. The name it gets is new: no target, no declared name and no
name that was given before. So the entries of a class never send two declared members to one
place.
-/

namespace Deobfuscation.Collision

/-- A kind of member: what its key says about its name, and the key with another name. -/
structure Naming (Key : Type) where
  label : Key → String
  relabel : Key → String → Key
  label_relabel : ∀ key name, label (relabel key name) = name
  relabel_label : ∀ key, relabel key (label key) = key

def fieldNaming : Naming String where
  label name := name
  relabel _ name := name
  label_relabel _ _ := rfl
  relabel_label _ := rfl

def methodNaming : Naming MethodKey where
  label key := key.name
  relabel key name := ⟨name, key.descriptor⟩
  label_relabel _ _ := rfl
  relabel_label _ := rfl

structure Shift (Key : Type) where
  table : Table Key String
  taken : List String

namespace Naming

variable {Key : Type} (naming : Naming Key) [DecidableEq Key]

/-- The keys that the members of a table have afterwards. -/
def targets (table : Table Key String) : List Key :=
  table.entries.map fun entry => naming.relabel entry.1 entry.2

def step (targets : List Key) (shift : Shift Key) (item : Key × Nat) : Shift Key :=
  if (shift.table.get? item.1).isSome ∨ item.1 ∉ targets then shift
  else
    let target := freeName (naming.label item.1) item.2 shift.taken
    ⟨shift.table.insert item.1 target, target :: shift.taken⟩

def start (table : Table Key String) (keys : List Key) : Shift Key :=
  ⟨table, (naming.targets table).map naming.label ++ keys.map naming.label⟩

def settle (table : Table Key String) (keys : List Key) : Table Key String :=
  (keys.zipIdx.foldl (naming.step (naming.targets table)) (naming.start table keys)).table

/-- The key of a declared member afterwards, as far as its own class says. -/
def moved (table : Table Key String) (key : Key) : Key :=
  naming.relabel key ((table.get? key).getD (naming.label key))

/-- The entry is there now and was not there at the start. -/
def Added (table : Table Key String) (shift : Shift Key) (key : Key) (name : String) : Prop :=
  table.get? key = none ∧ shift.table.get? key = some name

/-- What holds on the way: old entries stay, and added ones have new and different names and
are for declared keys that are in the way of a target. -/
structure Evading (table : Table Key String) (keys : List Key) (shift : Shift Key) : Prop where
  kept : ∀ key name, table.get? key = some name → shift.table.get? key = some name
  grown : ∀ name ∈ (naming.start table keys).taken, name ∈ shift.taken
  recorded : ∀ key name, Added table shift key name → name ∈ shift.taken
  fresh : ∀ key name, Added table shift key name → name ∉ (naming.start table keys).taken
  needed : ∀ key name, Added table shift key name → key ∈ keys ∧ key ∈ naming.targets table
  apart : ∀ first second name, Added table shift first name → Added table shift second name →
    first = second

variable {naming} {table : Table Key String} {keys : List Key} {shift : Shift Key}

theorem not_added_start {key : Key} {name : String} :
    ¬ Added table (naming.start table keys) key name := by
  rintro ⟨absent, found⟩
  rw [start, absent] at found
  cases found

theorem start_evading : naming.Evading table keys (naming.start table keys) where
  kept _ _ found := found
  grown _ taken := taken
  recorded _ _ added := absurd added not_added_start
  fresh _ _ added := absurd added not_added_start
  needed _ _ added := absurd added not_added_start
  apart _ _ _ added _ := absurd added not_added_start

theorem step_cases (naming : Naming Key) (targets : List Key) (shift : Shift Key)
    (item : Key × Nat) :
    ((shift.table.get? item.1).isSome = true ∨ item.1 ∉ targets) ∧
        naming.step targets shift item = shift ∨
      ∃ name ∉ shift.taken, shift.table.get? item.1 = none ∧ item.1 ∈ targets ∧
        naming.step targets shift item = ⟨shift.table.insert item.1 name, name :: shift.taken⟩ := by
  unfold step
  by_cases settled : (shift.table.get? item.1).isSome = true ∨ item.1 ∉ targets
  · exact Or.inl ⟨settled, if_pos settled⟩
  · rw [if_neg settled]
    push Not at settled
    exact Or.inr ⟨_, freeName_not_mem _ _ _, by simpa using settled.1, settled.2, rfl⟩

theorem added_insert {key wanted : Key} {name value : String}
    (added : Added table ⟨shift.table.insert key name, name :: shift.taken⟩ wanted value) :
    wanted = key ∧ value = name ∨ Added table shift wanted value := by
  obtain ⟨absent, found⟩ := added
  rw [Table.get?_insert] at found
  by_cases same : key = wanted
  · rw [if_pos same] at found
    cases found
    exact Or.inl ⟨same.symm, rfl⟩
  · rw [if_neg same] at found
    exact Or.inr ⟨absent, found⟩

theorem step_evading (evading : naming.Evading table keys shift) {item : Key × Nat}
    (declared : item.1 ∈ keys) :
    naming.Evading table keys (naming.step (naming.targets table) shift item) := by
  rcases step_cases naming (naming.targets table) shift item with
    ⟨-, same⟩ | ⟨name, untaken, absent, target, changed⟩
  · rw [same]
    exact evading
  · rw [changed]
    constructor
    case kept =>
      intro key old found
      have different : item.1 ≠ key := by
        rintro rfl
        rw [evading.kept _ _ found] at absent
        cases absent
      rw [Table.get?_insert, if_neg different]
      exact evading.kept key old found
    case grown =>
      intro old taken
      exact List.mem_cons_of_mem name (evading.grown old taken)
    case recorded =>
      intro key value added
      rcases added_insert added with ⟨-, rfl⟩ | earlier
      · exact List.mem_cons_self
      · exact List.mem_cons_of_mem name (evading.recorded key value earlier)
    case fresh =>
      intro key value added
      rcases added_insert added with ⟨-, rfl⟩ | earlier
      · exact fun taken => untaken (evading.grown value taken)
      · exact evading.fresh key value earlier
    case needed =>
      intro key value added
      rcases added_insert added with ⟨rfl, -⟩ | earlier
      · exact ⟨declared, target⟩
      · exact evading.needed key value earlier
    case apart =>
      -- the new name is not taken, and those of earlier entries are
      intro first second value firstAdded secondAdded
      rcases added_insert firstAdded with ⟨firstSame, firstNew⟩ | firstEarlier
      · rcases added_insert secondAdded with ⟨secondSame, -⟩ | secondEarlier
        · rw [firstSame, secondSame]
        · exact absurd (firstNew ▸ evading.recorded _ _ secondEarlier) untaken
      · rcases added_insert secondAdded with ⟨-, secondNew⟩ | secondEarlier
        · exact absurd (secondNew ▸ evading.recorded _ _ firstEarlier) untaken
        · exact evading.apart first second value firstEarlier secondEarlier

theorem foldl_evading {items : List (Key × Nat)} (declared : ∀ item ∈ items, item.1 ∈ keys)
    (evading : naming.Evading table keys shift) :
    naming.Evading table keys (items.foldl (naming.step (naming.targets table)) shift) := by
  induction items generalizing shift with
  | nil => exact evading
  | cons item rest ih =>
      apply ih
      · intro other later
        exact declared other (List.mem_cons_of_mem item later)
      · exact step_evading evading (declared item List.mem_cons_self)

theorem isSome_step {targets : List Key} {item : Key × Nat} {key : Key}
    (present : (shift.table.get? key).isSome = true) :
    ((naming.step targets shift item).table.get? key).isSome = true := by
  rcases step_cases naming targets shift item with ⟨-, same⟩ | ⟨name, -, -, -, changed⟩
  · rw [same]
    exact present
  · rw [changed, Table.get?_insert]
    split
    · rfl
    · exact present

/-- After its turn a key that is a target has an entry, and it keeps it. -/
theorem isSome_foldl {targets : List Key} {items : List (Key × Nat)} {key : Key}
    (target : key ∈ targets)
    (due : (shift.table.get? key).isSome = true ∨ key ∈ items.map Prod.fst) :
    ((items.foldl (naming.step targets) shift).table.get? key).isSome = true := by
  induction items generalizing shift with
  | nil =>
      rcases due with present | listed
      · exact present
      · cases listed
  | cons item rest ih =>
      apply ih
      rcases due with present | listed
      · exact Or.inl (isSome_step present)
      · rcases List.mem_cons.mp listed with rfl | later
        · left
          rcases step_cases naming targets shift item with
            ⟨settled | other, same⟩ | ⟨name, -, -, -, changed⟩
          · rw [same]
            exact settled
          · exact absurd target other
          · rw [changed, Table.get?_insert, if_pos rfl]
            rfl
        · exact Or.inr later

section Settled

variable (naming table keys)

theorem settle_evading :
    naming.Evading table keys
      (keys.zipIdx.foldl (naming.step (naming.targets table)) (naming.start table keys)) := by
  apply foldl_evading _ start_evading
  intro item listed
  have member : item.1 ∈ keys.zipIdx.map Prod.fst := List.mem_map.mpr ⟨item, listed, rfl⟩
  rwa [List.zipIdx_map_fst] at member

theorem isSome_settle_iff {key : Key} (absent : table.get? key = none) :
    ((naming.settle table keys).get? key).isSome = true ↔
      key ∈ keys ∧ key ∈ naming.targets table := by
  constructor
  · intro present
    obtain ⟨name, found⟩ := Option.isSome_iff_exists.mp present
    exact (settle_evading naming table keys).needed key name ⟨absent, found⟩
  · rintro ⟨declared, target⟩
    apply isSome_foldl target
    right
    rwa [List.zipIdx_map_fst]

theorem settle_cases (key : Key) :
    (naming.settle table keys).get? key = table.get? key ∧
        ¬ (table.get? key = none ∧ key ∈ keys ∧ key ∈ naming.targets table) ∨
      ((naming.settle table keys).get? key).isSome = true ∧
        table.get? key = none ∧ key ∈ keys ∧ key ∈ naming.targets table := by
  cases found : table.get? key with
  | some name =>
      exact Or.inl ⟨(settle_evading naming table keys).kept key name found, by simp⟩
  | none =>
      have present := isSome_settle_iff naming table keys found
      by_cases moves : key ∈ keys ∧ key ∈ naming.targets table
      · exact Or.inr ⟨present.mpr moves, rfl, moves⟩
      · have stays := present.not.mpr moves
        exact Or.inl ⟨by simpa using stays, fun claimed => moves claimed.2⟩

/-- A declared member without a mapping ends up where no mapped member goes. -/
theorem moved_not_mem_targets {key : Key} (absent : table.get? key = none)
    (declared : key ∈ keys) :
    naming.moved (naming.settle table keys) key ∉ naming.targets table := by
  intro target
  cases found : (naming.settle table keys).get? key with
  | none =>
      have stays : naming.moved (naming.settle table keys) key = key := by
        rw [moved, found, Option.getD_none, naming.relabel_label]
      have present := (isSome_settle_iff naming table keys absent).mpr ⟨declared, stays ▸ target⟩
      rw [found] at present
      cases present
  | some name =>
      apply (settle_evading naming table keys).fresh key name ⟨absent, found⟩
      have label : naming.label (naming.moved (naming.settle table keys) key) = name := by
        rw [moved, found, Option.getD_some, naming.label_relabel]
      exact List.mem_append_left _ (List.mem_map.mpr ⟨_, target, label⟩)

theorem moved_of_mapped {key : Key} {name : String} (found : table.get? key = some name) :
    naming.moved (naming.settle table keys) key = naming.relabel key name := by
  rw [moved, settle, (settle_evading naming table keys).kept key name found, Option.getD_some]

theorem moved_mem_targets {key : Key} {name : String} (found : table.get? key = some name) :
    naming.moved (naming.settle table keys) key ∈ naming.targets table := by
  rw [moved_of_mapped naming table keys found]
  exact List.mem_map.mpr ⟨(key, name), Table.mem_of_find found, rfl⟩

theorem moved_injOn_unmapped {first second : Key} (firstAbsent : table.get? first = none)
    (secondAbsent : table.get? second = none) (firstDeclared : first ∈ keys)
    (secondDeclared : second ∈ keys)
    (same : naming.moved (naming.settle table keys) first =
      naming.moved (naming.settle table keys) second) : first = second := by
  have evading := settle_evading naming table keys
  -- a name that was given away is no declared one
  have unlike : ∀ {key other : Key} {name : String}, table.get? key = none →
      (naming.settle table keys).get? key = some name → other ∈ keys →
      naming.relabel key name ≠ other := by
    intro key other name absent found declared same
    apply evading.fresh key name ⟨absent, found⟩
    have label : naming.label other = name := by rw [← same, naming.label_relabel]
    exact List.mem_append_right _ (List.mem_map.mpr ⟨other, declared, label⟩)
  unfold moved at same
  cases firstFound : (naming.settle table keys).get? first with
  | none =>
      rw [firstFound, Option.getD_none, naming.relabel_label] at same
      cases secondFound : (naming.settle table keys).get? second with
      | none => rwa [secondFound, Option.getD_none, naming.relabel_label] at same
      | some name =>
          rw [secondFound, Option.getD_some] at same
          exact absurd same.symm (unlike secondAbsent secondFound firstDeclared)
  | some name =>
      rw [firstFound, Option.getD_some] at same
      cases secondFound : (naming.settle table keys).get? second with
      | none =>
          rw [secondFound, Option.getD_none, naming.relabel_label] at same
          exact absurd same (unlike firstAbsent firstFound secondDeclared)
      | some other =>
          rw [secondFound, Option.getD_some] at same
          have labels := congrArg naming.label same
          rw [naming.label_relabel, naming.label_relabel] at labels
          exact evading.apart first second name ⟨firstAbsent, firstFound⟩
            ⟨secondAbsent, labels ▸ secondFound⟩

/-- If different members have different targets, different declared members end up at different
places. -/
theorem moved_injOn (distinct : (naming.targets table).Nodup) {first second : Key}
    (firstDeclared : first ∈ keys) (secondDeclared : second ∈ keys)
    (same : naming.moved (naming.settle table keys) first =
      naming.moved (naming.settle table keys) second) : first = second := by
  cases firstFound : table.get? first with
  | none =>
      cases secondFound : table.get? second with
      | none =>
          exact moved_injOn_unmapped naming table keys firstFound secondFound firstDeclared
            secondDeclared same
      | some name =>
          have target := moved_mem_targets naming table keys secondFound
          exact absurd (same ▸ target) (moved_not_mem_targets naming table keys firstFound
            firstDeclared)
  | some name =>
      cases secondFound : table.get? second with
      | none =>
          have target := moved_mem_targets naming table keys firstFound
          exact absurd (same ▸ target) (moved_not_mem_targets naming table keys secondFound
            secondDeclared)
      | some other =>
          rw [moved_of_mapped naming table keys firstFound,
            moved_of_mapped naming table keys secondFound] at same
          exact congrArg Prod.fst (List.inj_on_of_nodup_map distinct
            (Table.mem_of_find firstFound) (Table.mem_of_find secondFound) same)

end Settled

end Naming

section Members

theorem targets_fields (mapping : ClassMapping) :
    fieldNaming.targets mapping.fields = mapping.fields.values := rfl

theorem fields_moveFields (mapping : ClassMapping) (names : List String) :
    (moveFields mapping names).mapping.fields = fieldNaming.settle mapping.fields names := by
  have each : ∀ (progress : Progress) (item : String × Nat),
      fieldNaming.step mapping.fields.values ⟨progress.mapping.fields, progress.taken⟩ item =
        ⟨(progress.field mapping.fields.values item).mapping.fields,
          (progress.field mapping.fields.values item).taken⟩ := by
    intro progress item
    simp only [Naming.step, Progress.field, Table.contains, Bool.or_eq_true, Bool.not_eq_true',
      List.contains_eq_mem, decide_eq_false_iff_not]
    split <;> rfl
  have first : fieldNaming.start mapping.fields names =
      ⟨mapping.fields, mapping.fields.values ++ names⟩ := by
    have labels : ∀ list : List String, list.map fieldNaming.label = list := List.map_id
    rw [Naming.start, labels, labels, targets_fields]
  unfold Naming.settle moveFields
  rw [first]
  exact (congrArg Shift.table (List.foldl_hom
    (fun progress : Progress => (⟨progress.mapping.fields, progress.taken⟩ : Shift String))
    each)).symm

theorem methods_moveFields (mapping : ClassMapping) (names : List String) :
    (moveFields mapping names).mapping.methods = mapping.methods := by
  apply foldl_keeps fun progress : Progress => progress.mapping.methods
  intro progress item
  simp only [Progress.field]
  split <;> rfl

theorem methods_moveMethods (mapping : ClassMapping) (keys : List MethodKey) :
    (moveMethods mapping keys).mapping.methods = methodNaming.settle mapping.methods keys := by
  have each : ∀ (progress : Progress) (item : MethodKey × Nat),
      methodNaming.step (methodNaming.targets mapping.methods)
          ⟨progress.mapping.methods, progress.taken⟩ item =
        ⟨(progress.method (methodNaming.targets mapping.methods) item).mapping.methods,
          (progress.method (methodNaming.targets mapping.methods) item).taken⟩ := by
    intro progress item
    simp only [Naming.step, Progress.method, Table.contains, Bool.or_eq_true, Bool.not_eq_true',
      List.contains_eq_mem, decide_eq_false_iff_not]
    split <;> rfl
  unfold Naming.settle moveMethods
  exact (congrArg Shift.table (List.foldl_hom
    (fun progress : Progress => (⟨progress.mapping.methods, progress.taken⟩ : Shift MethodKey))
    each)).symm

theorem fields_moveMethods (mapping : ClassMapping) (keys : List MethodKey) :
    (moveMethods mapping keys).mapping.fields = mapping.fields := by
  apply foldl_keeps fun progress : Progress => progress.mapping.fields
  intro progress item
  simp only [Progress.method]
  split <;> rfl

end Members

section Resolved

variable {before after : Array Notice} {classNames : Table String String} {file : ClassFile}

/-- The mapping of a class after its class file was looked at. -/
structure Attached (classNames : Table String String) (file : ClassFile)
    (mapping attached : ClassMapping) : Prop where
  fields : ∃ names, fieldNames file = .ok names ∧
    attached.fields = fieldNaming.settle mapping.fields names
  methods : ∃ keys, methodKeys classNames file = .ok keys ∧
    attached.methods = methodNaming.settle mapping.methods keys

theorem attached_of_run {mapping attached : ClassMapping}
    (run : Runs (attach classNames file mapping) before attached after) :
    Attached classNames file mapping attached := by
  simp only [attach, runs_bind, runs_lift, runs_pure] at run
  obtain ⟨names, _, ⟨namesRead, -⟩, _, _, -, keys, _, ⟨keysRead, -⟩, _, _, -, rfl, -⟩ := run
  constructor
  · exact ⟨names, namesRead, by rw [fields_moveMethods, fields_moveFields]⟩
  · exact ⟨keys, keysRead, by rw [methods_moveMethods, methods_moveFields]⟩

theorem get?_resolveClass_of_ne {mappings next : Mappings} {name : String}
    (run : Runs (resolveClass classNames mappings file) before next after)
    (other : file.name ≠ .ok name) : next.get? name = mappings.get? name := by
  obtain ⟨own, named, ⟨-, rfl⟩ | ⟨mapping, attached, _, _, -, -, rfl⟩⟩ := resolveClass_cases run
  · rfl
  · have different : name ≠ own := fun same => other (same ▸ named)
    simp [get?_adjust, different]

theorem get?_resolveClass {mappings next : Mappings} {name : String}
    (run : Runs (resolveClass classNames mappings file) before next after)
    (named : file.name = .ok name) :
    Option.Rel (Attached classNames file) (mappings.get? name) (next.get? name) := by
  obtain ⟨own, ownNamed, changed⟩ := resolveClass_cases run
  rw [named] at ownNamed
  cases ownNamed
  rcases changed with ⟨unmapped, rfl⟩ | ⟨mapping, attached, _, _, mapped, attachRun, rfl⟩
  · rw [unmapped]
    exact .none
  · rw [get?_adjust, mapped, Option.map_some, if_pos rfl]
    exact .some (attached_of_run attachRun)

theorem get?_foldlM_of_ne {files : List ClassFile} {mappings last : Mappings} {name : String}
    (run : Runs (files.foldlM (resolveClass classNames) mappings) before last after)
    (others : ∀ file ∈ files, file.name ≠ .ok name) : last.get? name = mappings.get? name := by
  induction files generalizing mappings before with
  | nil =>
      obtain ⟨rfl, -⟩ := runs_pure.mp run
      rfl
  | cons file rest ih =>
      rw [List.foldlM_cons, runs_bind] at run
      obtain ⟨next, middle, first, later⟩ := run
      rw [ih later fun other member => others other (List.mem_cons_of_mem file member)]
      exact get?_resolveClass_of_ne first (others file List.mem_cons_self)

/-- Classes without a class file keep their mappings. -/
theorem get?_resolve_of_ne {files : List ClassFile} {mappings resolved : Mappings} {name : String}
    (run : Runs (resolve mappings files) before resolved after)
    (others : ∀ file ∈ files, file.name ≠ .ok name) :
    resolved.get? name = mappings.get? name :=
  get?_foldlM_of_ne run others

/-- Among class files with different names each class gets what its own file asks for. -/
theorem get?_resolve {files : List ClassFile} {mappings resolved : Mappings} {name : String}
    (run : Runs (resolve mappings files) before resolved after)
    (distinct : files.Pairwise fun first second => first.name ≠ second.name)
    (inside : file ∈ files) (named : file.name = .ok name) :
    Option.Rel (Attached mappings.classNames file) (mappings.get? name) (resolved.get? name) := by
  have all : ∀ (start : Mappings) (before : Array Notice),
      Runs (files.foldlM (resolveClass mappings.classNames) start) before resolved after →
      Option.Rel (Attached mappings.classNames file) (start.get? name) (resolved.get? name) := by
    clear run
    induction files with
    | nil => cases inside
    | cons head rest ih =>
        intro start before run
        obtain ⟨apart, restDistinct⟩ := List.pairwise_cons.mp distinct
        rw [List.foldlM_cons, runs_bind] at run
        obtain ⟨next, middle, first, later⟩ := run
        rcases List.mem_cons.mp inside with rfl | inRest
        · -- later files have other names, so this mapping stays
          rw [get?_foldlM_of_ne later fun other member same =>
            apart other member (named.trans same.symm)]
          exact get?_resolveClass first named
        · have other : head.name ≠ .ok name := fun same =>
            apart file inRest (same.trans named.symm)
          rw [← get?_resolveClass_of_ne first other]
          exact ih restDistinct inRest next middle later
  exact all mappings before run

end Resolved

end Deobfuscation.Collision
