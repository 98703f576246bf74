import Deobfuscation.Collision
import Deobfuscation.Proofs.Runs
import Deobfuscation.Proofs.TableOrder

/-!
What moving members out of the way leaves alone. Names of members are added to the mappings
of classes, and the class table stays as it is.
-/

namespace Deobfuscation.Collision

theorem foldl_keeps {Held Item Seen : Type} (view : Held → Seen) {step : Held → Item → Held}
    (each : ∀ held item, view (step held item) = view held) (items : List Item) (start : Held) :
    view (items.foldl step start) = view start := by
  induction items generalizing start with
  | nil => rfl
  | cons item rest ih => rw [List.foldl_cons, ih, each]

/-- The names of a class itself. -/
def classNamesOf (mapping : ClassMapping) : String × String :=
  (mapping.originalName, mapping.obfuscatedName)

theorem classNamesOf_moveFields (mapping : ClassMapping) (names : List String) :
    classNamesOf (moveFields mapping names).mapping = classNamesOf mapping := by
  apply foldl_keeps fun progress : Progress => classNamesOf progress.mapping
  intro progress item
  simp only [Progress.field]
  split <;> rfl

theorem classNamesOf_moveMethods (mapping : ClassMapping) (keys : List MethodKey) :
    classNamesOf (moveMethods mapping keys).mapping = classNamesOf mapping := by
  apply foldl_keeps fun progress : Progress => classNamesOf progress.mapping
  intro progress item
  simp only [Progress.method]
  split <;> rfl

section Runs

variable {before after : Array Notice}

theorem classNamesOf_attach {classNames : Table String String} {file : ClassFile}
    {mapping attached : ClassMapping}
    (run : Runs (attach classNames file mapping) before attached after) :
    classNamesOf attached = classNamesOf mapping := by
  simp only [attach, runs_bind, runs_lift, runs_pure] at run
  obtain ⟨names, _, -, _, _, -, keys, _, -, _, _, -, rfl, -⟩ := run
  rw [classNamesOf_moveMethods, classNamesOf_moveFields]

theorem get?_adjust (mappings : Mappings) (name wanted : String) (attached : ClassMapping) :
    (mappings.adjust name fun _ => attached).get? wanted =
      (mappings.get? wanted).map fun mapping => if wanted = name then attached else mapping :=
  Table.get?_mapValues _ mappings.classes wanted

/-- A class file changes nothing, or the mapping of its own class. -/
theorem resolveClass_cases {classNames : Table String String} {file : ClassFile}
    {mappings next : Mappings}
    (run : Runs (resolveClass classNames mappings file) before next after) :
    ∃ name, file.name = .ok name ∧
      (mappings.get? name = none ∧ next = mappings ∨
        ∃ mapping attached start stop, mappings.get? name = some mapping ∧
          Runs (attach classNames file mapping) start attached stop ∧
          next = mappings.adjust name fun _ => attached) := by
  simp only [resolveClass, runs_bind, runs_lift] at run
  obtain ⟨name, _, ⟨named, rfl⟩, run⟩ := run
  refine ⟨name, named, ?_⟩
  split at run
  · rename_i unmapped
    obtain ⟨rfl, -⟩ := runs_pure.mp run
    exact Or.inl ⟨unmapped, rfl⟩
  · rename_i mapping mapped
    simp only [runs_bind, runs_adapt, runs_pure] at run
    obtain ⟨attached, _, attachRun, rfl, -⟩ := run
    exact Or.inr ⟨mapping, attached, _, _, mapped, attachRun, rfl⟩

theorem classNamesOf_resolveClass {classNames : Table String String} {file : ClassFile}
    {mappings next : Mappings}
    (run : Runs (resolveClass classNames mappings file) before next after) (wanted : String) :
    (next.get? wanted).map classNamesOf = (mappings.get? wanted).map classNamesOf := by
  obtain ⟨name, -, ⟨-, rfl⟩ | ⟨mapping, attached, _, _, mapped, attachRun, rfl⟩⟩ :=
    resolveClass_cases run
  · rfl
  · rw [get?_adjust, Option.map_map]
    -- only the mapping of this class is another one, and it has the same names
    by_cases same : wanted = name
    · subst same
      simp [mapped, classNamesOf_attach attachRun]
    · simp [same, Function.comp_def]

theorem classNamesOf_resolve {files : List ClassFile} {mappings resolved : Mappings}
    (run : Runs (resolve mappings files) before resolved after) (name : String) :
    (resolved.get? name).map classNamesOf = (mappings.get? name).map classNamesOf := by
  refine runs_foldlM
    (fun held => (held.get? name).map classNamesOf = (mappings.get? name).map classNamesOf) ?_ rfl
    run
  intro held file before next after kept step
  rw [classNamesOf_resolveClass step, kept]

/-- Classes keep their original names. -/
theorem originalName?_resolve {files : List ClassFile} {mappings resolved : Mappings}
    (run : Runs (resolve mappings files) before resolved after) (name : String) :
    resolved.originalName? name = mappings.originalName? name := by
  have kept := congrArg (Option.map Prod.fst) (classNamesOf_resolve run name)
  rwa [Option.map_map, Option.map_map] at kept

theorem keys_resolveClass {classNames : Table String String} {file : ClassFile}
    {mappings next : Mappings}
    (run : Runs (resolveClass classNames mappings file) before next after) :
    next.classes.keys = mappings.classes.keys := by
  obtain ⟨name, -, ⟨-, rfl⟩ | ⟨mapping, attached, _, _, -, -, rfl⟩⟩ := resolveClass_cases run
  · rfl
  · exact Table.keys_adjust _ _ _

theorem keys_resolve {files : List ClassFile} {mappings resolved : Mappings}
    (run : Runs (resolve mappings files) before resolved after) :
    resolved.classes.keys = mappings.classes.keys := by
  refine runs_foldlM (fun held => held.classes.keys = mappings.classes.keys) ?_ rfl run
  intro held file before next after kept step
  rw [keys_resolveClass step, kept]

theorem keys_classNames (mappings : Mappings) :
    mappings.classNames.keys = mappings.classes.keys := by
  simp [Mappings.classNames, Table.mapValues, Table.keys, Function.comp_def]

/-- The table of class names stays the same. -/
theorem classNames_resolve {files : List ClassFile} {mappings resolved : Mappings}
    (run : Runs (resolve mappings files) before resolved after) :
    resolved.classNames = mappings.classNames := by
  apply Table.eq_of_keys_of_values
  · rw [keys_classNames, keys_classNames, keys_resolve run]
  · intro name
    have same := originalName?_resolve run name
    unfold Mappings.originalName? Mappings.get? at same
    unfold Mappings.classNames
    rw [Table.get?_mapValues, Table.get?_mapValues, same]

theorem unambiguous_resolve {files : List ClassFile} {mappings resolved : Mappings}
    (run : Runs (resolve mappings files) before resolved after) {name : String}
    (unambiguous : mappings.Unambiguous name) : resolved.Unambiguous name := by
  unfold Mappings.Unambiguous at unambiguous ⊢
  simpa only [originalName?_resolve run] using unambiguous

end Runs

end Deobfuscation.Collision
