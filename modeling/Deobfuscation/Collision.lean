import Deobfuscation.ClassFile.Texts
import Deobfuscation.Mapping.Basic
import Deobfuscation.Notice
import Deobfuscation.Signature

/-!
Names that would meet. If a class maps a member to `x` and has another member that
is called `x` already and has no mapping, that other member gets a mapping to the
first free name `x_k`, with `k` from its position on. This is done for all class
files before any of them is renamed, so references see the new names too.
-/

namespace Deobfuscation.Collision

def candidate (name : String) (ordinal : Nat) : String := name ++ "_" ++ toString ordinal

def freeName (name : String) (first : Nat) (taken : List String) : String :=
  -- one more candidate than names are taken, so one of them is free; the positions of members have
  -- 16 bits, so no ordinal outgrows a machine word
  let candidates := (List.range' first (taken.length + 1)).map (candidate name)
  (candidates.find? fun choice => !taken.contains choice).getD name

structure Progress where
  mapping : ClassMapping
  /-- Names that no member may get any more. -/
  taken : List String
  moved : List Notice := []

/-- Moves a field out of the way of the targets, unless it is mapped already. -/
def Progress.field (targets : List String) (progress : Progress) (item : String × Nat) :
    Progress :=
  let (name, ordinal) := item
  if progress.mapping.fields.contains name || !targets.contains name then progress
  else
    let target := freeName name ordinal progress.taken
    { mapping := progress.mapping.addField name target
      taken := target :: progress.taken
      moved := progress.moved ++ [.fieldMoved progress.mapping.originalName name target] }

def Progress.method (targets : List MethodKey) (progress : Progress) (item : MethodKey × Nat) :
    Progress :=
  let (key, ordinal) := item
  if progress.mapping.methods.contains key || !targets.contains key then progress
  else
    let target := freeName key.name ordinal progress.taken
    let shown := key.name ++ key.descriptor
    { mapping := progress.mapping.addMethod key.name key.descriptor target
      taken := target :: progress.taken
      moved := progress.moved ++ [.methodMoved progress.mapping.originalName shown target] }

def fieldNames (file : ClassFile) : Except Failure (List String) :=
  file.fields.mapM fun field => file.pool.text field.name

def methodKeys (classNames : Table String String) (file : ClassFile) :
    Except Failure (List MethodKey) :=
  file.methods.mapM fun method => do
    let name ← file.pool.text method.name
    let descriptor ← file.pool.text method.descriptor
    return ⟨name, Signature.map classNames descriptor⟩

def moveFields (mapping : ClassMapping) (names : List String) : Progress :=
  let targets := mapping.fields.values
  names.zipIdx.foldl (Progress.field targets) { mapping, taken := targets ++ names }

/-- Moves the methods with these keys. The targets are those of the first mapping. -/
def moveMethods (mapping : ClassMapping) (keys : List MethodKey) : Progress :=
  let targets := mapping.methods.entries.map fun entry => ⟨entry.2, entry.1.descriptor⟩
  keys.zipIdx.foldl (Progress.method targets)
    { mapping, taken := targets.map MethodKey.name ++ keys.map MethodKey.name }

def attach (classNames : Table String String) (file : ClassFile) (mapping : ClassMapping) :
    Logged ClassMapping := do
  let fields := moveFields mapping (← fieldNames file)
  fields.moved.forM Logged.note
  let methods := moveMethods fields.mapping (← methodKeys classNames file)
  methods.moved.forM Logged.note
  return methods.mapping

def resolveClass (classNames : Table String String) (mappings : Mappings) (file : ClassFile) :
    Logged Mappings := do
  let name ← file.name
  match mappings.get? name with
  | none => return mappings
  | some mapping =>
      let attached ← (attach classNames file mapping).adapt (·.within (.collisions name))
      return mappings.adjust name fun _ => attached

/-- The mappings with names for all colliding members of the class files added. -/
def resolve (mappings : Mappings) (files : List ClassFile) : Logged Mappings :=
  files.foldlM (resolveClass mappings.classNames) mappings

end Deobfuscation.Collision
