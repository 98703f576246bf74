import Deobfuscation.Bindings
import Deobfuscation.ClassFile.Texts
import Deobfuscation.Notice

/-!
Changing a pool while texts are shared. Tables say where texts and pairs of texts
stand, so that a constant is added only if there is none like it.
-/

namespace Deobfuscation

structure Interner where
  texts : Bindings String UInt16 := .empty
  pairs : Bindings (String × String) UInt16 := .empty

namespace Interner

/-- Takes in one constant. What is no text can not be asked for, so it is left out. -/
def add (pool : Pool) (interner : Interner) (entry : UInt16 × Constant) : Interner :=
  match entry.2 with
  | .utf8 bytes =>
      match Text.ModifiedUtf8.decode bytes with
      | .ok text => { interner with texts := interner.texts.bind text entry.1 }
      | .error _ => interner
  | .nameAndType name descriptor =>
      match pool.text name, pool.text descriptor with
      | .ok name, .ok descriptor =>
          { interner with pairs := interner.pairs.bind (name, descriptor) entry.1 }
      | _, _ => interner
  | _ => interner

/-- All texts and pairs of a pool. Of equal ones the last counts. -/
def ofPool (pool : Pool) : Interner := pool.entries.foldl (add pool) {}

def moved (interner : Interner) (index : UInt16) (name old new : String) : Interner :=
  let kept :=
    if interner.pairs.get? (name, old) = some index then interner.pairs.forget (name, old)
    else interner.pairs
  { interner with
    pairs := if (kept.get? (name, new)).isSome then kept else kept.bind (name, new) index }

end Interner

structure Editing where
  pool : Pool
  interner : Interner
  notices : Array Notice := #[]

def Editing.ofPool (pool : Pool) : Editing := { pool, interner := .ofPool pool }

abbrev Edit := ExceptT Failure (StateM Editing)

namespace Edit

def inContext {Item : Type} (context : Context) (edit : Edit Item) : Edit Item :=
  edit.adapt (·.within context)

def note (notice : Notice) : Edit Unit :=
  modify fun editing => { editing with notices := editing.notices.push notice }

def constant? (index : UInt16) : Edit (Option Constant) := return (← get).pool.get? index

def text (index : UInt16) : Edit String := do
  let editing ← get
  editing.pool.text index

def className (index : UInt16) : Edit String := do
  let editing ← get
  editing.pool.className index

def replace (index : UInt16) (constant : Constant) : Edit Unit :=
  modify fun editing => { editing with pool := editing.pool.replace index constant }

def push (constant : Constant) : Edit UInt16 := do
  let editing ← get
  match editing.pool.push constant with
  | .error refused => throw { cause := .overflow refused }
  | .ok (index, pool) =>
      set { editing with pool }
      return index

/-- The index of a text, which is added if it is not there. -/
def internText (text : String) : Edit UInt16 := do
  match (← get).interner.texts.get? text with
  | some index => return index
  | none =>
      let index ← inContext (.addString text) (push (.utf8 (Text.ModifiedUtf8.encode text)))
      modify fun editing =>
        { editing with interner.texts := editing.interner.texts.bind text index }
      return index

/-- The index of a name with a descriptor, which is added if it is not there. -/
def internPair (name descriptor : String) : Edit UInt16 := do
  match (← get).interner.pairs.get? (name, descriptor) with
  | some index => return index
  | none =>
      let nameIndex ← internText name
      let descriptorIndex ← internText descriptor
      let index ← inContext (.addNameAndType name descriptor)
        (push (.nameAndType nameIndex descriptorIndex))
      modify fun editing =>
        { editing with
          interner.pairs := editing.interner.pairs.bind (name, descriptor) index }
      return index

/-- The index for the new text: the given one if the text stays, else that of the new text. -/
def retarget (index : UInt16) (old new : String) : Edit UInt16 :=
  if old = new then return index else internText new

def forIndices (stop : UInt16) (step : UInt16 → Edit Unit) : Edit Unit :=
  (List.range' 1 (stop.toNat - 1)).forM fun index => step (UInt16.ofNat index)

end Edit

end Deobfuscation
