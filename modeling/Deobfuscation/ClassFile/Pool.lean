import Deobfuscation.ClassFile.Constant

/-!
The constant pool. Indices start at one and have 16 bits. A wide constant leaves the
index after it unusable. The pool only grows at its end, so indices stay valid.
-/

namespace Deobfuscation

/-- The slot at position `i` belongs to index `i + 1`; `none` is the slot after a wide constant. -/
structure Pool where
  slots : Array (Option Constant) := #[]
  deriving DecidableEq, Repr

namespace Pool

structure Overflow where
  constant : Constant
  index : UInt16
  deriving DecidableEq, Repr

def Overflow.message (overflow : Overflow) : String :=
  s!"constant pool overflow: cannot add {overflow.constant.shown} at index " ++
    showIndex overflow.index

/-- The constant at an index. Zero, unusable indices and those past the end have none. -/
def get? (pool : Pool) (index : UInt16) : Option Constant :=
  if index = 0 then none else (pool.slots[index.toNat - 1]?).join

def replace (pool : Pool) (index : UInt16) (constant : Constant) : Pool :=
  if (pool.get? index).isSome then
    ⟨pool.slots.setIfInBounds (index.toNat - 1) (some constant)⟩
  else pool

def nextIndex (pool : Pool) : UInt16 := UInt16.ofNat (pool.slots.size + 1)

def slotsOf (constant : Constant) : List (Option Constant) :=
  if constant.isWide then [some constant, none] else [some constant]

def ofList (constants : List Constant) : Pool := ⟨(constants.flatMap slotsOf).toArray⟩

def push (pool : Pool) (constant : Constant) : Except Overflow (UInt16 × Pool) :=
  let index := pool.nextIndex
  if index.toNat + constant.slots > 65535 then .error ⟨constant, index⟩
  else .ok (index, ⟨pool.slots ++ slotsOf constant⟩)

def entries (pool : Pool) : List (UInt16 × Constant) :=
  (pool.slots.toList.zipIdx 1).filterMap fun slot =>
    slot.1.map fun constant => (UInt16.ofNat slot.2, constant)

def constants (pool : Pool) : List Constant := pool.slots.toList.filterMap id

end Pool

end Deobfuscation
