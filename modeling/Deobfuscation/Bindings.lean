import Deobfuscation.Table

/-!
Bindings of keys, the newest first. A new binding hides the older ones of its key,
so binding takes no search.
-/

namespace Deobfuscation

structure Bindings (Key Value : Type) where
  newest : List (Key × Value) := []

namespace Bindings

variable {Key Value : Type}

def empty : Bindings Key Value := {}

def bind (bindings : Bindings Key Value) (key : Key) (value : Value) : Bindings Key Value :=
  ⟨(key, value) :: bindings.newest⟩

def ofList (pairs : List (Key × Value)) : Bindings Key Value := ⟨pairs.reverse⟩

variable [DecidableEq Key]

def get? (bindings : Bindings Key Value) (key : Key) : Option Value :=
  Table.find key bindings.newest

def forget (bindings : Bindings Key Value) (key : Key) : Bindings Key Value :=
  ⟨bindings.newest.filter fun entry => entry.1 ≠ key⟩

@[simp] theorem get?_empty (key : Key) : (empty : Bindings Key Value).get? key = none := rfl

theorem get?_bind (bindings : Bindings Key Value) (key wanted : Key) (value : Value) :
    (bindings.bind key value).get? wanted =
      if key = wanted then some value else bindings.get? wanted := rfl

theorem get?_forget (bindings : Bindings Key Value) (key wanted : Key) :
    (bindings.forget key).get? wanted = if key = wanted then none else bindings.get? wanted :=
  Table.find_filter key wanted bindings.newest

end Bindings

end Deobfuscation
