import Deobfuscation.Table

/-!
What a mapping file holds: for each obfuscated class its original name and the
original names of its members. Class names are internal names, with `/` between
packages.
-/

namespace Deobfuscation

/-- An obfuscated method name with its descriptor, which has original class names in it.
Overloads share the name and differ in the descriptor. -/
structure MethodKey where
  name : String
  descriptor : String
  deriving DecidableEq, Repr

structure ClassMapping where
  originalName : String
  obfuscatedName : String
  fields : Table String String := .empty
  methods : Table MethodKey String := .empty

namespace ClassMapping

def field? (mapping : ClassMapping) (name : String) : Option String := mapping.fields.get? name

def method? (mapping : ClassMapping) (name descriptor : String) : Option String :=
  mapping.methods.get? ⟨name, descriptor⟩

def addField (mapping : ClassMapping) (obfuscated original : String) : ClassMapping :=
  { mapping with fields := mapping.fields.insert obfuscated original }

def addMethod (mapping : ClassMapping) (obfuscated descriptor original : String) : ClassMapping :=
  { mapping with methods := mapping.methods.insert ⟨obfuscated, descriptor⟩ original }

end ClassMapping

/-- The mappings of all classes, by obfuscated name. -/
structure Mappings where
  classes : Table String ClassMapping := .empty

namespace Mappings

/-- Keys the classes by their obfuscated names; of two with the same name the later one counts. -/
def ofClasses (classes : List ClassMapping) : Mappings :=
  ⟨Table.ofList (classes.map fun mapping => (mapping.obfuscatedName, mapping))⟩

def get? (mappings : Mappings) (obfuscated : String) : Option ClassMapping :=
  mappings.classes.get? obfuscated

def originalName? (mappings : Mappings) (obfuscated : String) : Option String :=
  (mappings.get? obfuscated).map ClassMapping.originalName

def classNames (mappings : Mappings) : Table String String :=
  mappings.classes.mapValues fun _ mapping => mapping.originalName

/-- Original to obfuscated class names; of two classes with one original name the later one
counts. -/
def inverseClassNames (mappings : Mappings) : Table String String :=
  Table.ofList (mappings.classes.entries.map fun entry => (entry.2.originalName, entry.1))

def adjust (mappings : Mappings) (obfuscated : String)
    (change : ClassMapping → ClassMapping) : Mappings :=
  ⟨mappings.classes.adjust obfuscated change⟩

end Mappings

end Deobfuscation
