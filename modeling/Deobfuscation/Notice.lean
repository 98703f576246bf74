import Deobfuscation.Failure

/-!
What the program has to tell while it works, apart from failures that end it.
-/

namespace Deobfuscation

open Text

inductive Level where
  | error
  | warn
  | info
  | debug
  deriving DecidableEq, Repr

def Level.name : Level → String
  | .error => "ERROR"
  | .warn => "WARN"
  | .info => "INFO"
  | .debug => "DEBUG"

inductive Notice where
  | mapping (warning : Mapping.Warning)
  /-- A field or method without mapping got a new name; a method is given with its descriptor. -/
  | fieldMoved (className name target : String)
  | methodMoved (className method target : String)
  /-- A reference from a class changed; both sides hold name and descriptor. -/
  | reference (className owner old new : String)
  | innerNameKept (className inner outer : String)
  | assigned (worker items : Nat)
  | itemFailed (message : String)
  | itemCrashed (worker : Nat)
  | workerCrashed (worker items : Nat)
  | readingMapping
  | mappingRead (classes : Nat)
  | buildingHierarchy
  | filesFound (classes others : Nat) (path : String)
  | classesRead (classes withParents : Nat)
  | copyFailed (message : String)
  | copied (done all : Nat)
  | renaming
  | workers (count : Nat)
  | elapsed (milliseconds : Nat)
  | summary (processed failed : Nat)
  deriving DecidableEq, Repr

namespace Notice

def level : Notice → Level
  | .mapping _ | .innerNameKept .. => .warn
  | .itemFailed _ | .itemCrashed _ | .workerCrashed .. | .copyFailed _ => .error
  | .reference .. | .assigned .. | .mappingRead _ | .filesFound .. | .classesRead .. => .debug
  | .fieldMoved .. | .methodMoved .. | .readingMapping | .buildingHierarchy | .copied ..
  | .renaming | .workers _ | .elapsed _ | .summary .. => .info

def origin : Notice → String
  | .mapping _ => "mappings::srg"
  | .fieldMoved .. | .methodMoved .. => "remap::collision"
  | .reference .. | .innerNameKept .. => "remap::remapper"
  | .assigned .. | .itemFailed _ | .itemCrashed _ | .workerCrashed .. => "remap::batch"
  | .filesFound .. | .copyFailed _ => "unmangle::files"
  | .readingMapping | .mappingRead _ | .buildingHierarchy | .classesRead .. | .copied ..
  | .renaming | .workers _ | .elapsed _ | .summary .. => "unmangle"

def message : Notice → String
  | .mapping warning => warning.message
  | .fieldMoved className name target => s!"in class {className}: field {name} -> {target}"
  | .methodMoved className method target => s!"in class {className}: method {method} -> {target}"
  | .reference className owner old new => s!"in class {className}: {owner}.{old} -> {new}"
  | .innerNameKept className inner outer =>
      s!"in class {className}: inner class {inner} doesn't start with {outer}$, " ++
        "keeping its simple name"
  | .assigned worker items => s!"worker {worker} got {items} items"
  | .itemFailed message => message
  | .itemCrashed worker => s!"worker {worker} panicked on an item, skipping it"
  | .workerCrashed worker items =>
      s!"worker {worker} panicked, counting all its {items} items as failed"
  | .readingMapping => "parsing obfuscation mapping..."
  | .mappingRead classes => s!"read mappings for {classes} classes"
  | .buildingHierarchy => "building class hierarchy..."
  | .filesFound classes others path =>
      s!"found {classes} class files and {others} other files in " ++ Quoted.quote path
  | .classesRead classes withParents =>
      s!"read {classes} class files, {withParents} of them have parents"
  | .copyFailed message => message
  | .copied done all => s!"copied {done} of {all} other files"
  | .renaming => "deobfuscating..."
  | .workers count => s!"number of worker threads: {count}"
  | .elapsed milliseconds => s!"done in {milliseconds}ms"
  | .summary processed failed => s!"{processed} classes remapped, {failed} failed"

def line (notice : Notice) : String := s!"[{notice.level.name} {notice.origin}] {notice.message}"

/-- Only a verbose run shows notices for debugging. -/
def isShown (verbose : Bool) (notice : Notice) : Bool := verbose || notice.level ≠ .debug

end Notice

/-- Work that can fail and leaves notices, also if it fails. -/
abbrev Logged := ExceptT Failure (StateM (Array Notice))

def Logged.note (notice : Notice) : Logged Unit := modify (·.push notice)

end Deobfuscation
