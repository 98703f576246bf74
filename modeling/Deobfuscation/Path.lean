import Deobfuscation.Failure
import Deobfuscation.Text.Cut

/-!
Paths as texts with `/` between their parts. An empty part and a part `.` stand for
nothing, except that a path can start with either.
-/

namespace Deobfuscation.Path

open Text

def parts (path : String) : List String := (splitAll '/' path.toList).map String.ofList

def join (root name : String) : String :=
  if root.isEmpty || root.toList.getLast? = some '/' then root ++ name else root ++ "/" ++ name

/-- Takes parts that stand for nothing off the start of a reversed path, but never the last
one left, with which the path starts. -/
def trim : List String → List String
  | [] => []
  | [start] => [start]
  | part :: next :: rest =>
      if part = "" || part = "." then trim (next :: rest) else part :: next :: rest

-- the path of the directory that holds the last part
def parent (path : String) : String :=
  match trim (parts path).reverse with
  | [] => ""
  | _ :: rest =>
      match trim rest with
      | [""] => "/"
      | kept => String.intercalate "/" kept.reverse

inductive Component where
  | root
  | here
  | up
  | name (part : String)
  deriving DecidableEq, Repr

def Component.isName : Component → Bool
  | .name _ => true
  | _ => false

def component? (part : String) : Option Component :=
  if part = "" ∨ part = "." then none else if part = ".." then some .up else some (.name part)

-- only at the start do an empty part and a part `.` stand for something
def startOf (part : String) : List Component :=
  if part = "" then [.root] else if part = "." then [.here] else (component? part).toList

def ofParts : List String → List Component
  | [] => []
  | start :: rest => startOf start ++ rest.filterMap component?

def components (path : String) : List Component := if path = "" then [] else ofParts (parts path)

def fileName? (path : String) : Option String :=
  match (components path).getLast? with
  | some (.name part) => some part
  | _ => none

/-- Puts a name in the place of the file name, or behind a path that has none. -/
def setFileName (path fileName : String) : String :=
  if (fileName? path).isSome then join (parent path) fileName else join path fileName

def extension? (fileName : String) : Option String :=
  match cutLast? '.' fileName.toList with
  | none => none
  -- a name that only starts with a point has no extension
  | some ([], _) => none
  | some (_, extension) => some (String.ofList extension)

def isName (part : String) : Bool := part ≠ "" && part ≠ "." && part ≠ ".."

/-- Where a class is written: below the output, at the place that its name says. Names that
would lead anywhere else are refused. -/
def classFile (output name : String) : Except Failure String :=
  if !(parts name).all isName then .error { cause := .unusablePath name }
  else if !(components name).all Component.isName then .error { cause := .unusablePath name }
  else
    let target := join output name
    .ok (setFileName target ((fileName? target).getD "" ++ ".class"))

end Deobfuscation.Path
