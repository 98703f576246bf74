import Deobfuscation.Session

/-!
Files and directories as a value, and the host that they make. Keys are the names on
the way down from the root. Paths that do not start with `/` start at `home`.
-/

namespace Deobfuscation

inductive Node where
  | directory
  | file (bytes : List UInt8)
  deriving DecidableEq, Repr

structure FileTree where
  home : List String
  nodes : Table (List String) Node := .empty

namespace FileTree

def refusal : Cause := .system "<os error>"

def isDirectoryAt (tree : FileTree) (key : List String) : Bool :=
  key.isEmpty || tree.nodes.get? key = some .directory

/-- The longest name of a file or directory, in bytes. -/
def nameLimit : Nat := 255

/-- The longest path, in bytes. -/
def pathLimit : Nat := 4095

def checkPath (path : String) : Except Cause Unit :=
  if path.toList.contains '\x00' then .error .zeroInPath
  else if path.utf8ByteSize > pathLimit then .error refusal
  else .ok ()

def start (tree : FileTree) (path : String) : List String :=
  if path.toList.head? = some '/' then [] else tree.home

/-- Follows one part of a path. Only a directory leads on. -/
def follow (tree : FileTree) (key : List String) (part : String) : Except Cause (List String) :=
  if !tree.isDirectoryAt key || part.utf8ByteSize > nameLimit then .error refusal
  else if part = "" || part = "." then .ok key
  else if part = ".." then .ok key.dropLast
  else .ok (key ++ [part])

/-- The key that a path denotes, whether there is something or not. -/
def locate (tree : FileTree) (path : String) : Except Cause (List String) := do
  checkPath path
  (Path.parts path).foldlM tree.follow (tree.start path)

def isDirectory (tree : FileTree) (path : String) : Bool :=
  match tree.locate path with
  | .ok key => tree.isDirectoryAt key
  | .error _ => false

def readFile (tree : FileTree) (path : String) : Except Refused (List UInt8) :=
  match tree.locate path with
  | .error cause => .error (.opening cause)
  | .ok key =>
      if tree.isDirectoryAt key then .error (.reading refusal)
      else match tree.nodes.get? key with
        | some (.file bytes) => .ok bytes
        | _ => .error (.opening refusal)

/-- Names in their order, the first difference decides. -/
def comesFirst : List String → List String → Bool
  | [], _ => true
  | _ :: _, [] => false
  | left :: lefts, right :: rights => left < right || (left = right && comesFirst lefts rights)

def belowKey? : (root key : List String) → Option (List String)
  | [], key => some key
  | _ :: _, [] => none
  | name :: root, first :: key => if name = first then belowKey? root key else none

def filesBelow (tree : FileTree) (path : String) : List (List String) :=
  match tree.locate path with
  | .error _ => []
  | .ok root =>
      let found := tree.nodes.entries.filterMap fun entry =>
        match entry.2 with
        | .file _ => belowKey? root entry.1
        | .directory => none
      found.mergeSort comesFirst

def put (tree : FileTree) (key : List String) (node : Node) : FileTree :=
  { tree with nodes := tree.nodes.insert key node }

/-- Follows one part of a path and makes a directory there if there is nothing. -/
def enter (place : FileTree × List String) (part : String) :
    Except Cause (FileTree × List String) := do
  let (tree, key) := place
  let next ← tree.follow key part
  if tree.isDirectoryAt next then return (tree, next)
  else match tree.nodes.get? next with
    | none => return (tree.put next .directory, next)
    | some _ => throw refusal

def createDirectories (tree : FileTree) (path : String) : Except Cause FileTree := do
  checkPath path
  return (← (Path.parts path).foldlM enter (tree, tree.start path)).1

def writeFile (tree : FileTree) (path : String) (bytes : List UInt8) : Except Cause FileTree := do
  let key ← tree.locate path
  if tree.isDirectoryAt key then throw refusal else return tree.put key (.file bytes)

/-- Copies a file. The target is emptied first, so a file copied onto itself ends up empty. -/
def copyFile (tree : FileTree) (source target : String) : Except Cause FileTree := do
  let emptied ← match tree.readFile source with
    | .ok _ => tree.writeFile target []
    | .error refused => throw refused.cause
  match emptied.readFile source with
  | .ok bytes => emptied.writeFile target bytes
  | .error refused => throw refused.cause

end FileTree

structure World where
  tree : FileTree
  notices : Array Notice := #[]

namespace World

def change (edit : FileTree → Except Cause FileTree) : StateM World (Except Cause Unit) := do
  let world ← get
  match edit world.tree with
  | .ok tree =>
      set { world with tree }
      return .ok ()
  | .error cause => return .error cause

/-- Nothing takes time here. -/
def host : Host (StateM World) where
  isDirectory path := return (← get).tree.isDirectory path
  readFile path := return (← get).tree.readFile path
  filesBelow path := return (← get).tree.filesBelow path
  createDirectories path := change (·.createDirectories path)
  writeFile path bytes := change (·.writeFile path bytes)
  copyFile source target := change (·.copyFile source target)
  tell notice := modify fun world => { world with notices := world.notices.push notice }
  now := return 0

end World

end Deobfuscation
