import Deobfuscation.Batch
import Deobfuscation.Collision
import Deobfuscation.CommandLine
import Deobfuscation.Path
import Deobfuscation.Renaming.Class

/-!
Whole runs of the program, over any host that has files. Reading has to succeed
altogether, because a class that is missing would change the names of others; after
that each class is renamed and written on its own.
-/

namespace Deobfuscation

/-- Where reading a file was refused. -/
inductive Refused where
  | opening (cause : Cause)
  | reading (cause : Cause)
  deriving DecidableEq, Repr

def Refused.cause : Refused → Cause
  | .opening cause | .reading cause => cause

/-- What a run needs from its surroundings. Paths are as the user gave them. -/
structure Host (m : Type → Type) where
  isDirectory : String → m Bool
  readFile : String → m (Except Refused (List UInt8))
  /-- The files at any depth below a directory, as names on the way down. Those of a directory
  come together, in the order of their names. -/
  filesBelow : String → m (List (List String))
  createDirectories : String → m (Except Cause Unit)
  writeFile : String → List UInt8 → m (Except Cause Unit)
  copyFile : (source target : String) → m (Except Cause Unit)
  tell : Notice → m Unit
  /-- Milliseconds on a clock that only runs on. -/
  now : m Nat

namespace Session

variable {m : Type → Type} [Monad m]

def demand {Item : Type} (context : Context) (result : m (Except Cause Item)) :
    ExceptT Failure m Item := do
  match ← result with
  | .ok item => return item
  | .error cause => throw ⟨[context], cause⟩

def readMappings (host : Host m) (path : String) (dialect : Mapping.Dialect) :
    ExceptT Failure m (List ClassMapping) := do
  match ← host.readFile path with
  | .error (.opening cause) => throw ⟨[.openMapping path], cause⟩
  | .error (.reading cause) => throw ⟨[.readMapping path dialect, .readLine 1], cause⟩
  | .ok bytes =>
      let (warnings, outcome) := dialect.parse bytes
      warnings.forM fun warning => host.tell (.mapping warning)
      match outcome with
      | .ok classes => return classes
      | .error fault => throw ⟨[.readMapping path dialect], .mapping fault⟩

/-- The files of an input directory: paths with what was read, and names on the way down. -/
structure Input where
  classes : List (String × ClassFile)
  others : List (List String)

def isClassFile (names : List String) : Bool :=
  (names.getLast?.bind Path.extension?) = some "class"

def below (root : String) (names : List String) : String := names.foldl Path.join root

def readClass (host : Host m) (path : String) : ExceptT Failure m (String × ClassFile) := do
  match ← host.readFile path with
  | .error refused => throw ⟨[.readClassFile path], refused.cause⟩
  | .ok bytes =>
      match ClassFile.read bytes with
      | .error failure => throw ⟨[.readClassFile path], .reading failure⟩
      | .ok (file, _) => return (path, file)

def readInput (host : Host m) (root : String) : ExceptT Failure m Input := do
  let found ← host.filesBelow root
  let (classFiles, others) := found.partition isClassFile
  let classes ← classFiles.mapM fun names => readClass host (below root names)
  host.tell (.filesFound classes.length others.length root)
  return { classes, others }

def copyOther (host : Host m) (input output : String) (names : List String) :
    ExceptT Failure m Unit := do
  let source := below input names
  let target := Path.join output (String.intercalate "/" names)
  demand (.fileParents target) (host.createDirectories (Path.parent target))
  demand (.copyFile source target) (host.copyFile source target)

/-- Copies files and counts those that could be copied. -/
def copyOthers (host : Host m) (input output : String) : Nat → List (List String) → m Nat
  | copied, [] => return copied
  | copied, names :: rest => do
      match ← copyOther host input output names with
      | .ok () => copyOthers host input output (copied + 1) rest
      | .error failure =>
          host.tell (.copyFailed failure.message)
          copyOthers host input output copied rest

/-- Writes a class file to the place that its name says. -/
def writeClass (host : Host m) (output : String) (file : ClassFile) : ExceptT Failure m Unit := do
  let name ← file.name
  let target ← Path.classFile output name
  demand (.classFileParents target) (host.createDirectories (Path.parent target))
  demand (.writeClassFile target) (host.writeFile target file.bytes)

def renameAndWrite (host : Host m) (renamer : Renamer) (output : String)
    (item : String × ClassFile) : ExceptT Failure m Unit := do
  let (path, file) := item
  let (outcome, notices) := renamer.renameClass file
  notices.toList.forM fun notice => host.tell notice
  let renamed ← Failure.inContext (.renameClassFile path) outcome
  (writeClass host output renamed).adapt (·.within (.writeRenamed path))

def job (host : Host m) (renamer : Renamer) (output : String) (item : String × ClassFile) :
    m Batch.Outcome := do
  match ← renameAndWrite host renamer output item with
  | .ok () => return .done
  | .error failure => return .failed failure.message

/-- Renames all class files of a directory. -/
def rename (host : Host m) (options : CommandLine.RenameOptions) (cores : Nat) :
    ExceptT Failure m Unit := do
  if !(← host.isDirectory options.input) then
    throw { cause := .noInputDirectory options.input }
  host.tell .readingMapping
  let given := Mappings.ofClasses (← readMappings host options.mappings options.dialect)
  host.tell (.mappingRead given.classes.size)
  host.tell .buildingHierarchy
  let input ← readInput host options.input
  let files := input.classes.map Prod.snd
  let hierarchy ← Hierarchy.ofClasses files
  host.tell (.classesRead files.length hierarchy.size)
  let (resolved, notices) := (Collision.resolve given files).run.run #[]
  notices.toList.forM fun notice => host.tell notice
  let renamer := Renamer.create (← resolved) hierarchy
  if options.copyResources then
    let copied ← ExceptT.lift (copyOthers host options.input options.output 0 input.others)
    host.tell (.copied copied input.others.length)
  host.tell .renaming
  let started ← host.now
  let workers := max (options.threads.getD cores) 1
  host.tell (.workers workers)
  let report ← ExceptT.lift
    (Batch.run host.tell (job host renamer options.output) input.classes workers)
  host.tell (.elapsed ((← host.now) - started))
  host.tell (.summary report.processed report.failed)

def run (host : Host m) (command : CommandLine.Command) (cores : Nat) :
    ExceptT Failure m String := do
  match command with
  | .rename options =>
      rename host options cores
      return ""
  | .check path dialect =>
      let classes ← readMappings host path dialect
      return s!"{classes.length}\n"

end Session

end Deobfuscation
