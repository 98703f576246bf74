import Deobfuscation.Session

/-!
The program over the files of the operating system. All decisions are made in
sessions; here are only the operations that they ask for.
-/

namespace Deobfuscation.Main

/-- Runs an operation and keeps what the operating system refused, in one line. -/
def attempt {Item : Type} (operation : IO Item) : IO (Except Cause Item) := do
  try return .ok (← operation)
  catch failure =>
    let words := (toString failure).toList.takeWhile (· ≠ '\n')
    return .error (.system (String.ofList words))

def attemptAt {Item : Type} (path : String) (operation : IO Item) : IO (Except Cause Item) :=
  if path.toList.contains '\x00' then return .error .zeroInPath else attempt operation

/-- The files below a directory, with the names on the way to it in reverse. -/
partial def walk (root : String) (above : List String) : IO (List (List String)) := do
  let place := (← IO.currentDir) / Session.below root above.reverse
  let entries ← place.readDir
  let sorted := entries.qsort fun left right => left.fileName < right.fileName
  let mut found := []
  for entry in sorted do
    if ← entry.path.isDir then found := found ++ (← walk root (entry.fileName :: above))
    else found := found ++ [(entry.fileName :: above).reverse]
  return found

def host (verbose : Bool) : Host IO where
  isDirectory path := do ((← IO.currentDir) / path).isDir
  readFile path := do
    let place := (← IO.currentDir) / path
    match ← attempt (IO.FS.readBinFile place) with
    | .ok bytes => return .ok bytes.toList
    | .error cause => return .error (if ← place.isDir then .reading cause else .opening cause)
  filesBelow path := walk path []
  createDirectories path := do
    let place := (← IO.currentDir) / path
    attemptAt path (IO.FS.createDirAll place)
  writeFile path bytes := do
    let place := (← IO.currentDir) / path
    attemptAt path (IO.FS.writeBinFile place ⟨bytes.toArray⟩)
  copyFile source target := do
    let here ← IO.currentDir
    attempt do
      let _ ← IO.FS.readBinFile (here / source)
      -- the target is emptied before the source is read, also if both are one file
      IO.FS.writeBinFile (here / target) .empty
      IO.FS.writeBinFile (here / target) (← IO.FS.readBinFile (here / source))
  tell notice := do if notice.isShown verbose then IO.eprintln notice.line
  now := IO.monoMsNow

/-- The number of processors that the system lists, or one. -/
def cores : IO Nat := do
  match ← attempt (IO.FS.lines "/proc/cpuinfo") with
  | .ok lines => return max 1 (lines.filter (·.startsWith "processor")).size
  | .error _ => return 1

def usage : String :=
  "Usage: remap -m <mappings> [-f proguard|srg] -i <input> -o <output> [--copy-resources]\n" ++
  "             [-t <threads>] [-v]\n" ++
  "       check -m <mappings> [-f proguard|srg] [-v]"

end Deobfuscation.Main

open Deobfuscation in
def main (arguments : List String) : IO UInt32 := do
  match CommandLine.parse arguments with
  | .error .help =>
      IO.println Main.usage
      return 0
  | .error .usage =>
      IO.eprintln Main.usage
      return 2
  | .ok invocation =>
      let host := Main.host invocation.verbose
      match ← (Session.run host invocation.command (← Main.cores)).run with
      | .ok output =>
          IO.print output
          return 0
      | .error failure =>
          IO.eprintln failure.report
          return 1
