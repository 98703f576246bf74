import Deobfuscation.Notice

/-!
Doing the same job for many items. Each worker gets one contiguous range of the
items and goes through it in order. A job that fails is counted and does not keep
others from being done, unless what it left behind crashes when the worker handles it:
then the worker ends, and all its items count as failed.
-/

namespace Deobfuscation.Batch

/-- What comes of a job. The last three end the worker: showing a failure, dropping it once it is
shown, or dropping what a crash left behind crashes in turn. -/
inductive Outcome where
  | done
  | failed (message : String)
  | crashed
  | failedUnshown
  | failedUndropped (message : String)
  | crashedUndropped
  deriving DecidableEq, Repr

structure Report where
  processed : Nat := 0
  failed : Nat := 0
  deriving DecidableEq, Repr

def Report.add (report other : Report) : Report :=
  ⟨report.processed + other.processed, report.failed + other.failed⟩

def Outcome.report? : Outcome → Option Report
  | .done => some ⟨1, 0⟩
  | .failed _ | .crashed => some ⟨0, 1⟩
  | .failedUnshown | .failedUndropped _ | .crashedUndropped => none

def Outcome.notices (worker : Nat) : Outcome → List Notice
  | .done | .failedUnshown => []
  | .failed message | .failedUndropped message => [.itemFailed message]
  | .crashed | .crashedUndropped => [.itemCrashed worker]

/-- Where the ranges of the workers start, and where the last one ends. No workers count as
one. -/
def bounds (length workers : Nat) : List Nat :=
  let workers := max workers 1
  (List.range workers).map (fun worker => length * worker / workers) ++ [length]

def partition (length workers : Nat) : List (Nat × Nat) :=
  (bounds length workers).zip (bounds length workers).tail

def assign {Item : Type} (items : List Item) (workers : Nat) : List (List Item) :=
  (partition items.length workers).map fun range =>
    (items.drop range.1).take (range.2 - range.1)

variable {m : Type → Type} [Monad m] {Item : Type}

/-- Goes through items with a report so far. There is no report if the worker ends before. -/
def runItems (tell : Notice → m Unit) (job : Item → m Outcome) (worker : Nat) (report : Report) :
    List Item → m (Option Report)
  | [] => return some report
  | item :: rest => do
      let outcome ← job item
      (outcome.notices worker).forM tell
      match outcome.report? with
      | some counted => runItems tell job worker (report.add counted) rest
      | none => return none

/-- A worker that was started, with the number of its items. -/
structure Handle where
  worker : Nat
  items : Nat
  report : Option Report

def runWorker (tell : Notice → m Unit) (job : Item → m Outcome) (chunk : List Item × Nat) :
    m Handle := do
  let (items, worker) := chunk
  tell (.assigned worker items.length)
  return ⟨worker, items.length, ← runItems tell job worker {} items⟩

def join (tell : Notice → m Unit) (report : Report) (handle : Handle) : m Report := do
  match handle.report with
  | some other => return report.add other
  | none =>
      tell (.workerCrashed handle.worker handle.items)
      return report.add ⟨0, handle.items⟩

def run (tell : Notice → m Unit) (job : Item → m Outcome) (items : List Item) (workers : Nat) :
    m Report := do
  let handles ← (assign items workers).zipIdx.mapM (runWorker tell job)
  handles.foldlM (join tell) {}

end Deobfuscation.Batch
