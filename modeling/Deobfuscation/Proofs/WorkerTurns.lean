import Deobfuscation.Proofs.WorkRanges

/-!
Workers that take turns. A worker hands the next of its items to the job, and later gets the
outcome back; in between, others may go on. An outcome can end a worker, which loses its report.
Whatever the interleaving, each worker sees its own part of the events, which is a run of its own,
and the events of all workers are these parts together.
-/

namespace Deobfuscation.Batch

variable {Item : Type}

section Tally

def tally (outcomes : List Outcome) : Report :=
  ⟨outcomes.countP (· = .done), outcomes.countP (· ≠ .done)⟩

theorem Report.add_assoc (first second third : Report) :
    (first.add second).add third = first.add (second.add third) := by
  simp [Report.add, Nat.add_assoc]

theorem Report.add_empty (report : Report) : report.add {} = report := rfl

theorem Report.empty_add (report : Report) : Report.add {} report = report := by
  simp [Report.add]

theorem tally_cons {outcome : Outcome} {counted : Report}
    (alone : outcome.report? = some counted) (outcomes : List Outcome) :
    tally (outcome :: outcomes) = counted.add (tally outcomes) := by
  cases outcome with
  | done | failed | crashed =>
      cases alone
      simp [tally, Report.add, Nat.add_comm]
  | _ => cases alone

theorem tally_append (first second : List Outcome) :
    tally (first ++ second) = (tally first).add (tally second) := by
  simp [tally, Report.add]

theorem tally_perm {first second : List Outcome} (same : first.Perm second) :
    tally first = tally second := by
  simp only [tally, same.countP_eq]

theorem tally_total (outcomes : List Outcome) :
    (tally outcomes).processed + (tally outcomes).failed = outcomes.length := by
  have split := List.length_eq_countP_add_countP (· = Outcome.done) (l := outcomes)
  simp only [tally, split]
  simp

def Outcome.endsWorker : Outcome → Bool
  | .done | .failed _ | .crashed => false
  | .failedUnshown | .failedUndropped _ | .crashedUndropped => true

theorem Outcome.isNone_report? (outcome : Outcome) :
    outcome.report?.isNone = outcome.endsWorker := by
  cases outcome <;> rfl

/-- What is counted for a worker with so many items: the outcomes, unless one of them ended it. -/
def account (size : Nat) (outcomes : List Outcome) : Report :=
  if outcomes.any Outcome.endsWorker then ⟨0, size⟩ else tally outcomes

theorem account_total {size : Nat} {outcomes : List Outcome}
    (all : outcomes.any Outcome.endsWorker = false → outcomes.length = size) :
    (account size outcomes).processed + (account size outcomes).failed = size := by
  unfold account
  split
  · exact Nat.zero_add size
  · rename_i alone
    rw [tally_total, all (Bool.not_eq_true _ ▸ alone)]

end Tally

/-- A worker between two turns: how many items it got, those that still wait, the one it has handed
to the job, and its report so far unless it has ended. -/
structure Worker (Item : Type) where
  size : Nat
  waiting : List Item
  current : Option Item := none
  report : Option Report := some {}

def Worker.fresh (items : List Item) : Worker Item := { size := items.length, waiting := items }

def Worker.counted (worker : Worker Item) : Report := worker.report.getD ⟨0, worker.size⟩

inductive Event (Item : Type) where
  | called (item : Item)
  | returned (item : Item) (outcome : Outcome)

def Event.call? : Event Item → Option Item
  | .called item => some item
  | .returned .. => none

def Event.return? : Event Item → Option (Item × Outcome)
  | .called _ => none
  | .returned item outcome => some (item, outcome)

def calls (events : List (Event Item)) : List Item := events.filterMap Event.call?

def returns (events : List (Event Item)) : List (Item × Outcome) :=
  events.filterMap Event.return?

/-- Adds an outcome to a report, which is lost if the outcome ends the worker. -/
def Report.after (report : Option Report) (outcome : Outcome) : Option Report :=
  report.bind fun report => outcome.report?.map report.add

theorem Report.after_some (report : Report) (outcome : Outcome) :
    Report.after (some report) outcome = outcome.report?.map report.add := rfl

/-- One turn of a worker. `answers` says which outcomes the job can have for an item. -/
inductive Turn (answers : Item → Outcome → Prop) : Worker Item → Event Item → Worker Item → Prop
  | call (size : Nat) (item : Item) (rest : List Item) (report : Report) :
      Turn answers ⟨size, item :: rest, none, some report⟩ (.called item)
        ⟨size, rest, some item, some report⟩
  | answer {item : Item} {outcome : Outcome} (given : answers item outcome) (size : Nat)
      (rest : List Item) (report : Option Report) :
      Turn answers ⟨size, rest, some item, report⟩ (.returned item outcome)
        ⟨size, rest, none, Report.after report outcome⟩

/-- Turns of a worker on its own. -/
inductive Turns (answers : Item → Outcome → Prop) :
    Worker Item → List (Event Item) → Worker Item → Prop
  | none (worker : Worker Item) : Turns answers worker [] worker
  | next {worker middle last : Worker Item} {event : Event Item} {events : List (Event Item)}
      (turn : Turn answers worker event middle) (later : Turns answers middle events last) :
      Turns answers worker (event :: events) last

inductive Step (answers : Item → Outcome → Prop) :
    List (Worker Item) → Nat × Event Item → List (Worker Item) → Prop
  | turn (before after : List (Worker Item)) {worker next : Worker Item} {event : Event Item}
      (turn : Turn answers worker event next) :
      Step answers (before ++ worker :: after) (before.length, event) (before ++ next :: after)

inductive Execution (answers : Item → Outcome → Prop) :
    List (Worker Item) → List (Nat × Event Item) → List (Worker Item) → Prop
  | none (workers : List (Worker Item)) : Execution answers workers [] workers
  | next {workers middle last : List (Worker Item)} {event : Nat × Event Item}
      {events : List (Nat × Event Item)} (step : Step answers workers event middle)
      (later : Execution answers middle events last) :
      Execution answers workers (event :: events) last

/-- How a worker gets through items: with an outcome for each of them, up to one that ends it. -/
inductive Through : List Item → List (Item × Outcome) → Prop
  | nothing : Through [] []
  | next (item : Item) {outcome : Outcome} {rest : List Item} {pairs : List (Item × Outcome)}
      (alone : outcome.endsWorker = false) (later : Through rest pairs) :
      Through (item :: rest) ((item, outcome) :: pairs)
  | ended (item : Item) {outcome : Outcome} (rest : List Item)
      (ends : outcome.endsWorker = true) : Through (item :: rest) [(item, outcome)]

/-- Every worker has its part of the items. -/
def start (items : List Item) (workers : Nat) : List (Worker Item) :=
  (assign items workers).map Worker.fresh

def Worker.Finished (worker : Worker Item) : Prop :=
  worker.current = none ∧ (worker.waiting = [] ∨ worker.report = none)

def Finished (workers : List (Worker Item)) : Prop := ∀ worker ∈ workers, worker.Finished

/-- What is reported for the workers together. -/
def joined (workers : List (Worker Item)) : Report :=
  (workers.map Worker.counted).foldl Report.add {}

def eventsOf (place : Nat) (events : List (Nat × Event Item)) : List (Event Item) :=
  (events.filter fun event => event.1 = place).map Prod.snd

section Laws

variable {answers : Item → Outcome → Prop} {worker next last : Worker Item} {event : Event Item}
  {events : List (Event Item)}

theorem Turns.current (turns : Turns answers worker events last) :
    worker.current.toList ++ calls events =
      (returns events).map Prod.fst ++ last.current.toList := by
  induction turns with
  | none worker => simp [calls, returns]
  | next turn _ ih =>
      cases turn with
      | call size item rest report => exact ih
      | @answer item outcome given size rest report => exact congrArg (item :: ·) ih

theorem Turns.size (turns : Turns answers worker events last) : last.size = worker.size := by
  induction turns with
  | none worker => rfl
  | next turn _ ih => cases turn <;> exact ih

theorem Turns.report (turns : Turns answers worker events last) :
    last.report = ((returns events).map Prod.snd).foldl Report.after worker.report := by
  induction turns with
  | none worker => rfl
  | next turn _ ih => cases turn <;> exact ih

theorem foldl_after_none (outcomes : List Outcome) :
    outcomes.foldl Report.after none = none := by
  induction outcomes with
  | nil => rfl
  | cons outcome rest ih => exact ih

/-- A report counts all outcomes, unless one of them has ended the worker. -/
theorem foldl_after (outcomes : List Outcome) (report : Report) :
    outcomes.foldl Report.after (some report) =
      if outcomes.any Outcome.endsWorker then none else some (report.add (tally outcomes)) := by
  induction outcomes generalizing report with
  | nil => rfl
  | cons outcome rest ih =>
      rw [List.foldl_cons, List.any_cons, Report.after_some, ← outcome.isNone_report?]
      cases counted : outcome.report? with
      | none => exact foldl_after_none rest
      | some more =>
          rw [Option.map_some, ih, Option.isNone_some, Bool.false_or, tally_cons counted,
            Report.add_assoc]

theorem Turns.counted {items : List Item} (turns : Turns answers (.fresh items) events last) :
    last.counted = account items.length ((returns events).map Prod.snd) := by
  have size := turns.size
  have report := turns.report
  unfold Worker.counted account
  rw [size, report]
  simp only [Worker.fresh, foldl_after, Report.empty_add]
  split <;> rfl

/-- A worker that is done has got through what was before it. -/
theorem Turns.through (turns : Turns answers worker events last) (finished : last.Finished) :
    (∀ report, worker.report = some report →
      Through (worker.current.toList ++ worker.waiting) (returns events)) ∧
    (worker.report = Option.none → worker.current = Option.none → events = []) := by
  induction turns with
  | none worker =>
      obtain ⟨idle, nothing | lost⟩ := finished
      · rw [idle, nothing]
        exact ⟨fun _ _ => .nothing, fun _ _ => rfl⟩
      · exact ⟨fun _ present => absurd (lost.symm.trans present) nofun, fun _ _ => rfl⟩
  | next turn _ ih =>
      obtain ⟨goesOn, stops⟩ := ih finished
      cases turn with
      | call size item rest report => exact ⟨fun _ _ => goesOn report rfl, nofun⟩
      | @answer item outcome given size rest report =>
          refine ⟨?_, nofun⟩
          rintro present rfl
          have ending := outcome.isNone_report?
          rw [Report.after_some] at goesOn stops
          cases counted : outcome.report? with
          | none =>
              rw [counted] at ending stops
              rw [stops rfl rfl]
              exact .ended item rest ending.symm
          | some more =>
              rw [counted] at ending goesOn
              exact .next item ending.symm (goesOn (present.add more) rfl)

theorem Through.items {items : List Item} {pairs : List (Item × Outcome)}
    (through : Through items pairs) (alone : (pairs.map Prod.snd).any Outcome.endsWorker = false) :
    pairs.map Prod.fst = items := by
  induction through with
  | nothing => rfl
  | next item _ _ ih =>
      rw [List.map_cons, List.any_cons, Bool.or_eq_false_iff] at alone
      rw [List.map_cons, ih alone.2]
  | ended item rest ends =>
      rw [List.map_singleton, List.any_cons, ends] at alone
      cases alone

end Laws

section Interleaving

variable {answers : Item → Outcome → Prop} {workers final : List (Worker Item)}
  {events : List (Nat × Event Item)}

theorem eventsOf_cons (place : Nat) (event : Nat × Event Item) (events : List (Nat × Event Item)) :
    eventsOf place (event :: events) =
      if event.1 = place then event.2 :: eventsOf place events else eventsOf place events := by
  unfold eventsOf
  by_cases here : event.1 = place <;> simp [here]

theorem Step.getElem? {event : Nat × Event Item} (step : Step answers workers event final)
    (place : Nat) :
    ∃ worker next, workers[event.1]? = some worker ∧ Turn answers worker event.2 next ∧
      final[place]? = if event.1 = place then some next else workers[place]? := by
  obtain ⟨before, after, turn⟩ := step
  rename_i worker next event
  have replaced : before ++ next :: after = (before ++ worker :: after).set before.length next := by
    simp
  refine ⟨worker, next, by simp, turn, ?_⟩
  rw [replaced, List.getElem?_set]
  simp

/-- Every worker goes its own way, whatever the others do in between. -/
theorem Execution.turns (execution : Execution answers workers events final) {place : Nat}
    {worker : Worker Item} (here : workers[place]? = some worker) :
    ∃ last, final[place]? = some last ∧ Turns answers worker (eventsOf place events) last := by
  induction execution generalizing worker with
  | none workers => exact ⟨worker, here, .none worker⟩
  | next step _ ih =>
      obtain ⟨acting, next, acted, turn, after⟩ := step.getElem? place
      rw [eventsOf_cons]
      split at after
      · rename_i same
        subst same
        rw [here] at acted
        cases acted
        obtain ⟨last, stands, later⟩ := ih after
        exact ⟨last, stands, by rw [if_pos rfl]; exact .next turn later⟩
      · rename_i other
        rw [if_neg other]
        exact ih (after.trans here)

theorem Execution.length_eq (execution : Execution answers workers events final) :
    final.length = workers.length := by
  induction execution with
  | none workers => rfl
  | next step _ ih =>
      rw [ih]
      obtain ⟨before, after, turn⟩ := step
      simp

theorem Execution.places (execution : Execution answers workers events final) :
    ∀ event ∈ events, event.1 < workers.length := by
  induction execution with
  | none workers => exact nofun
  | next step _ ih =>
      obtain ⟨before, after, turn⟩ := step
      refine List.forall_mem_cons.mpr ⟨by simp, ?_⟩
      intro event member
      have below := ih event member
      simpa using below

/-- The events are those of the workers, in some order. -/
theorem perm_eventsOf {count : Nat} (below : ∀ event ∈ events, event.1 < count) :
    (events.map Prod.snd).Perm ((List.range count).map (eventsOf · events)).flatten := by
  have upTo : ∀ count, ((events.filter fun event => event.1 < count).map Prod.snd).Perm
      ((List.range count).map (eventsOf · events)).flatten := by
    intro count
    induction count with
    | zero => simp
    | succ count ih =>
        -- the events before the next worker come apart into those before this one and its own
        have apart := List.filter_append_perm (fun event : Nat × Event Item => event.1 < count)
          (events.filter fun event => event.1 < count + 1)
        rw [List.filter_filter, List.filter_filter] at apart
        have earlier : (events.filter fun event =>
            decide (event.1 < count) && decide (event.1 < count + 1)) =
            events.filter fun event => event.1 < count := by
          apply List.filter_congr
          intro event _
          grind
        have own : (events.filter fun event =>
            !decide (event.1 < count) && decide (event.1 < count + 1)) =
            events.filter fun event => event.1 = count := by
          apply List.filter_congr
          intro event _
          grind
        rw [earlier, own] at apart
        rw [List.range_succ, List.map_append, List.flatten_append, List.map_singleton,
          List.flatten_singleton]
        refine (apart.symm.map Prod.snd).trans ?_
        rw [List.map_append]
        exact ih.append_right _
  have all : events.filter (fun event => event.1 < count) = events := by
    rw [List.filter_eq_self]
    intro event member
    exact decide_eq_true (below event member)
  have perm := upTo count
  rwa [all] at perm

theorem Execution.trans {first second third : List (Worker Item)}
    {events later : List (Nat × Event Item)} (start : Execution answers first events second)
    (rest : Execution answers second later third) :
    Execution answers first (events ++ later) third := by
  induction start with
  | none workers => exact rest
  | next step _ ih => exact .next step (ih rest)

/-- A worker may go on alone. -/
theorem Turns.execution {worker last : Worker Item} {events : List (Event Item)}
    (turns : Turns answers worker events last) (before after : List (Worker Item)) :
    Execution answers (before ++ worker :: after) (events.map fun event => (before.length, event))
      (before ++ last :: after) := by
  induction turns with
  | none worker => exact .none _
  | next turn _ ih => exact .next (.turn before after turn) ih

end Interleaving

end Deobfuscation.Batch
