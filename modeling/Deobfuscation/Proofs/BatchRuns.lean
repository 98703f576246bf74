import Deobfuscation.Proofs.BatchTraces
import Mathlib.Algebra.GroupWithZero.Nat

/-!
Nothing is lost between workers and nothing is done twice. An execution has two turns for each
item at most, so it comes to an end; then every worker has gone through its part or was ended by an
outcome, and all items are counted. If no worker was ended, the job was called once for each item,
and the reports count the outcomes. All this holds of the batch itself, whose calls are one of the
executions.
-/

namespace Deobfuscation.Batch

variable {Item : Type}

def outcomesOf (place : Nat) (events : List (Nat × Event Item)) : List Outcome :=
  (returns (eventsOf place events)).map Prod.snd

/-- What a finished execution has done. Each worker has called the job for its items in order, up to
the end or to an outcome that ended it, and the items of a worker that was ended count as failures.
-/
structure Accounted (items : List Item) (workers : Nat) (events : List (Nat × Event Item))
    (final : List (Worker Item)) : Prop where
  through : ∀ place part, (assign items workers)[place]? = some part →
    Through part (returns (eventsOf place events))
  called : ∀ place part, (assign items workers)[place]? = some part →
    calls (eventsOf place events) = (returns (eventsOf place events)).map Prod.fst
  reported : joined final = ((assign items workers).zipIdx.map fun part =>
    account part.1.length (outcomesOf part.2 events)).foldl Report.add {}
  total : (joined final).processed + (joined final).failed = items.length

/-- What it has done if no outcome has ended a worker. Each worker has called the job for its part
of the items, in order, and for all workers together each item was handed over once and given back
once. The reports add up to the outcomes. -/
structure Complete (items : List Item) (workers : Nat) (events : List (Nat × Event Item))
    (final : List (Worker Item)) : Prop where
  inOrder : ∀ place part, (assign items workers)[place]? = some part →
    calls (eventsOf place events) = part
  called : (calls (events.map Prod.snd)).Perm items
  returned : ((returns (events.map Prod.snd)).map Prod.fst).Perm items
  processed : (joined final).processed =
    (returns (events.map Prod.snd)).countP fun pair => pair.2 = .done
  failed : (joined final).failed =
    (returns (events.map Prod.snd)).countP fun pair => pair.2 ≠ .done

section Reports

theorem foldl_add_tally (lists : List (List Outcome)) (report : Report) :
    (lists.map tally).foldl Report.add report = report.add (tally lists.flatten) := by
  induction lists generalizing report with
  | nil => exact (Report.add_empty _).symm
  | cons outcomes rest ih =>
      rw [List.map_cons, List.foldl_cons, ih, List.flatten_cons, tally_append, Report.add_assoc]

theorem foldl_add_total (reports : List Report) (report : Report) :
    (reports.foldl Report.add report).processed + (reports.foldl Report.add report).failed =
      report.processed + report.failed +
        (reports.map fun other => other.processed + other.failed).sum := by
  induction reports generalizing report with
  | nil => rfl
  | cons other rest ih =>
      rw [List.foldl_cons, ih, List.map_cons, List.sum_cons]
      dsimp only [Report.add]
      omega

end Reports

section Accounting

variable {answers : Item → Outcome → Prop} {items : List Item} {workers : Nat}
  {events : List (Nat × Event Item)} {final : List (Worker Item)}

theorem Execution.worker_finished (execution : Execution answers (start items workers) events final)
    (finished : Finished final) {place : Nat} {part : List Item}
    (given : (assign items workers)[place]? = some part) :
    Through part (returns (eventsOf place events)) ∧
      calls (eventsOf place events) = (returns (eventsOf place events)).map Prod.fst ∧
      ∃ last, final[place]? = some last ∧
        last.counted = account part.length (outcomesOf place events) := by
  have here : (start items workers)[place]? = some (.fresh part) := by
    simp [start, given]
  obtain ⟨last, stands, turns⟩ := execution.turns here
  have done := finished last (List.mem_of_getElem? stands)
  have called := turns.current
  rw [done.1] at called
  exact ⟨(turns.through done).1 {} rfl, by simpa [Worker.fresh] using called, last, stands,
    turns.counted⟩

theorem Execution.perm_parts {Other : Type}
    (execution : Execution answers (start items workers) events final)
    (pick : Event Item → Option Other) :
    ((events.map Prod.snd).filterMap pick).Perm ((List.range (assign items workers).length).map
      fun place => (eventsOf place events).filterMap pick).flatten := by
  have below : ∀ event ∈ events, event.1 < (assign items workers).length := by
    intro event member
    simpa [start] using execution.places event member
  have perm := (perm_eventsOf below).filterMap pick
  rwa [List.filterMap_flatten, List.map_map] at perm

theorem Execution.perm_items (execution : Execution answers (start items workers) events final)
    {pick : Event Item → Option Item}
    (each : ∀ place part, (assign items workers)[place]? = some part →
      (eventsOf place events).filterMap pick = part) :
    ((events.map Prod.snd).filterMap pick).Perm items := by
  have parts : (List.range (assign items workers).length).map
      (fun place => (eventsOf place events).filterMap pick) = assign items workers := by
    apply List.ext_getElem
    · simp
    · intro place _ inside
      rw [List.getElem_map, List.getElem_range]
      exact each place _ (List.getElem?_eq_getElem inside)
  have perm := execution.perm_parts pick
  rwa [parts, flatten_assign] at perm

/-- What is counted for the workers, one after the other. -/
theorem Execution.map_counted (execution : Execution answers (start items workers) events final)
    (finished : Finished final) :
    final.map Worker.counted = (assign items workers).zipIdx.map fun part =>
      account part.1.length (outcomesOf part.2 events) := by
  have count : final.length = (assign items workers).length := by
    rw [execution.length_eq, start, List.length_map]
  apply List.ext_getElem
  · simp [count]
  · intro place inside _
    rw [List.length_map, count] at inside
    obtain ⟨-, -, last, stands, counted⟩ :=
      execution.worker_finished finished (List.getElem?_eq_getElem inside)
    obtain ⟨_, here⟩ := List.getElem?_eq_some_iff.mp stands
    simp [here, counted]

theorem Execution.accounted (execution : Execution answers (start items workers) events final)
    (finished : Finished final) : Accounted items workers events final := by
  have reported := congrArg (List.foldl Report.add {}) (execution.map_counted finished)
  refine ⟨?_, ?_, reported, ?_⟩
  · intro place part given
    exact (execution.worker_finished finished given).1
  · intro place part given
    exact (execution.worker_finished finished given).2.1
  · have sizes : ((assign items workers).zipIdx.map fun part =>
        (account part.1.length (outcomesOf part.2 events)).processed +
          (account part.1.length (outcomesOf part.2 events)).failed) =
        (assign items workers).map List.length := by
      conv_rhs => rw [← List.zipIdx_map_fst 0 (assign items workers), List.map_map]
      apply List.map_congr_left
      rintro ⟨part, place⟩ member
      apply account_total
      intro alone
      have through := (execution.worker_finished finished
        (List.mem_zipIdx_iff_getElem?.mp member)).1.items alone
      rw [outcomesOf, List.length_map, ← through, List.length_map]
    have total : joined final = _ := reported
    rw [total, foldl_add_total, List.map_map, Function.comp_def, sizes, ← List.length_flatten,
      flatten_assign]
    exact Nat.zero_add _

theorem mem_returns_of_mem {place : Nat} {pair : Item × Outcome}
    (member : pair ∈ returns (eventsOf place events)) : pair ∈ returns (events.map Prod.snd) := by
  have part : (eventsOf place events).Sublist (events.map Prod.snd) :=
    List.filter_sublist.map Prod.snd
  exact (part.filterMap Event.return?).subset member

def Undisturbed (events : List (Nat × Event Item)) : Prop :=
  ∀ pair ∈ returns (events.map Prod.snd), pair.2.endsWorker = false

theorem Undisturbed.outcomesOf (undisturbed : Undisturbed events) (place : Nat) :
    (outcomesOf place events).any Outcome.endsWorker = false := by
  rw [List.any_eq_false]
  intro outcome member
  obtain ⟨pair, returned, rfl⟩ := List.mem_map.mp member
  rw [undisturbed pair (mem_returns_of_mem returned)]
  exact Bool.false_ne_true

theorem Execution.joined_eq (execution : Execution answers (start items workers) events final)
    (finished : Finished final) (undisturbed : Undisturbed events) :
    joined final = tally ((returns (events.map Prod.snd)).map Prod.snd) := by
  have reports : final.map Worker.counted = ((List.range (assign items workers).length).map
      (Batch.outcomesOf · events)).map tally := by
    rw [execution.map_counted finished, List.range_eq_range', ← List.zipIdx_map_snd 0,
      List.map_map, List.map_map]
    apply List.map_congr_left
    intro part _
    simp [account, undisturbed.outcomesOf part.2]
  have perm := execution.perm_parts fun event => event.return?.map Prod.snd
  simp only [← List.map_filterMap] at perm
  rw [joined, reports, foldl_add_tally, Report.empty_add]
  exact (tally_perm perm).symm

theorem Execution.complete (execution : Execution answers (start items workers) events final)
    (finished : Finished final) (undisturbed : Undisturbed events) :
    Complete items workers events final := by
  have accounted := execution.accounted finished
  have back : ∀ place part, (assign items workers)[place]? = some part →
      (returns (eventsOf place events)).map Prod.fst = part := by
    intro place part given
    exact (accounted.through place part given).items (undisturbed.outcomesOf place)
  have inOrder : ∀ place part, (assign items workers)[place]? = some part →
      calls (eventsOf place events) = part := by
    intro place part given
    rw [accounted.called place part given, back place part given]
  have returned : ((returns (events.map Prod.snd)).map Prod.fst).Perm items := by
    rw [returns, List.map_filterMap]
    apply execution.perm_items
    intro place part given
    rw [← List.map_filterMap]
    exact back place part given
  refine ⟨inOrder, execution.perm_items inOrder, returned, ?_, ?_⟩
  · rw [execution.joined_eq finished undisturbed]
    exact List.countP_map
  · rw [execution.joined_eq finished undisturbed]
    exact List.countP_map

end Accounting

section Ending

variable {answers : Item → Outcome → Prop} {workers final : List (Worker Item)}
  {events : List (Nat × Event Item)}

def left (workers : List (Worker Item)) : Nat :=
  2 * (workers.flatMap Worker.waiting).length +
    (workers.flatMap fun worker => worker.current.toList).length

/-- As long as the job answers, a worker that is not done can go on. -/
theorem exists_step (total : ∀ item, ∃ outcome, answers item outcome)
    (unfinished : ¬ Finished workers) : ∃ event next, Step answers workers event next := by
  simp only [Finished, not_forall] at unfinished
  obtain ⟨worker, member, busy⟩ := unfinished
  obtain ⟨before, after, rfl⟩ := List.append_of_mem member
  obtain ⟨size, waiting, current, report⟩ := worker
  cases current with
  | some item =>
      obtain ⟨outcome, given⟩ := total item
      exact ⟨_, _, .turn before after (.answer given size waiting report)⟩
  | none =>
      cases waiting with
      | nil => exact absurd ⟨rfl, Or.inl rfl⟩ busy
      | cons item rest =>
          cases report with
          | none => exact absurd ⟨rfl, Or.inr rfl⟩ busy
          | some report => exact ⟨_, _, .turn before after (.call size item rest report)⟩

theorem Execution.length_add_left (execution : Execution answers workers events final) :
    events.length + left final = left workers := by
  induction execution with
  | none workers => simp
  | next step _ ih =>
      rw [List.length_cons, Nat.add_right_comm, ih]
      obtain ⟨before, after, turn⟩ := step
      cases turn with
      | call size item rest report => simp [left]; omega
      | answer given size rest report => simp [left]; omega

theorem left_start (items : List Item) (workers : Nat) :
    left (start items workers) = 2 * items.length := by
  have waiting : (start items workers).flatMap Worker.waiting = items := by
    rw [start, List.flatMap_map]
    exact List.flatMap_id'.trans (flatten_assign items workers)
  have idle : ((start items workers).flatMap fun worker => worker.current.toList) = [] := by
    simp [start, Worker.fresh]
  rw [left, waiting, idle]
  rfl

theorem Execution.answered (execution : Execution answers workers events final) :
    ∀ pair ∈ returns (events.map Prod.snd), answers pair.1 pair.2 := by
  induction execution with
  | none workers => exact nofun
  | next step _ ih =>
      obtain ⟨before, after, turn⟩ := step
      cases turn with
      | call size item rest report => exact ih
      | answer given size rest report => exact List.forall_mem_cons.mpr ⟨given, ih⟩

/-- With a job that has one outcome for an item, the report is the same for any number of workers
and any interleaving. -/
theorem Execution.joined_of_function {items : List Item} {count : Nat} {outcome : Item → Outcome}
    (function : ∀ item result, answers item result → result = outcome item)
    (execution : Execution answers (start items count) events final)
    (finished : Finished final) (undisturbed : Undisturbed events) :
    joined final = ⟨items.countP fun item => outcome item = .done,
      items.countP fun item => outcome item ≠ .done⟩ := by
  have outcomes : (returns (events.map Prod.snd)).map Prod.snd =
      ((returns (events.map Prod.snd)).map Prod.fst).map outcome := by
    rw [List.map_map]
    apply List.map_congr_left
    intro pair member
    exact function pair.1 pair.2 (execution.answered pair member)
  have perm := (execution.complete finished undisturbed).returned.map outcome
  rw [execution.joined_eq finished undisturbed, outcomes, tally_perm perm, tally, List.countP_map,
    List.countP_map]
  rfl

end Ending

/-- The second worker ends at its second item: the next one is never done, and all three have
failed. -/
example : run (recordTell fun _ => pure ())
    (recordJob fun item => pure (if item = 4 then .crashedUndropped else .done)) [1, 2, 3, 4, 5] 2
      ((), []) =
    (⟨2, 3⟩, (), [.told (.assigned 0 2), .called 1 .done, .called 2 .done,
      .told (.assigned 1 3), .called 3 .done, .called 4 .crashedUndropped,
      .told (.itemCrashed 1), .told (.workerCrashed 1 3)]) := rfl

end Deobfuscation.Batch
