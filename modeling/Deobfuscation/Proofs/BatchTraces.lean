import Deobfuscation.Proofs.WorkerTurns

/-!
What a batch does to its surroundings. A batch can be given a job and a teller that keep a record
beside the state that they work on. The batch does the same as before, and the record shows it to
be an execution: the calls that follow the start of a worker are the turns of this worker. So what
holds of all executions holds of the calls that a batch makes.
-/

namespace Deobfuscation.Batch

variable {Item World Result Other : Type}

inductive Act (Item : Type) where
  | told (notice : Notice)
  | called (item : Item) (outcome : Outcome)

def recordTell (tell : Notice → StateM World Unit) (notice : Notice) :
    StateM (World × List (Act Item)) Unit :=
  fun (world, acts) => ((), (tell notice world).2, acts ++ [.told notice])

def recordJob (job : Item → StateM World Outcome) (item : Item) :
    StateM (World × List (Act Item)) Outcome :=
  fun (world, acts) =>
    ((job item world).1, (job item world).2, acts ++ [.called item (job item world).1])

/-- The events of a record. Calls are made by the worker that was started last. -/
def placed : Nat → List (Act Item) → List (Nat × Event Item)
  | _, [] => []
  | _, .told (.assigned worker _) :: rest => placed worker rest
  | place, .told _ :: rest => placed place rest
  | place, .called item outcome :: rest =>
      (place, .called item) :: (place, .returned item outcome) :: placed place rest

section Records

/-- The second computation does what the first one does, and records these acts. -/
def Records (plain : StateM World Result) (recording : StateM (World × List (Act Item)) Result)
    (world : World) (acts : List (Act Item)) : Prop :=
  ∀ before, recording (world, before) = ((plain world).1, (plain world).2, before ++ acts)

theorem records_pure {world : World} (result : Result) :
    Records (pure result) (pure result : StateM (World × List (Act Item)) Result) world [] := by
  intro before
  rw [List.append_nil]
  rfl

theorem Records.bind {world : World} {plain : StateM World Result}
    {recording : StateM (World × List (Act Item)) Result} {acts later : List (Act Item)}
    {next : Result → StateM World Other}
    {recordingNext : Result → StateM (World × List (Act Item)) Other}
    (first : Records plain recording world acts)
    (second : Records (next (plain world).1) (recordingNext (plain world).1)
      (plain world).2 later) :
    Records (plain >>= next) (recording >>= recordingNext) world (acts ++ later) := by
  intro before
  have whole := second (before ++ acts)
  rw [List.append_assoc] at whole
  exact (congrArg (fun state => recordingNext state.1 state.2) (first before)).trans whole

theorem records_tell (tell : Notice → StateM World Unit) (world : World) (notice : Notice) :
    Records (tell notice) (recordTell tell notice : StateM (World × List (Act Item)) Unit) world
      [.told notice] := fun _ => rfl

theorem records_job (job : Item → StateM World Outcome) (world : World) (item : Item) :
    Records (job item) (recordJob job item) world [.called item (job item world).1] := fun _ => rfl

theorem records_forM (tell : Notice → StateM World Unit) (world : World) (notices : List Notice) :
    Records (notices.forM tell)
      (notices.forM (recordTell tell) : StateM (World × List (Act Item)) Unit) world
      (notices.map .told) := by
  induction notices generalizing world with
  | nil => exact records_pure ()
  | cons notice rest ih => exact (records_tell tell world notice).bind (ih (tell notice world).2)

end Records

section Batches

variable (tell : Notice → StateM World Unit) (job : Item → StateM World Outcome)

def Answers (job : Item → StateM World Outcome) (item : Item) (outcome : Outcome) : Prop :=
  ∃ world, (job item world).1 = outcome

theorem placed_notices (place worker : Nat) (outcome : Outcome) (later : List (Act Item)) :
    placed place ((outcome.notices worker).map .told ++ later) = placed place later := by
  cases outcome <;> rfl

theorem placed_answer (place : Nat) (item : Item) (outcome : Outcome)
    (later : List (Act Item)) :
    placed place ([.called item outcome] ++ (outcome.notices place).map .told ++ later) =
      (place, .called item) :: (place, .returned item outcome) :: placed place later := by
  rw [List.append_assoc, List.singleton_append, placed, placed_notices]

/-- What a worker does with the next item, before it goes on or ends. -/
theorem runItems_cons (place : Nat) (item : Item) (rest : List Item) (report : Report)
    (world : World) :
    runItems tell job place report (item :: rest) world =
      (match (job item world).1.report? with
        | some counted => runItems tell job place (report.add counted) rest
        | none => pure none : StateM World (Option Report))
        (((job item world).1.notices place).forM tell (job item world).2).2 := rfl

theorem records_runItems (place : Nat) (items : List Item) (report : Report) (world : World) :
    ∃ acts events,
      Records (runItems tell job place report items)
        (runItems (recordTell tell) (recordJob job) place report items) world acts ∧
      (∀ later, placed place (acts ++ later) =
        events.map (fun event => (place, event)) ++ placed place later) ∧
      ∀ size, ∃ last, Turns (Answers job) ⟨size, items, none, some report⟩ events last ∧
        last.Finished ∧ last.report = (runItems tell job place report items world).1 := by
  induction items generalizing report world with
  | nil =>
      refine ⟨[], [], records_pure _, fun _ => rfl, ?_⟩
      intro size
      exact ⟨_, .none _, ⟨rfl, Or.inl rfl⟩, rfl⟩
  | cons item rest ih =>
      have called := records_job job world item
      have told := @records_forM Item _ tell (job item world).2 ((job item world).1.notices place)
      have answered : ∀ size, Turn (Answers job) ⟨size, rest, some item, some report⟩
          (.returned item (job item world).1)
          ⟨size, rest, none, Report.after (some report) (job item world).1⟩ :=
        fun size => .answer ⟨world, rfl⟩ size rest (some report)
      simp only [runItems_cons]
      cases counted : (job item world).1.report? with
      | none =>
          refine ⟨_, [.called item, .returned item (job item world).1],
            called.bind (told.bind (by rw [counted]; exact records_pure none)), ?_, ?_⟩
          · intro later
            rw [List.append_nil]
            exact placed_answer place item _ later
          · intro size
            have lost : Report.after (some report) (job item world).1 = none := by
              rw [Report.after_some, counted]
              rfl
            exact ⟨_, .next (.call size item rest report) (.next (answered size) (.none _)),
              ⟨rfl, Or.inr lost⟩, lost⟩
      | some more =>
          obtain ⟨acts, events, records, placing, turns⟩ := ih (report.add more)
            (((job item world).1.notices place).forM tell (job item world).2).2
          refine ⟨_, .called item :: .returned item (job item world).1 :: events,
            called.bind (told.bind (by rw [counted]; exact records)), ?_, ?_⟩
          · intro later
            rw [← List.append_assoc, List.append_assoc, placed_answer, placing]
            rfl
          · intro size
            have kept : Report.after (some report) (job item world).1 =
                some (report.add more) := by
              rw [Report.after_some, counted]
              rfl
            obtain ⟨last, others, finished, reported⟩ := turns size
            have first := answered size
            rw [kept] at first
            exact ⟨last, .next (.call size item rest report) (.next first others), finished,
              reported⟩

def Handle.counted (handle : Handle) : Report := handle.report.getD ⟨0, handle.items⟩

theorem records_runWorker (place : Nat) (items : List Item) (world : World) :
    ∃ acts events last,
      Records (runWorker tell job (items, place))
        (runWorker (recordTell tell) (recordJob job) (items, place)) world acts ∧
      (∀ other later, placed other (acts ++ later) =
        events.map (fun event => (place, event)) ++ placed place later) ∧
      Turns (Answers job) (.fresh items) events last ∧ last.Finished ∧
      last.counted = (runWorker tell job (items, place) world).1.counted := by
  have started := @records_tell Item _ tell world (.assigned place items.length)
  obtain ⟨acts, events, records, placing, turns⟩ :=
    records_runItems tell job place items {} (tell (.assigned place items.length) world).2
  obtain ⟨last, taken, finished, reported⟩ := turns items.length
  refine ⟨_, events, last, started.bind (records.bind (records_pure _)), ?_, taken, finished, ?_⟩
  · intro other later
    rw [List.append_nil, List.singleton_append, List.cons_append, placed, placing]
  · rw [Worker.counted, reported, taken.size]
    rfl

/-- Doing one part after the other is one of the interleavings. -/
theorem records_workers (parts : List (List Item)) (done : List (Worker Item)) (world : World) :
    ∃ acts events last,
      Records ((parts.zipIdx done.length).mapM (runWorker tell job))
        ((parts.zipIdx done.length).mapM (runWorker (recordTell tell) (recordJob job)))
        world acts ∧
      (∀ place later, ∃ next, placed place (acts ++ later) = events ++ placed next later) ∧
      Execution (Answers job) (done ++ parts.map Worker.fresh) events (done ++ last) ∧
      Finished last ∧
      last.map Worker.counted =
        ((parts.zipIdx done.length).mapM (runWorker tell job) world).1.map Handle.counted := by
  induction parts generalizing done world with
  | nil => exact ⟨[], [], [], records_pure [], fun place _ => ⟨place, rfl⟩, .none _, nofun, rfl⟩
  | cons part rest ih =>
      obtain ⟨acts, events, worker, records, placing, turns, finished, counted⟩ :=
        records_runWorker tell job done.length part world
      obtain ⟨laterActs, laterEvents, last, laterRecords, laterPlacing, execution, othersFinished,
        others⟩ := ih (done ++ [worker]) (runWorker tell job (part, done.length) world).2
      have first := turns.execution done (rest.map Worker.fresh)
      rw [List.append_assoc, List.append_assoc, List.singleton_append, List.singleton_append]
        at execution
      rw [List.length_append, List.length_singleton] at laterRecords others
      rw [List.zipIdx_cons, List.mapM_cons, List.mapM_cons]
      refine ⟨_, _, worker :: last, records.bind (laterRecords.bind (records_pure _)), ?_,
        first.trans execution, List.forall_mem_cons.mpr ⟨finished, othersFinished⟩, ?_⟩
      · intro place later
        obtain ⟨next, same⟩ := laterPlacing done.length later
        refine ⟨next, ?_⟩
        rw [List.append_nil, List.append_assoc, placing, same, List.append_assoc]
      · rw [List.map_cons, counted, others]
        rfl

/-- At the end the reports are added, those of workers that ended as their numbers of items. -/
theorem records_joins (handles : List Handle) (report : Report) (world : World) :
    ∃ acts : List (Act Item),
      Records (handles.foldlM (join tell) report) (handles.foldlM (join (recordTell tell)) report)
        world acts ∧
      (∀ place, placed place acts = []) ∧
      (handles.foldlM (join tell) report world).1 =
        (handles.map Handle.counted).foldl Report.add report := by
  induction handles generalizing report world with
  | nil => exact ⟨[], records_pure report, fun _ => rfl, rfl⟩
  | cons handle rest ih =>
      obtain ⟨worker, count, reported⟩ := handle
      rw [List.foldlM_cons, List.foldlM_cons]
      cases reported with
      | some other =>
          obtain ⟨acts, records, placing, total⟩ := ih (report.add other) world
          exact ⟨acts, (records_pure (report.add other)).bind records, placing, total⟩
      | none =>
          have told := @records_tell Item _ tell world (.workerCrashed worker count)
          have first : Records (join tell report ⟨worker, count, none⟩)
              (join (recordTell tell) report ⟨worker, count, none⟩) world _ :=
            told.bind (records_pure (report.add ⟨0, count⟩))
          obtain ⟨acts, records, placing, total⟩ :=
            ih (report.add ⟨0, count⟩) (tell (.workerCrashed worker count) world).2
          exact ⟨_, first.bind records, placing, total⟩

/-- A batch that is recorded does what it does without, and the record is an execution of all the
workers with the same report. -/
theorem records_run (items : List Item) (workers : Nat) (world : World) :
    ∃ acts final,
      Records (run tell job items workers)
        (run (recordTell tell) (recordJob job) items workers) world acts ∧
      Execution (Answers job) (start items workers) (placed 0 acts) final ∧ Finished final ∧
      joined final = (run tell job items workers world).1 := by
  obtain ⟨acts, events, final, records, placing, execution, finished, counted⟩ :=
    records_workers tell job (assign items workers) [] world
  obtain ⟨later, joins, silent, total⟩ := @records_joins Item _ tell
    ((assign items workers).zipIdx.mapM (runWorker tell job) world).1 {}
    ((assign items workers).zipIdx.mapM (runWorker tell job) world).2
  obtain ⟨next, same⟩ := placing 0 later
  rw [silent, List.append_nil] at same
  refine ⟨_, final, records.bind joins, ?_, finished, ?_⟩
  · rw [same]
    exact execution
  · rw [joined, counted]
    exact total.symm

end Batches

end Deobfuscation.Batch
