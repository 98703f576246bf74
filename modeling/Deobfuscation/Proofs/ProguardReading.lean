import Deobfuscation.Mapping.Proguard
import Deobfuscation.Proofs.LineCutting
import Deobfuscation.Proofs.ProguardLines
import Deobfuscation.Proofs.TableOrder

/-!
Reading the Proguard dialect line by line. The reader takes runs of field lines and of method
lines greedily and looks one line ahead. Main statement: it is a machine with three states that
takes one line at a time, never goes back, and fails at the first line it can not take.
-/

namespace Deobfuscation.Mapping.Proguard

/-- What a line says. -/
inductive Entry where
  | header (line : ClassLine)
  | field (line : FieldLine)
  | method (line : MethodLine)
  deriving DecidableEq, Repr

def Entry.ofText? (text : String) : Option Entry :=
  match classLine? text with
  | some line => some (.header line)
  | none =>
      match fieldLine? text with
      | some line => some (.field line)
      | none => (methodLine? text).map .method

/-- No class is open, or the last one takes fields and methods, or methods only. -/
inductive State where
  | start
  | fields (done : List ClassMapping) (current : ClassMapping)
  | methods (done : List ClassMapping) (current : ClassMapping)

def State.classes : State → List ClassMapping
  | .start => []
  | .fields done current => done ++ [current]
  | .methods done current => done ++ [current]

def State.accept : State → Entry → Option State
  | state, .header line => some (.fields state.classes line.mapping)
  | .fields done current, .field line =>
      some (.fields done (current.addField line.obfuscated line.original))
  | .fields done current, .method line =>
      some (.methods done (current.addMethod line.obfuscated line.descriptor line.original))
  | .methods done current, .method line =>
      some (.methods done (current.addMethod line.obfuscated line.descriptor line.original))
  | .methods _ _, .field _ => none
  | .start, .field _ => none
  | .start, .method _ => none

def State.next (state : State) (line : Line) : Option State :=
  (line.text.bind Entry.ofText?).bind state.accept

/-- Why a line that can not be taken ends the reading. -/
def refusal (line : Line) : Fault :=
  match line.text with
  | none => .unreadable line.number
  | some text => .malformed line.number (.unexpected text)

def State.read : State → List Line → Except Fault (List ClassMapping)
  | state, [] => .ok state.classes
  | state, line :: rest =>
      match state.next line with
      | some next => next.read rest
      | none => .error (refusal line)

section Kinds

theorem ofText?_eq_header_iff {text : String} {line : ClassLine} :
    Entry.ofText? text = some (.header line) ↔ classLine? text = some line := by
  unfold Entry.ofText?
  split
  · simp_all
  · split <;> simp_all

theorem ofText?_eq_field_iff {text : String} {line : FieldLine} :
    Entry.ofText? text = some (.field line) ↔ fieldLine? text = some line := by
  constructor
  · intro read
    unfold Entry.ofText? at read
    split at read
    · simp at read
    · split at read <;> simp_all
  · intro read
    simp [Entry.ofText?, classLine?_of_fieldLine? read, read]

theorem ofText?_eq_method_iff {text : String} {line : MethodLine} :
    Entry.ofText? text = some (.method line) ↔ methodLine? text = some line := by
  constructor
  · intro read
    unfold Entry.ofText? at read
    split at read
    · simp at read
    · split at read <;> simp_all
  · intro read
    simp [Entry.ofText?, classLine?_of_methodLine? read, fieldLine?_of_methodLine? read, read]

end Kinds

section Machine

variable {done : List ClassMapping} {current : ClassMapping}

theorem readClasses_nil : readClasses [] = .ok [] := by
  rw [readClasses]

theorem readClasses_header {line : Line} {text : String} {header : ClassLine}
    (present : line.text = some text) (read : classLine? text = some header) (rest : List Line) :
    readClasses (line :: rest) =
      (takeFields header.mapping rest).bind fun fields =>
        (takeMethods fields.1 fields.2).bind fun methods =>
          (readClasses methods.2).map (methods.1 :: ·) := by
  rw [readClasses]
  simp only [present, read]
  split
  · rename_i fault failed
    rw [failed]
    rfl
  · rename_i mapping behind taken
    rw [taken]
    simp only [Except.bind]
    split
    · rename_i fault failed
      rw [failed]
    · rename_i finished others takenNext
      rw [takenNext]

theorem map_bind {Item Other Last : Type} (outcome : Except Fault Item)
    (next : Item → Except Fault Other) (change : Other → Last) :
    (outcome.bind next).map change = outcome.bind fun item => (next item).map change := by
  cases outcome <;> rfl

theorem map_map {Item Other Last : Type} (outcome : Except Fault Item) (first : Item → Other)
    (second : Other → Last) : (outcome.map first).map second = outcome.map (second ∘ first) := by
  cases outcome <;> rfl

/-- The three loops of the reader are the three states of the machine. -/
structure Loops (lines : List Line) : Prop where
  start : State.start.read lines = readClasses lines
  methods : ∀ done current, (State.methods done current).read lines =
    (takeMethods current lines).bind fun methods =>
      (readClasses methods.2).map (done ++ methods.1 :: ·)
  fields : ∀ done current, (State.fields done current).read lines =
    (takeFields current lines).bind fun fields =>
      (takeMethods fields.1 fields.2).bind fun methods =>
        (readClasses methods.2).map (done ++ methods.1 :: ·)

theorem loops_nil : Loops [] := by
  constructor <;>
    simp [State.read, State.classes, takeFields, takeMethods, readClasses_nil, Except.bind,
      Except.map]

theorem loops_unreadable {line : Line} (absent : line.text = none) (rest : List Line) :
    Loops (line :: rest) := by
  have stuck : ∀ state : State, state.next line = none := fun state => by simp [State.next, absent]
  have failed : readClasses (line :: rest) = .error (refusal line) := by
    rw [readClasses]
    simp [absent, refusal]
  constructor <;>
    simp [State.read, stuck, failed, takeFields, takeMethods, absent, refusal, Except.bind]

theorem loops_header {line : Line} {text : String} {header : ClassLine}
    (present : line.text = some text) (read : classLine? text = some header) {rest : List Line}
    (loops : Loops rest) : Loops (line :: rest) := by
  have entry : Entry.ofText? text = some (.header header) := ofText?_eq_header_iff.mpr read
  have taken : ∀ state : State,
      state.read (line :: rest) = (State.fields state.classes header.mapping).read rest := by
    intro state
    simp [State.read, State.next, present, entry, State.accept]
  have noField : fieldLine? text = none := by
    cases other : fieldLine? text with
    | none => rfl
    | some field => simp [classLine?_of_fieldLine? other] at read
  have noMethod : methodLine? text = none := by
    cases other : methodLine? text with
    | none => rfl
    | some method => simp [classLine?_of_methodLine? other] at read
  -- the loops for members end here and leave the line to the next class
  have endFields : ∀ current, takeFields current (line :: rest) = .ok (current, line :: rest) :=
    fun current => by simp [takeFields, present, noField]
  have endMethods : ∀ current, takeMethods current (line :: rest) = .ok (current, line :: rest) :=
    fun current => by simp [takeMethods, present, noMethod]
  have ended : ∀ done current,
      (State.fields (done ++ [current]) header.mapping).read rest =
        (readClasses (line :: rest)).map (done ++ current :: ·) := by
    intro done current
    rw [loops.fields, readClasses_header present read]
    simp only [map_bind, map_map, Function.comp_def, List.append_assoc, List.singleton_append]
  constructor
  · rw [taken, loops.fields, readClasses_header present read]
    rfl
  · intro done current
    rw [taken, endMethods]
    exact ended done current
  · intro done current
    rw [taken, endFields]
    exact (ended done current).trans (by rw [Except.bind, endMethods]; rfl)

theorem loops_field {line : Line} {text : String} {field : FieldLine}
    (present : line.text = some text) (read : fieldLine? text = some field) {rest : List Line}
    (loops : Loops rest) : Loops (line :: rest) := by
  have entry : Entry.ofText? text = some (.field field) := ofText?_eq_field_iff.mpr read
  have noHeader := classLine?_of_fieldLine? read
  have noMethod : methodLine? text = none := by
    cases other : methodLine? text with
    | none => rfl
    | some method => simp [fieldLine?_of_methodLine? other] at read
  have failed : readClasses (line :: rest) = .error (refusal line) := by
    rw [readClasses]
    simp [present, noHeader, refusal]
  constructor
  · simp [State.read, State.next, present, entry, State.accept, failed]
  · intro done current
    simp [State.read, State.next, present, entry, State.accept, takeMethods, noMethod, failed,
      Except.bind, Except.map]
  · intro done current
    simpa [State.read, State.next, present, entry, State.accept, takeFields, read] using
      loops.fields done (current.addField field.obfuscated field.original)

theorem loops_method {line : Line} {text : String} {method : MethodLine}
    (present : line.text = some text) (read : methodLine? text = some method) {rest : List Line}
    (loops : Loops rest) : Loops (line :: rest) := by
  have entry : Entry.ofText? text = some (.method method) := ofText?_eq_method_iff.mpr read
  have noHeader := classLine?_of_methodLine? read
  have noField := fieldLine?_of_methodLine? read
  have failed : readClasses (line :: rest) = .error (refusal line) := by
    rw [readClasses]
    simp [present, noHeader, refusal]
  have taken := fun done (current : ClassMapping) =>
    loops.methods done (current.addMethod method.obfuscated method.descriptor method.original)
  constructor
  · simp [State.read, State.next, present, entry, State.accept, failed]
  · intro done current
    simpa [State.read, State.next, present, entry, State.accept, takeMethods, read] using
      taken done current
  · intro done current
    simpa [State.read, State.next, present, entry, State.accept, takeFields, noField,
      takeMethods, read, Except.bind] using taken done current

theorem loops_other {line : Line} {text : String} (present : line.text = some text)
    (noHeader : classLine? text = none) (noField : fieldLine? text = none)
    (noMethod : methodLine? text = none) (rest : List Line) : Loops (line :: rest) := by
  have stuck : ∀ state : State, state.next line = none := fun state => by
    simp [State.next, present, Entry.ofText?, noHeader, noField, noMethod]
  have failed : readClasses (line :: rest) = .error (refusal line) := by
    rw [readClasses]
    simp [present, noHeader, refusal]
  constructor <;>
    simp [State.read, stuck, failed, takeFields, takeMethods, present, noField, noMethod,
      Except.bind, Except.map]

theorem loops (lines : List Line) : Loops lines := by
  induction lines with
  | nil => exact loops_nil
  | cons line rest ih =>
      cases present : line.text with
      | none => exact loops_unreadable present rest
      | some text =>
          cases header : classLine? text with
          | some line => exact loops_header present header ih
          | none =>
              cases field : fieldLine? text with
              | some line => exact loops_field present field ih
              | none =>
                  cases method : methodLine? text with
                  | some line => exact loops_method present method ih
                  | none => exact loops_other present header field method rest

theorem read_eq_ok_iff {state : State} {lines : List Line} {classes : List ClassMapping} :
    state.read lines = .ok classes ↔
      ∃ last, lines.foldlM State.next state = some last ∧ last.classes = classes := by
  induction lines generalizing state with
  | nil => simp [State.read]
  | cons line rest ih =>
      cases taken : state.next line with
      | none => simp [State.read, taken]
      | some next => simpa [State.read, taken] using ih

theorem read_eq_error_iff {state : State} {lines : List Line} {fault : Fault} :
    state.read lines = .error fault ↔
      ∃ before line after middle, lines = before ++ line :: after ∧
        before.foldlM State.next state = some middle ∧ middle.next line = none ∧
        fault = refusal line := by
  induction lines generalizing state with
  | nil => simp [State.read]
  | cons line rest ih =>
      cases taken : state.next line with
      | none =>
          simp only [State.read, taken, Except.error.injEq]
          constructor
          · rintro rfl
            exact ⟨[], line, rest, state, rfl, rfl, taken, rfl⟩
          · rintro ⟨before, other, after, middle, split, accepted, stuck, rfl⟩
            cases before with
            | nil => rw [(List.cons.inj split).1]
            | cons first more =>
                rw [← (List.cons.inj split).1, List.foldlM_cons, taken] at accepted
                cases accepted
      | some next =>
          simp only [State.read, taken, ih]
          constructor
          · rintro ⟨before, other, after, middle, rfl, accepted, stuck, rfl⟩
            exact ⟨line :: before, other, after, middle, rfl, by simp [taken, accepted], stuck, rfl⟩
          · rintro ⟨before, other, after, middle, split, accepted, stuck, rfl⟩
            cases before with
            | nil =>
                cases accepted
                rw [← (List.cons.inj split).1, taken] at stuck
                cases stuck
            | cons first more =>
                obtain ⟨rfl, rfl⟩ := List.cons.inj split
                refine ⟨more, other, after, middle, rfl, ?_, stuck, rfl⟩
                simpa [taken] using accepted

end Machine

/-- The lines that count, with their numbers among all lines. -/
def relevant (bytes : List UInt8) : List Line := (Line.ofBytes bytes).filter isRelevant

theorem parse_eq_read (bytes : List UInt8) : parse bytes = State.start.read (relevant bytes) :=
  (loops _).start.symm

theorem isRelevant_eq_false_iff {line : Line} :
    isRelevant line = false ↔ line.text = some "" ∨ ∃ rest, line.text = some ("#" ++ rest) := by
  unfold isRelevant
  cases line.text with
  | none => simp
  | some text =>
      cases chars : text.toList with
      | nil =>
          have empty : text = "" := String.toList_inj.mp chars
          simp [empty]
      | cons first others =>
          have nonempty : text ≠ "" := by
            rintro rfl
            cases chars
          have commented : (∃ rest, text = "#" ++ rest) ↔ first = '#' := by
            constructor
            · rintro ⟨rest, rfl⟩
              have start := congrArg List.head? chars
              simpa [eq_comm] using start
            · rintro rfl
              exact ⟨String.ofList others, String.toList_inj.mp (by simp [chars])⟩
          simp [chars, nonempty, commented]

/-- Reading is the machine run over the lines of the file that are neither empty nor comments. It
ends well exactly if every such line is UTF-8 and accepted where it stands, and else fails at the
first line that is not. A line is of one kind at most, and lines are numbered from one whether they
count or not. -/
theorem parse_line_by_line (bytes : List UInt8) :
    ∃ lines, (∀ others, Line.Listed bytes others ↔ others = lines) ∧
      (∀ classes, parse bytes = .ok classes ↔
        ∃ last, (lines.filter isRelevant).foldlM State.next .start = some last ∧
          last.classes = classes) ∧
      (∀ fault, parse bytes = .error fault ↔
        ∃ before line after state, lines.filter isRelevant = before ++ line :: after ∧
          before.foldlM State.next .start = some state ∧ state.next line = none ∧
          fault = refusal line) ∧
      (∀ text,
        (∀ line, Entry.ofText? text = some (.header line) ↔ classLine? text = some line) ∧
        (∀ line, Entry.ofText? text = some (.field line) ↔ fieldLine? text = some line) ∧
        (∀ line, Entry.ofText? text = some (.method line) ↔ methodLine? text = some line)) ∧
      ∀ line, isRelevant line = false ↔
        line.text = some "" ∨ ∃ rest, line.text = some ("#" ++ rest) := by
  refine ⟨Line.ofBytes bytes, fun others => Line.listed_iff, ?_, ?_, ?_, ?_⟩
  · intro classes
    rw [parse_eq_read]
    exact read_eq_ok_iff
  · intro fault
    rw [parse_eq_read]
    exact read_eq_error_iff
  · intro text
    exact ⟨fun line => ofText?_eq_header_iff, fun line => ofText?_eq_field_iff,
      fun line => ofText?_eq_method_iff⟩
  · intro line
    exact isRelevant_eq_false_iff

def asciiBytes (text : String) : List UInt8 := text.toList.map fun char => UInt8.ofNat char.toNat

/-- A comment, an empty line with a carriage return, and the lines of a class, before others. -/
def sampleBytes (later : List UInt8) : List UInt8 :=
  asciiBytes "# c\n\r\na.B -> b:\n    int x -> y\n    void m() -> n\n" ++ later

def sampleLines (later : List Line) : List Line :=
  [⟨1, some "# c"⟩, ⟨2, some ""⟩, ⟨3, some "a.B -> b:"⟩, ⟨4, some "    int x -> y"⟩,
    ⟨5, some "    void m() -> n"⟩] ++ later

def sampleClass : ClassMapping where
  originalName := "a/B"
  obfuscatedName := "b"
  fields := .ofList [("y", "x")]
  methods := .ofList [(⟨"n", "()V"⟩, "m")]

/-- A field can not follow a method, and a byte that needs another can not end a line. -/
theorem parse_line_by_line_sample :
    (Line.Listed (sampleBytes []) (sampleLines []) ∧
      parse (sampleBytes []) = .ok [sampleClass]) ∧
    (Line.Listed (sampleBytes (asciiBytes "    int z -> w"))
        (sampleLines [⟨6, some "    int z -> w"⟩]) ∧
      parse (sampleBytes (asciiBytes "    int z -> w")) =
        .error (.malformed 6 (.unexpected "    int z -> w"))) ∧
    (Line.Listed (sampleBytes [0xC3, 0x0A, 0x78]) (sampleLines [⟨6, none⟩, ⟨7, some "x"⟩]) ∧
      parse (sampleBytes [0xC3, 0x0A, 0x78]) = .error (.unreadable 6)) := by
  have whole : Line.Listed (sampleBytes []) (sampleLines []) :=
    Line.listed_iff.mpr (by decide +kernel)
  have misplaced : Line.Listed (sampleBytes (asciiBytes "    int z -> w"))
      (sampleLines [⟨6, some "    int z -> w"⟩]) := Line.listed_iff.mpr (by decide +kernel)
  have broken : Line.Listed (sampleBytes [0xC3, 0x0A, 0x78])
      (sampleLines [⟨6, none⟩, ⟨7, some "x"⟩]) := Line.listed_iff.mpr (by decide +kernel)
  refine ⟨⟨whole, ?_⟩, ⟨misplaced, ?_⟩, broken, ?_⟩
  · obtain ⟨_, listed, ok, -⟩ := parse_line_by_line (sampleBytes [])
    obtain rfl := (listed _).mp whole
    exact (ok _).mpr ⟨.methods [] sampleClass, rfl, rfl⟩
  · obtain ⟨_, listed, -, error, -⟩ :=
      parse_line_by_line (sampleBytes (asciiBytes "    int z -> w"))
    obtain rfl := (listed _).mp misplaced
    exact (error _).mpr ⟨(sampleLines []).filter isRelevant, ⟨6, some "    int z -> w"⟩, [],
      .methods [] sampleClass, by decide +kernel, rfl, rfl, rfl⟩
  · obtain ⟨_, listed, -, error, -⟩ := parse_line_by_line (sampleBytes [0xC3, 0x0A, 0x78])
    obtain rfl := (listed _).mp broken
    exact (error _).mpr ⟨(sampleLines []).filter isRelevant, ⟨6, none⟩, [⟨7, some "x"⟩],
      .methods [] sampleClass, by decide +kernel, rfl, rfl, rfl⟩

end Deobfuscation.Mapping.Proguard
