import Deobfuscation.Proofs.ProguardReading
import Mathlib.Data.List.Nodup

/-!
The classes of a mapping file in the Proguard dialect as blocks: a class line with the member
lines behind it. What is read from a file are the mappings of its blocks, and a file that spells
blocks of well-formed lines is read.
-/

namespace Deobfuscation.Mapping.Proguard

open SourceType

/-- A class with its members, in the order of the file. -/
structure Block where
  header : ClassLine
  fields : List FieldLine
  methods : List MethodLine
  deriving DecidableEq, Repr

namespace Block

def fieldPairs (block : Block) : List (String × String) :=
  block.fields.map fun line => (line.obfuscated, line.original)

def methodPairs (block : Block) : List (MethodKey × String) :=
  block.methods.map fun line => (⟨line.obfuscated, line.descriptor⟩, line.original)

def mapping (block : Block) : ClassMapping :=
  { block.header.mapping with
    fields := .ofList block.fieldPairs
    methods := .ofList block.methodPairs }

/-- Blocks with one more line, the last block first. A member belongs to the class before it. -/
def add : List Block → Entry → List Block
  | blocks, .header line => ⟨line, [], []⟩ :: blocks
  | [], _ => []
  | block :: rest, .field line => { block with fields := block.fields ++ [line] } :: rest
  | block :: rest, .method line => { block with methods := block.methods ++ [line] } :: rest

def entries (block : Block) : List Entry :=
  .header block.header :: (block.fields.map .field ++ block.methods.map .method)

def WellFormed (block : Block) : Prop :=
  block.header.WellFormed ∧ (∀ line ∈ block.fields, line.WellFormed) ∧
    ∀ line ∈ block.methods, line.WellFormed

instance (block : Block) : Decidable block.WellFormed :=
  inferInstanceAs (Decidable (_ ∧ _ ∧ _))

theorem mapping_addField (block : Block) (line : FieldLine) :
    { block with fields := block.fields ++ [line] }.mapping =
      block.mapping.addField line.obfuscated line.original := by
  simp [mapping, fieldPairs, methodPairs, ClassMapping.addField, Table.ofList, List.foldl_append]

theorem mapping_addMethod (block : Block) (line : MethodLine) :
    { block with methods := block.methods ++ [line] }.mapping =
      block.mapping.addMethod line.obfuscated line.descriptor line.original := by
  simp [mapping, fieldPairs, methodPairs, ClassMapping.addMethod, Table.ofList, List.foldl_append]

/-- Obfuscated names can be told apart in internal form as well. -/
theorem nodup_internalName {table : List Block} (valid : ∀ block ∈ table, block.WellFormed)
    (distinct : (table.map fun block => block.header.obfuscated).Nodup) :
    (table.map fun block => internalName block.header.obfuscated).Nodup := by
  have slashless : ∀ block ∈ table, '/' ∉ block.header.obfuscated.toList := fun block inside =>
    not_mem_of_isIdentifier (valid block inside).1.2 (by decide)
  refine List.Nodup.map_on (fun first firstInside second secondInside same => ?_) distinct.of_map
  have equal :=
    internalName_injOn (slashless first firstInside) (slashless second secondInside) same
  exact List.inj_on_of_nodup_map distinct firstInside secondInside equal

end Block

/-- What a line says, if it is of one of the three kinds. -/
def entry? (line : Line) : Option Entry := line.text.bind Entry.ofText?

/-- The blocks of a file. -/
def blocks (bytes : List UInt8) : List Block :=
  (((relevant bytes).filterMap entry?).foldl Block.add []).reverse

section Reading

/-- The machine holds the mappings of the blocks so far, the last of which comes first. -/
inductive Tracks : State → List Block → Prop where
  | start : Tracks .start []
  | fields (block : Block) (rest : List Block) :
      Tracks (.fields (rest.reverse.map Block.mapping) block.mapping) (block :: rest)
  | methods (block : Block) (rest : List Block) :
      Tracks (.methods (rest.reverse.map Block.mapping) block.mapping) (block :: rest)

theorem Tracks.classes {state : State} {blocks : List Block} (tracks : Tracks state blocks) :
    state.classes = blocks.reverse.map Block.mapping := by
  cases tracks <;> simp [State.classes]

theorem Tracks.accept {state next : State} {blocks : List Block} (tracks : Tracks state blocks)
    {entry : Entry} (accepted : state.accept entry = some next) :
    Tracks next (Block.add blocks entry) := by
  cases entry with
  | header line =>
      cases accepted
      rw [tracks.classes]
      exact .fields ⟨line, [], []⟩ blocks
  | field line =>
      cases tracks with
      | start => cases accepted
      | fields block rest =>
          cases accepted
          rw [← Block.mapping_addField]
          exact .fields _ rest
      | methods block rest => cases accepted
  | method line =>
      cases tracks with
      | start => cases accepted
      | fields block rest =>
          cases accepted
          rw [← Block.mapping_addMethod]
          exact .methods _ rest
      | methods block rest =>
          cases accepted
          rw [← Block.mapping_addMethod]
          exact .methods _ rest

theorem Tracks.run {state last : State} {blocks : List Block} (tracks : Tracks state blocks)
    {lines : List Line} (run : lines.foldlM State.next state = some last) :
    Tracks last ((lines.filterMap entry?).foldl Block.add blocks) := by
  induction lines generalizing state blocks with
  | nil =>
      cases run
      exact tracks
  | cons line rest ih =>
      simp only [List.foldlM_cons, Option.bind_eq_bind, Option.bind_eq_some_iff] at run
      obtain ⟨next, taken, later⟩ := run
      obtain ⟨entry, read, accepted⟩ := Option.bind_eq_some_iff.mp taken
      have here : entry? line = some entry := read
      rw [List.filterMap_cons_some here, List.foldl_cons]
      exact ih (tracks.accept accepted) later

/-- What is read are the mappings of the blocks. -/
theorem classes_of_parse {bytes : List UInt8} {classes : List ClassMapping}
    (read : parse bytes = .ok classes) : classes = (blocks bytes).map Block.mapping := by
  rw [parse_eq_read, read_eq_ok_iff] at read
  obtain ⟨last, run, rfl⟩ := read
  exact (Tracks.start.run run).classes

def Entry.WellFormed : Entry → Prop
  | .header line => line.WellFormed
  | .field line => line.WellFormed
  | .method line => line.WellFormed

theorem Entry.wellFormed_of_ofText? {text : String} {entry : Entry}
    (read : Entry.ofText? text = some entry) : entry.WellFormed := by
  cases entry with
  | header line => exact (classLine?_eq_some_iff.mp (ofText?_eq_header_iff.mp read)).1
  | field line => exact (fieldLine?_eq_some_iff.mp (ofText?_eq_field_iff.mp read)).1
  | method line => exact (methodLine?_eq_some_iff.mp (ofText?_eq_method_iff.mp read)).1

theorem Block.wellFormed_add {blocks : List Block} (valid : ∀ block ∈ blocks, block.WellFormed)
    {entry : Entry} (read : entry.WellFormed) : ∀ block ∈ add blocks entry, block.WellFormed := by
  cases entry with
  | header line =>
      exact List.forall_mem_cons.mpr ⟨⟨read, by simp, by simp⟩, valid⟩
  | field line =>
      cases blocks with
      | nil => simp [add]
      | cons block rest =>
          obtain ⟨⟨header, fields, methods⟩, others⟩ := List.forall_mem_cons.mp valid
          have more : ∀ other ∈ block.fields ++ [line], other.WellFormed := by
            simpa [or_imp, forall_and] using ⟨fields, read⟩
          exact List.forall_mem_cons.mpr ⟨⟨header, more, methods⟩, others⟩
  | method line =>
      cases blocks with
      | nil => simp [add]
      | cons block rest =>
          obtain ⟨⟨header, fields, methods⟩, others⟩ := List.forall_mem_cons.mp valid
          have more : ∀ other ∈ block.methods ++ [line], other.WellFormed := by
            simpa [or_imp, forall_and] using ⟨methods, read⟩
          exact List.forall_mem_cons.mpr ⟨⟨header, fields, more⟩, others⟩

theorem wellFormed_blocks (bytes : List UInt8) : ∀ block ∈ blocks bytes, block.WellFormed := by
  have all : ∀ (lines : List Line) (held : List Block), (∀ block ∈ held, block.WellFormed) →
      ∀ block ∈ (lines.filterMap entry?).foldl Block.add held, block.WellFormed := by
    intro lines
    induction lines with
    | nil => exact fun held valid => valid
    | cons line rest ih =>
        intro held valid
        cases read : entry? line with
        | none =>
            rw [List.filterMap_cons_none read]
            exact ih held valid
        | some entry =>
            rw [List.filterMap_cons_some read]
            obtain ⟨text, -, known⟩ := Option.bind_eq_some_iff.mp read
            exact ih _ (Block.wellFormed_add valid (Entry.wellFormed_of_ofText? known))
  simpa [blocks] using all (relevant bytes) [] (by simp)

end Reading

section Writing

/-- The text is a line with this content. -/
def Entry.Spelled (text : String) : Entry → Prop
  | .header line => text.toList = line.spelling
  | .field line => text.toList = line.spelling
  | .method line => ∃ range, IsRange range ∧ text.toList = line.spelling range

theorem Entry.ofText?_of_spelled {text : String} {entry : Entry} (valid : entry.WellFormed)
    (spelled : entry.Spelled text) : Entry.ofText? text = some entry := by
  cases entry with
  | header line => exact ofText?_eq_header_iff.mpr (classLine?_eq_some_iff.mpr ⟨valid, spelled⟩)
  | field line => exact ofText?_eq_field_iff.mpr (fieldLine?_eq_some_iff.mpr ⟨valid, spelled⟩)
  | method line => exact ofText?_eq_method_iff.mpr (methodLine?_eq_some_iff.mpr ⟨valid, spelled⟩)

theorem Block.wellFormed_entries {block : Block} (valid : block.WellFormed) :
    ∀ entry ∈ block.entries, entry.WellFormed := by
  obtain ⟨header, fields, methods⟩ := valid
  intro entry member
  simp only [entries, List.mem_cons, List.mem_append, List.mem_map] at member
  rcases member with rfl | ⟨line, inside, rfl⟩ | ⟨line, inside, rfl⟩
  · exact header
  · exact fields line inside
  · exact methods line inside

theorem accept_fields (lines : List FieldLine) (done : List ClassMapping) (block : Block) :
    (lines.map Entry.field).foldlM State.accept (.fields done block.mapping) =
      some (.fields done { block with fields := block.fields ++ lines }.mapping) := by
  induction lines generalizing block with
  | nil => simp
  | cons line rest ih =>
      have later := ih { block with fields := block.fields ++ [line] }
      rw [Block.mapping_addField] at later
      simpa [State.accept] using later

theorem accept_methods (lines : List MethodLine) (done : List ClassMapping) (block : Block)
    {state : State}
    (taking : state = .fields done block.mapping ∨ state = .methods done block.mapping) :
    ∃ last, (lines.map Entry.method).foldlM State.accept state = some last ∧
      last.classes = done ++ [{ block with methods := block.methods ++ lines }.mapping] := by
  induction lines generalizing block state with
  | nil => rcases taking with rfl | rfl <;> simp [State.classes]
  | cons line rest ih =>
      have later := ih { block with methods := block.methods ++ [line] }
        (Or.inr rfl : State.methods done _ = _ ∨ _)
      rw [Block.mapping_addMethod] at later
      rcases taking with rfl | rfl <;> simpa [State.accept] using later

/-- A block is accepted in every state. -/
theorem accept_entries (block : Block) (state : State) :
    ∃ last, block.entries.foldlM State.accept state = some last ∧
      last.classes = state.classes ++ [block.mapping] := by
  have opened : state.accept (.header block.header) =
      some (.fields state.classes (Block.mapping ⟨block.header, [], []⟩)) := by
    cases state <;> rfl
  have fields := accept_fields block.fields state.classes ⟨block.header, [], []⟩
  obtain ⟨last, methods, classes⟩ := accept_methods block.methods state.classes
    ⟨block.header, block.fields, []⟩ (Or.inl rfl)
  refine ⟨last, ?_, classes⟩
  simp only [Block.entries, List.foldlM_cons, opened, Option.bind_eq_bind, Option.bind_some,
    List.foldlM_append, fields]
  exact methods

theorem accept_blocks (table : List Block) (state : State) :
    ∃ last, (table.flatMap Block.entries).foldlM State.accept state = some last ∧
      last.classes = state.classes ++ table.map Block.mapping := by
  induction table generalizing state with
  | nil => exact ⟨state, rfl, by simp⟩
  | cons block rest ih =>
      obtain ⟨middle, here, classes⟩ := accept_entries block state
      obtain ⟨last, later, others⟩ := ih middle
      exact ⟨last, by simp [List.foldlM_append, here, later], by simp [others, classes]⟩

/-- Neither empty lines nor comments are of one of the three kinds. -/
theorem isRelevant_of_ofText? {line : Line} {text : String} {entry : Entry}
    (present : line.text = some text) (read : Entry.ofText? text = some entry) :
    isRelevant line = true := by
  have indented : ∀ rest, text.toList = indent ++ rest → isRelevant line = true := by
    intro rest whole
    simp [isRelevant, present, whole, indent_eq]
  cases entry with
  | header line =>
      obtain ⟨⟨original, -⟩, whole⟩ := classLine?_eq_some_iff.mp (ofText?_eq_header_iff.mp read)
      have free : '#' ∉ line.original.toList := not_mem_of_isIdentifier original (by decide)
      obtain ⟨nonempty, -⟩ := isIdentifier_iff.mp original
      cases chars : line.original.toList with
      | nil => exact absurd chars nonempty
      | cons first others =>
          rw [chars, List.mem_cons, not_or] at free
          simp [isRelevant, present, whole, ClassLine.spelling, chars, Ne.symm free.1]
  | field line =>
      exact indented _ (fieldLine?_eq_some_iff.mp (ofText?_eq_field_iff.mp read)).2
  | method line =>
      obtain ⟨-, range, -, whole⟩ := methodLine?_eq_some_iff.mp (ofText?_eq_method_iff.mp read)
      exact indented _ whole

/-- The texts are lines with these contents, with empty lines and comments anywhere. -/
inductive Written : List String → List Entry → Prop where
  | nil : Written [] []
  | blank {texts : List String} {entries : List Entry} : Written texts entries →
      Written ("" :: texts) entries
  | comment {texts : List String} {entries : List Entry} (rest : String) : Written texts entries →
      Written (("#" ++ rest) :: texts) entries
  | entry {texts : List String} {entries : List Entry} {text : String} {entry : Entry} :
      entry.Spelled text → Written texts entries → Written (text :: texts) (entry :: entries)

theorem Written.foldlM_next {texts : List String} {entries : List Entry}
    (written : Written texts entries) (valid : ∀ entry ∈ entries, entry.WellFormed)
    {lines : List Line} (present : lines.map Line.text = texts.map some) (state : State) :
    (lines.filter isRelevant).foldlM State.next state = entries.foldlM State.accept state := by
  -- lines that do not count are passed by the filter, the others by the machine
  induction written generalizing lines state with
  | nil =>
      rw [List.map_eq_nil_iff.mp present]
      rfl
  | @blank texts entries _ ih =>
      obtain ⟨line, rest, rfl, here, later⟩ := List.map_eq_cons_iff.mp present
      have passed := isRelevant_eq_false_iff.mpr (Or.inl here)
      rw [List.filter_cons_of_neg (by simp [passed])]
      exact ih valid later state
  | @comment texts entries rest _ ih =>
      obtain ⟨line, others, rfl, here, later⟩ := List.map_eq_cons_iff.mp present
      have passed := isRelevant_eq_false_iff.mpr (Or.inr ⟨rest, here⟩)
      rw [List.filter_cons_of_neg (by simp [passed])]
      exact ih valid later state
  | @entry texts entries text entry spelled _ ih =>
      obtain ⟨line, rest, rfl, here, later⟩ := List.map_eq_cons_iff.mp present
      rw [List.forall_mem_cons] at valid
      have read := Entry.ofText?_of_spelled valid.1 spelled
      have step : state.next line = state.accept entry := by simp [State.next, here, read]
      rw [List.filter_cons_of_pos (isRelevant_of_ofText? here read)]
      simp only [List.foldlM_cons, step, ih valid.2 later]

/-- A file that spells well-formed blocks is read as the mappings of these. -/
theorem parse_of_written {bytes : List UInt8} {texts : List String} {table : List Block}
    (valid : ∀ block ∈ table, block.WellFormed)
    (present : (Line.ofBytes bytes).map Line.text = texts.map some)
    (written : Written texts (table.flatMap Block.entries)) :
    parse bytes = .ok (table.map Block.mapping) := by
  have validEntries : ∀ entry ∈ table.flatMap Block.entries, entry.WellFormed := by
    intro entry member
    obtain ⟨block, inside, listed⟩ := List.mem_flatMap.mp member
    exact Block.wellFormed_entries (valid block inside) entry listed
  obtain ⟨last, accepted, classes⟩ := accept_blocks table .start
  rw [parse_eq_read, read_eq_ok_iff]
  exact ⟨last, (written.foldlM_next validEntries present .start).trans accepted, classes⟩

end Writing

end Deobfuscation.Mapping.Proguard
