import Deobfuscation.Proofs.LineReading
import Deobfuscation.Proofs.SrgMeaning
import Mathlib.Data.List.Forall2

/-!
Reading a file of tagged lines. The reader stops at the first line with a fault and else has taken
in every line, so what it returns is the meaning of the lines as a whole.
-/

namespace Deobfuscation.Mapping.Srg

variable {texts : List String} {classes : Table String ClassMapping}

theorem run_eq_ok_iff {progress : Progress} {first : Nat} :
    (∃ final, progress.run (Line.numbered first texts) = (final, none) ∧ final.classes = classes) ↔
      texts.foldlM advance progress.classes = .ok classes := by
  induction texts generalizing progress first with
  | nil => simp [Line.numbered, Progress.run, pure, Except.pure]
  | cons text rest ih =>
      have step := classes_step progress first text
      rw [Line.numbered_cons, Progress.run, List.foldlM_cons, ← step]
      cases taken : progress.step first text with
      | error fault => simp [taken, Except.map, bind, Except.bind]
      | ok next => simpa [taken, Except.map, bind, Except.bind] using ih

theorem run_eq_error_iff {progress : Progress} {first : Nat} {fault : Fault} :
    (∃ final, progress.run (Line.numbered first texts) = (final, some fault)) ↔
      ∃ before text after middle lineFault, texts = before ++ text :: after ∧
        before.foldlM advance progress.classes = .ok middle ∧
        advance middle text = .error lineFault ∧
        fault = .malformed (first + before.length) lineFault := by
  induction texts generalizing progress first with
  | nil => simp [Line.numbered, Progress.run]
  | cons text rest ih =>
      have step := classes_step progress first text
      rw [Line.numbered_cons, Progress.run]
      cases taken : progress.step first text with
      | error failure =>
          rw [taken] at step
          simp only [taken]
          constructor
          · rintro ⟨final, same⟩
            cases same
            exact ⟨[], text, rest, progress.classes, failure, rfl, rfl, step.symm, rfl⟩
          · rintro ⟨before, other, after, middle, lineFault, split, folded, failed, rfl⟩
            cases before with
            | nil =>
                obtain ⟨rfl, rfl⟩ := List.cons.inj split
                cases folded
                rw [← step] at failed
                cases failed
                exact ⟨progress, rfl⟩
            | cons head more =>
                rw [← (List.cons.inj split).1, List.foldlM_cons, ← step] at folded
                cases folded
      | ok next =>
          rw [taken] at step
          simp only [taken, ih]
          constructor
          · rintro ⟨before, other, after, middle, lineFault, rfl, folded, failed, rfl⟩
            refine ⟨text :: before, other, after, middle, lineFault, rfl, ?_, failed, ?_⟩
            · rw [List.foldlM_cons, ← step]
              exact folded
            · rw [List.length_cons, Nat.add_right_comm, Nat.add_assoc]
          · rintro ⟨before, other, after, middle, lineFault, split, folded, failed, rfl⟩
            cases before with
            | nil =>
                cases folded
                rw [← (List.cons.inj split).1, ← step] at failed
                cases failed
            | cons head more =>
                obtain ⟨rfl, rfl⟩ := List.cons.inj split
                rw [List.foldlM_cons, ← step] at folded
                refine ⟨more, other, after, middle, lineFault, rfl, folded, failed, ?_⟩
                rw [List.length_cons, Nat.add_right_comm, Nat.add_assoc]

theorem parse_eq_ok_iff {bytes : List UInt8} (holds : Line.Holds bytes texts)
    {mappings : List ClassMapping} :
    (parse bytes).2 = .ok mappings ↔
      ∃ classes, texts.foldlM advance .empty = .ok classes ∧ classes.values = mappings := by
  have run : ∀ classes, (∃ final, Progress.run {} (Line.numbered 1 texts) = (final, none) ∧
      final.classes = classes) ↔ texts.foldlM advance .empty = .ok classes :=
    fun classes => run_eq_ok_iff
  simp only [← run]
  unfold parse
  rw [holds.ofBytes_eq]
  rcases Progress.run {} (Line.numbered 1 texts) with ⟨final, fault | fault⟩ <;> simp

theorem parse_eq_error_iff {bytes : List UInt8} (holds : Line.Holds bytes texts) {fault : Fault} :
    (parse bytes).2 = .error fault ↔
      ∃ before text after classes lineFault, texts = before ++ text :: after ∧
        before.foldlM advance .empty = .ok classes ∧ advance classes text = .error lineFault ∧
        fault = .malformed (1 + before.length) lineFault := by
  refine Iff.trans ?_ (@run_eq_error_iff texts {} 1 fault)
  unfold parse
  rw [holds.ofBytes_eq]
  rcases Progress.run {} (Line.numbered 1 texts) with ⟨final, fault | fault⟩ <;> simp

theorem fold_concat_eq_ok_iff {text : String} :
    (texts ++ [text]).foldlM advance .empty = .ok classes ↔
      ∃ middle, texts.foldlM advance .empty = .ok middle ∧ advance middle text = .ok classes := by
  rw [List.foldlM_append]
  simp only [List.foldlM_cons, List.foldlM_nil, bind_pure]
  cases texts.foldlM advance .empty <;> simp [bind, Except.bind]

theorem meaning_of_fold (folded : texts.foldlM advance .empty = .ok classes) :
    Meaning texts classes := by
  induction texts using List.reverseRecOn generalizing classes with
  | nil =>
      cases folded
      exact ⟨rfl, fun found => by cases found⟩
  | append_singleton front text ih =>
      obtain ⟨middle, before, taken⟩ := fold_concat_eq_ok_iff.mp folded
      exact (ih before).advance taken

theorem faultless_concat {text : String} :
    Faultless (texts ++ [text]) ↔ Faultless texts ∧ ∀ fault, ¬ Faulty texts text fault := by
  constructor
  · intro faultless
    refine ⟨fun before other after split => ?_, faultless texts text [] rfl⟩
    exact faultless before other (after ++ [text]) (by simp [split])
  · rintro ⟨faultless, last⟩ before other after split
    cases after using List.reverseRecOn with
    | nil =>
        obtain ⟨rfl, same⟩ := List.append_inj' split rfl
        rw [← (List.cons.inj same).1]
        exact last
    | append_singleton more final =>
        rw [← List.cons_append, ← List.append_assoc] at split
        exact faultless before other more (List.append_inj' split rfl).1

/-- The lines are without fault exactly if the reader comes to their end. -/
theorem faultless_iff : Faultless texts ↔ ∃ classes, texts.foldlM advance .empty = .ok classes := by
  induction texts using List.reverseRecOn with
  | nil =>
      refine ⟨fun _ => ⟨Table.empty, rfl⟩, fun _ before text after split => ?_⟩
      simp at split
  | append_singleton front text ih =>
      -- whether the last line is faulty is decided by the classes that the others left
      rw [faultless_concat, ih]
      simp only [fold_concat_eq_ok_iff]
      constructor
      · rintro ⟨⟨middle, folded⟩, faultless⟩
        cases taken : advance middle text with
        | error fault =>
            have faulty := (advance_eq_error_iff (meaning_of_fold folded)).mp taken
            exact absurd faulty (faultless fault)
        | ok classes => exact ⟨classes, middle, folded, taken⟩
      · rintro ⟨classes, middle, folded, taken⟩
        refine ⟨⟨middle, folded⟩, fun fault faulty => ?_⟩
        rw [(advance_eq_error_iff (meaning_of_fold folded)).mpr faulty] at taken
        cases taken

theorem Meaning.forall₂ (meaning : Meaning texts classes) :
    List.Forall₂ (Describes texts) ((declarations texts).map Prod.fst).eraseDups
      classes.values := by
  rw [← meaning.keys, Table.keys, Table.values, List.forall₂_map_left_iff,
    List.forall₂_map_right_iff, List.forall₂_same]
  intro entry member
  exact meaning.described (classes.get?_eq_some_iff.mpr member)

theorem fold_filter (classes : Table String ClassMapping) :
    (texts.filter fun text => ¬ Untagged text).foldlM advance classes =
      texts.foldlM advance classes := by
  induction texts generalizing classes with
  | nil => rfl
  | cons text rest ih =>
      by_cases untagged : Untagged text
      · rw [List.filter_cons_of_neg (by simpa using untagged), List.foldlM_cons,
          advance_of_untagged untagged, ih]
        rfl
      · rw [List.filter_cons_of_pos (by simpa using untagged), List.foldlM_cons, List.foldlM_cons]
        simp only [ih]

theorem Meaning.entries_ofClasses (meaning : Meaning texts classes) :
    (Mappings.ofClasses classes.values).classes.entries =
      classes.values.map fun mapping => (mapping.obfuscatedName, mapping) := by
  have keyed : (classes.values.map fun mapping => (mapping.obfuscatedName, mapping)) =
      classes.entries := by
    rw [Table.values, List.map_map]
    conv_rhs => rw [← List.map_id classes.entries]
    refine List.map_congr_left fun entry member => ?_
    have described := meaning.described (classes.get?_eq_some_iff.mpr member)
    exact Prod.ext described.obfuscatedName rfl
  rw [Mappings.ofClasses, keyed, Table.entries_ofList classes.distinct]

theorem parse_eq_ok_iff_described {bytes : List UInt8} (holds : Line.Holds bytes texts)
    {mappings : List ClassMapping} :
    (parse bytes).2 = .ok mappings ↔
      Faultless texts ∧
        List.Forall₂ (Describes texts) ((declarations texts).map Prod.fst).eraseDups mappings := by
  rw [parse_eq_ok_iff holds, faultless_iff]
  constructor
  · rintro ⟨classes, folded, rfl⟩
    exact ⟨⟨classes, folded⟩, (meaning_of_fold folded).forall₂⟩
  · rintro ⟨⟨classes, folded⟩, described⟩
    refine ⟨classes, folded, ?_⟩
    -- the lines leave no choice: a name has one mapping that they describe
    have unique : Relator.RightUnique (Describes texts) := fun _ _ _ left right => left.unique right
    exact List.right_unique_forall₂' unique (meaning_of_fold folded).forall₂ described

theorem parse_eq_error_iff_faulty {bytes : List UInt8} (holds : Line.Holds bytes texts)
    {fault : Fault} :
    (parse bytes).2 = .error fault ↔
      ∃ before text after lineFault, texts = before ++ text :: after ∧ Faultless before ∧
        Faulty before text lineFault ∧ fault = .malformed (before.length + 1) lineFault := by
  rw [parse_eq_error_iff holds]
  constructor
  · rintro ⟨before, text, after, classes, lineFault, split, folded, failed, rfl⟩
    have faulty := (advance_eq_error_iff (meaning_of_fold folded)).mp failed
    exact ⟨before, text, after, lineFault, split, faultless_iff.mpr ⟨classes, folded⟩, faulty,
      by rw [Nat.add_comm]⟩
  · rintro ⟨before, text, after, lineFault, split, faultless, faulty, rfl⟩
    obtain ⟨classes, folded⟩ := faultless_iff.mp faultless
    have failed := (advance_eq_error_iff (meaning_of_fold folded)).mpr faulty
    exact ⟨before, text, after, classes, lineFault, split, folded, failed, by rw [Nat.add_comm]⟩

/-- Reading is the meaning of the lines. It fails exactly if a line is faulty behind the lines
before it, and then at the first such line. Else the classes stand in the order of their first
declarations, each with what its last declaration and the lines behind that say. Other lines have
no effect, and no class is lost where the classes are keyed by their names. -/
theorem parse_meaning {bytes : List UInt8} (holds : Line.Holds bytes texts) :
    ((∃ fault, (parse bytes).2 = .error fault) ↔
      ∃ before text after fault, texts = before ++ text :: after ∧ Faulty before text fault) ∧
    (∀ fault, (parse bytes).2 = .error fault ↔
      ∃ before text after lineFault, texts = before ++ text :: after ∧ Faultless before ∧
        Faulty before text lineFault ∧ fault = .malformed (before.length + 1) lineFault) ∧
    (∀ mappings, (parse bytes).2 = .ok mappings ↔
      Faultless texts ∧
        List.Forall₂ (Describes texts) ((declarations texts).map Prod.fst).eraseDups mappings) ∧
    (∀ other, Line.Holds other (texts.filter fun text => ¬ Untagged text) →
      ∀ mappings, (parse bytes).2 = .ok mappings ↔ (parse other).2 = .ok mappings) ∧
    (∀ mappings, (parse bytes).2 = .ok mappings →
      (Mappings.ofClasses mappings).classes.entries =
        mappings.map fun mapping => (mapping.obfuscatedName, mapping)) := by
  refine ⟨?_, fun fault => parse_eq_error_iff_faulty holds,
    fun mappings => parse_eq_ok_iff_described holds, fun other rest mappings => ?_,
    fun mappings read => ?_⟩
  · constructor
    · rintro ⟨fault, failed⟩
      obtain ⟨before, text, after, lineFault, split, -, faulty, -⟩ :=
        (parse_eq_error_iff_faulty holds).mp failed
      exact ⟨before, text, after, lineFault, split, faulty⟩
    · rintro ⟨before, text, after, lineFault, split, faulty⟩
      cases read : (parse bytes).2 with
      | error fault => exact ⟨fault, rfl⟩
      | ok mappings =>
          have faultless := ((parse_eq_ok_iff_described holds).mp read).1
          exact absurd faulty (faultless before text after split lineFault)
  · rw [parse_eq_ok_iff holds, parse_eq_ok_iff rest, fold_filter]
  · obtain ⟨classes, folded, rfl⟩ := (parse_eq_ok_iff holds).mp read
    exact (meaning_of_fold folded).entries_ofClasses

theorem parse_meaning_of_mismatch :
    Line.Holds (Line.write ["CL: a A", "FD: a/b B/c"]) ["CL: a A", "FD: a/b B/c"] ∧
      (parse (Line.write ["CL: a A", "FD: a/b B/c"])).2 =
        .error (.malformed 2 (.ownerMismatch "A" "B")) := by
  have holds := Line.holds_write
    (by decide : ∀ text ∈ ["CL: a A", "FD: a/b B/c"], Line.OneLine text)
  have faultless : Faultless ["CL: a A"] := faultless_iff.mpr ⟨_, rfl⟩
  have misplaced : Misplaced ["CL: a A"] ("a" ++ "/" ++ "b") ("B" ++ "/" ++ "c")
      (.ownerMismatch "A" "B") := .ownerMismatch (by decide) (by decide) (by decide) (by decide)
  exact ⟨holds, ((parse_meaning holds).2.1 _).mpr
    ⟨["CL: a A"], "FD: a/b B/c", [], _, rfl, faultless, .member (by decide) misplaced, rfl⟩⟩

end Deobfuscation.Mapping.Srg
