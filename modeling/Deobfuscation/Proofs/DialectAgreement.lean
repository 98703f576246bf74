import Deobfuscation.Proofs.SrgRows

/-!
One table of classes in both dialects. Written as blocks or as tagged lines, it is read as the same
mappings.
-/

namespace Deobfuscation.Mapping

open SourceType
open Proguard (ClassLine FieldLine MethodLine Block)

/-- The mapping holds the names of the class and the members of the block, of which later ones
replace earlier ones with the same key. -/
structure HeldBy (block : Block) (mapping : ClassMapping) : Prop where
  obfuscatedName : mapping.obfuscatedName = internalName block.header.obfuscated
  originalName : mapping.originalName = internalName block.header.original
  fields : mapping.fields.Recalls
    (block.fields.map fun line => (line.obfuscated, line.original))
  methods : mapping.methods.Recalls
    (block.methods.map fun line =>
      (⟨line.obfuscated, encodeMethodType line.returned line.arguments⟩, line.original))

theorem heldBy_mapping (block : Block) : HeldBy block block.mapping :=
  ⟨rfl, rfl, Table.recalls_ofList _, Table.recalls_ofList _⟩

/-- A table that is written in both dialects is read as the same mappings, and these hold its
entries. -/
theorem dialects_agree {table : List Block} (valid : ∀ block ∈ table, block.WellFormed)
    (distinct : (table.map fun block => block.header.obfuscated).Nodup)
    {blockBytes : List UInt8} {texts : List String} (blockLines : Line.Holds blockBytes texts)
    (written : Proguard.Written texts (table.flatMap Block.entries))
    {rowBytes : List UInt8} {rows : List Srg.Row}
    (rowLines : Line.Holds rowBytes (rows.map Srg.Row.text)) (lists : Srg.Lists rows table) :
    ∃ mappings, Proguard.parse blockBytes = .ok mappings ∧
      (Srg.parse rowBytes).2 = .ok mappings ∧ List.Forall₂ HeldBy table mappings := by
  refine ⟨table.map Block.mapping, Proguard.parse_of_written valid blockLines written,
    Srg.parse_of_lists rowLines lists valid distinct, ?_⟩
  rw [List.forall₂_map_right_iff, List.forall₂_same]
  exact fun block _ => heldBy_mapping block

theorem dialects_agree_of_class :
    ∃ mappings,
      Proguard.parse (Line.write ["# names", "com.A -> a:", "    int count -> b", "",
        "    3:4:void run(com.A,int[]) -> c"]) = .ok mappings ∧
      (Srg.parse (Line.write ["CL: a com/A", "MD: a/c (La;[I)V com/A/run (Lcom/A;[I)V",
        "FD: a/b com/A/count"])).2 = .ok mappings := by
  let owner : ClassLine := ⟨"com.A", "a"⟩
  let field : FieldLine := ⟨"int", "count", "b"⟩
  let method : MethodLine := ⟨"void", "run", ["com.A", "int[]"], "c"⟩
  let table : List Block := [⟨owner, [field], [method]⟩]
  let rows : List Srg.Row := [.declare owner, .method owner method "(La;[I)V", .field owner field]
  have texts : rows.map Srg.Row.text = ["CL: a com/A", "MD: a/c (La;[I)V com/A/run (Lcom/A;[I)V",
    "FD: a/b com/A/count"] := by decide
  have header : "com.A -> a:".toList = owner.spelling := by decide
  have count : "    int count -> b".toList = field.spelling := by decide
  have range : Proguard.IsRange ("3".toList ++ ':' :: ("4".toList ++ [':'])) :=
    .numbers (by decide) (by decide)
  have run : "    3:4:void run(com.A,int[]) -> c".toList =
      method.spelling ("3".toList ++ ':' :: ("4".toList ++ [':'])) := by decide
  have written : Proguard.Written (("#" ++ " names") :: ["com.A -> a:", "    int count -> b", "",
      "    3:4:void run(com.A,int[]) -> c"]) (table.flatMap Block.entries) :=
    .comment " names" (.entry header (.entry count (.blank (.entry ⟨_, range, run⟩ .nil))))
  have lists : Srg.Lists rows table := by
    refine ⟨by decide, by decide, by decide, fun before row after split kind => ?_, ?_⟩
    · cases before with
      | nil =>
          rw [← (List.cons.inj split).1] at kind
          cases kind
      | cons first more =>
          have owned : ∀ other ∈ rows, other.owner = owner := by decide
          have member : row ∈ rows := by simp [split]
          rw [owned row member, ← (List.cons.inj split).1]
          exact List.mem_cons_self
    · intro other line descriptor member
      have same : descriptor = "(La;[I)V" := by
        simp only [rows, List.mem_cons, Srg.Row.method.injEq, reduceCtorEq, List.not_mem_nil,
          or_false, false_or] at member
        exact member.2.2
      rw [same]
      decide
  have blockLines := Line.holds_write (by decide : ∀ text ∈ ("#" ++ " names") :: ["com.A -> a:",
    "    int count -> b", "", "    3:4:void run(com.A,int[]) -> c"], Line.OneLine text)
  have rowLines := Line.holds_write (by decide : ∀ text ∈ ["CL: a com/A",
    "MD: a/c (La;[I)V com/A/run (Lcom/A;[I)V", "FD: a/b com/A/count"], Line.OneLine text)
  rw [← texts] at rowLines
  obtain ⟨mappings, first, second, -⟩ :=
    dialects_agree (by decide) (by decide) blockLines written rowLines lists
  rw [texts] at second
  exact ⟨mappings, first, second⟩

end Deobfuscation.Mapping
