import Deobfuscation.Path
import Deobfuscation.Proofs.Cutting

/-!
Where classes are written. Two paths are the same if they have the same components, so a path is
seen through these. The components of an output path are those of the root and then one for each
part of the class name, so the path lies below the root and tells the name.
-/

namespace Deobfuscation.Path

open Text

section Parts

theorem parts_ne_nil (path : String) : parts path ≠ [] := by
  simp [parts, splitAll_ne_nil]

theorem parts_append (before after : String) :
    parts (before ++ "/" ++ after) = parts before ++ parts after := by
  have chars : (before ++ "/" ++ after).toList = before.toList ++ '/' :: after.toList := by
    simp
  rw [parts, chars, splitAll_append, List.map_append]
  rfl

theorem not_mem_of_mem_parts {path part : String} (member : part ∈ parts path) :
    '/' ∉ part.toList := by
  obtain ⟨piece, found, rfl⟩ := List.mem_map.mp member
  rw [String.toList_ofList]
  exact not_mem_of_mem_splitAll found

theorem intercalate_parts (path : String) : "/".intercalate (parts path) = path := by
  apply String.toList_injective
  have chars : ("/".intercalate (parts path)).toList =
      ['/'].intercalate ((parts path).map String.toList) := String.toList_intercalate
  rw [chars, parts, List.map_map]
  simp [Function.comp_def, intercalate_splitAll]

theorem parts_intercalate {pieces : List String} (present : pieces ≠ [])
    (free : ∀ part ∈ pieces, '/' ∉ part.toList) : parts ("/".intercalate pieces) = pieces := by
  have chars : ("/".intercalate pieces).toList =
      ['/'].intercalate (pieces.map String.toList) := String.toList_intercalate
  rw [parts, chars, splitAll_intercalate (by simpa using present)]
  · simp [Function.comp_def]
  · intro piece member
    obtain ⟨part, inside, rfl⟩ := List.mem_map.mp member
    exact free part inside

theorem parts_of_not_mem {part : String} (free : '/' ∉ part.toList) : parts part = [part] := by
  have single := parts_intercalate (List.cons_ne_nil part []) (by simpa using free)
  simpa using single

end Parts

section Components

theorem isName_iff {part : String} :
    isName part = true ↔ part ≠ "" ∧ part ≠ "." ∧ part ≠ ".." := by
  simp [isName, and_assoc]

theorem component?_of_isName {part : String} (valid : isName part = true) :
    component? part = some (.name part) := by
  obtain ⟨full, notHere, notUp⟩ := isName_iff.mp valid
  simp [component?, full, notHere, notUp]

theorem startOf_of_isName {part : String} (valid : isName part = true) :
    startOf part = [.name part] := by
  obtain ⟨full, notHere, -⟩ := isName_iff.mp valid
  simp [startOf, full, notHere, component?_of_isName valid]

theorem ofParts_append (front : List String) {names : List String}
    (valid : ∀ part ∈ names, isName part = true) :
    ofParts (front ++ names) = ofParts front ++ names.map .name := by
  have rest : ∀ more : List String, (∀ part ∈ more, isName part = true) →
      more.filterMap component? = more.map .name := by
    intro more each
    rw [← List.filterMap_eq_map]
    exact List.filterMap_congr fun part member => component?_of_isName (each part member)
  cases front with
  | cons start others =>
      rw [List.cons_append, ofParts, ofParts, List.filterMap_append, rest names valid,
        List.append_assoc]
  | nil =>
      cases names with
      | nil => rfl
      | cons first more =>
          obtain ⟨here, others⟩ := List.forall_mem_cons.mp valid
          have all : ofParts (first :: more) = startOf first ++ more.filterMap component? := rfl
          rw [List.nil_append, all, startOf_of_isName here, rest more others]
          rfl

/-- Behind the start, some parts stand for nothing. -/
theorem ofParts_concat {front : List String} {part : String} (present : front ≠ [])
    (nothing : component? part = none) : ofParts (front ++ [part]) = ofParts front := by
  obtain ⟨start, others, rfl⟩ := List.exists_cons_of_ne_nil present
  rw [List.cons_append, ofParts, ofParts, List.filterMap_append]
  simp [nothing]

/-- Only such parts are taken off the end of a path. -/
theorem ofParts_trim (reversed : List String) :
    ofParts (trim reversed).reverse = ofParts reversed.reverse := by
  fun_induction trim reversed with
  | case1 => rfl
  | case2 start => rfl
  | case3 part next rest nothing ih =>
      have taken : component? part = none := if_pos (by simpa using nothing)
      have behind : (part :: next :: rest).reverse = (next :: rest).reverse ++ [part] :=
        List.reverse_cons
      rw [ih, behind]
      exact (ofParts_concat (by simp) taken).symm
  | case4 part next rest something => rfl

/-- A path that is put together has the components of its parts, unless nothing is put together
but an empty part. -/
theorem components_intercalate {pieces : List String} (full : pieces ≠ [""])
    (free : ∀ part ∈ pieces, '/' ∉ part.toList) :
    components ("/".intercalate pieces) = ofParts pieces := by
  cases pieces with
  | nil => rfl
  | cons first rest =>
      have same := parts_intercalate (List.cons_ne_nil first rest) free
      have present : "/".intercalate (first :: rest) ≠ "" := by
        intro empty
        rw [empty] at same
        exact full same.symm
      rw [components, if_neg present, same]

def ofTrimmed (reversed : List String) : String :=
  match trim reversed with
  | [""] => "/"
  | kept => "/".intercalate kept.reverse

theorem mem_of_mem_trim {part : String} {reversed : List String} (member : part ∈ trim reversed) :
    part ∈ reversed := by
  fun_induction trim reversed with
  | case1 => exact member
  | case2 start => exact member
  | case3 first next rest nothing ih => exact List.mem_cons_of_mem first (ih member)
  | case4 first next rest something => exact member

theorem components_ofTrimmed {reversed : List String}
    (free : ∀ part ∈ reversed, '/' ∉ part.toList) :
    components (ofTrimmed reversed) = ofParts reversed.reverse := by
  rw [← ofParts_trim]
  unfold ofTrimmed
  split
  · rename_i root
    rw [root]
    decide
  · rename_i kept other
    apply components_intercalate
    · intro single
      exact other (List.reverse_eq_iff.mp single)
    · intro part member
      exact free part (mem_of_mem_trim (List.mem_reverse.mp member))

/-- The path without its last part, which is a name. -/
theorem parent_eq {path last : String} {front : List String} (valid : isName last = true)
    (split : parts path = front ++ [last]) : parent path = ofTrimmed front.reverse := by
  have kept : trim (last :: front.reverse) = last :: front.reverse := by
    obtain ⟨full, notHere, -⟩ := isName_iff.mp valid
    cases front.reverse with
    | nil => rfl
    | cons next rest => simp [trim, full, notHere]
  rw [parent, split, List.reverse_append, List.reverse_singleton, List.singleton_append, kept]
  rfl

end Components

section Joining

theorem parts_join (root name : String) : ∃ front,
    parts (join root name) = front ++ parts name ∧ ofParts front = components root := by
  by_cases empty : root = ""
  · subst empty
    exact ⟨[], by simp [join], rfl⟩
  · by_cases closed : root.toList.getLast? = some '/'
    -- the mark at the end of the root leaves an empty part, which joining fills
    · obtain ⟨chars, ending⟩ := List.getLast?_eq_some_iff.mp closed
      have whole : root = String.ofList chars ++ "/" := by
        apply String.toList_injective
        simp [ending]
      have joined : join root name = String.ofList chars ++ "/" ++ name := by
        rw [join, closed, ← whole]
        simp
      have rootParts : parts root = parts (String.ofList chars) ++ [""] := by
        have same := parts_append (String.ofList chars) ""
        rwa [String.append_empty, ← whole] at same
      refine ⟨parts (String.ofList chars), by rw [joined, parts_append], ?_⟩
      rw [components, if_neg empty, rootParts]
      exact (ofParts_concat (parts_ne_nil _) (by decide)).symm
    · have joined : join root name = root ++ "/" ++ name := by
        simp [join, empty, closed]
      exact ⟨parts root, by rw [joined, parts_append], by rw [components, if_neg empty]⟩

variable {root name : String}

theorem ne_empty_of_isName (valid : ∀ part ∈ parts name, isName part = true) : name ≠ "" := by
  rintro rfl
  have named := valid "" (List.mem_singleton_self "")
  exact (isName_iff.mp named).1 rfl

theorem components_of_isName (valid : ∀ part ∈ parts name, isName part = true) :
    components name = (parts name).map .name := by
  have whole := ofParts_append [] valid
  rw [List.nil_append] at whole
  rw [components, if_neg (ne_empty_of_isName valid), whole]
  rfl

theorem components_join (valid : ∀ part ∈ parts name, isName part = true) :
    components (join root name) = components root ++ (parts name).map .name := by
  obtain ⟨front, joined, same⟩ := parts_join root name
  have full : join root name ≠ "" := by
    intro empty
    obtain ⟨part, more, split⟩ := List.exists_cons_of_ne_nil (parts_ne_nil name)
    have present : part ∈ parts (join root name) := by simp [joined, split]
    rw [empty] at present
    have nothing : part = "" := List.mem_singleton.mp present
    have named := valid part (by simp [split])
    exact (isName_iff.mp named).1 nothing
  rw [components, if_neg full, joined, ofParts_append front valid, same]

theorem components_parent_join {folders : List String} {last : String}
    (split : parts name = folders ++ [last]) (valid : ∀ part ∈ parts name, isName part = true) :
    components (parent (join root name)) = components root ++ folders.map .name := by
  obtain ⟨front, joined, same⟩ := parts_join root name
  rw [split] at joined valid
  rw [parent_eq (valid last (by simp)) (joined.trans (List.append_assoc ..).symm)]
  rw [components_ofTrimmed, List.reverse_reverse, ofParts_append, same]
  · intro part member
    exact valid part (List.mem_append_left _ member)
  · intro part member
    have inside : part ∈ parts (join root name) := by
      rw [joined, ← List.append_assoc]
      exact List.mem_append_left _ (List.mem_reverse.mp member)
    exact not_mem_of_mem_parts inside

end Joining

/-- The path goes on from the root, and only into names. -/
def LiesBelow (path root : String) : Prop :=
  ∃ names : List String, names ≠ [] ∧ components path = components root ++ names.map .name

section Placing

variable {output name path : String}

/-- The components of a name that passes the first check are names, so the second one refuses
nothing. The name of the file is the last part. -/
theorem classFile_eq (output name : String) :
    classFile output name =
      if (parts name).all isName then
        .ok (join (parent (join output name)) ((parts name).getLastD "" ++ ".class"))
      else .error { cause := .unusablePath name } := by
  unfold classFile
  by_cases valid : (parts name).all isName = true
  · have each := List.all_eq_true.mp valid
    have names := components_of_isName each
    have second : (components name).all Component.isName = true := by
      simp [names, Component.isName]
    have file : fileName? (join output name) = some ((parts name).getLastD "") := by
      obtain ⟨folders, last, split⟩ :=
        (List.eq_nil_or_concat' (parts name)).resolve_left (parts_ne_nil name)
      simp [fileName?, components_join each, split]
    simp [valid, second, file, setFileName]
  · simp [valid]

theorem classFile_eq_ok (placed : classFile output name = .ok path) :
    (∀ part ∈ parts name, isName part = true) ∧
      path = join (parent (join output name)) ((parts name).getLastD "" ++ ".class") := by
  rw [classFile_eq] at placed
  split at placed
  · rename_i valid
    exact ⟨List.all_eq_true.mp valid, (Except.ok.inj placed).symm⟩
  · cases placed

theorem isName_classFile (last : String) : isName (last ++ ".class") = true := by
  -- the ending alone is longer than the parts that are no names
  have long : ∀ short : String, short.length < 6 → last ++ ".class" ≠ short := by
    rintro _ few rfl
    rw [String.length_append] at few
    exact absurd few (Nat.not_lt.mpr (Nat.le_add_left 6 _))
  exact isName_iff.mpr ⟨long "" (by decide), long "." (by decide), long ".." (by decide)⟩

theorem components_classFile (placed : classFile output name = .ok path) :
    ∃ folders last, parts name = folders ++ [last] ∧
      components path = components output ++ (folders ++ [last ++ ".class"]).map .name := by
  obtain ⟨valid, whole⟩ := classFile_eq_ok placed
  obtain ⟨folders, last, split⟩ :=
    (List.eq_nil_or_concat' (parts name)).resolve_left (parts_ne_nil name)
  refine ⟨folders, last, split, ?_⟩
  have free : '/' ∉ (last ++ ".class").toList := by
    have lastFree : '/' ∉ last.toList := not_mem_of_mem_parts (by rw [split]; simp)
    simpa using lastFree
  have single := parts_of_not_mem free
  have ending : (parts name).getLastD "" = last := by simp [split]
  rw [whole, ending, components_join, components_parent_join split valid, single]
  · simp
  · rw [single]
    simpa using isName_classFile last

/-- Names that are placed at the same components are the same. -/
theorem eq_of_components_eq {other otherPath : String} (placed : classFile output name = .ok path)
    (otherPlaced : classFile output other = .ok otherPath)
    (same : components path = components otherPath) : name = other := by
  obtain ⟨folders, last, split, whole⟩ := components_classFile placed
  obtain ⟨otherFolders, otherLast, otherSplit, otherWhole⟩ := components_classFile otherPlaced
  rw [whole, otherWhole] at same
  have injective : Function.Injective (List.map Component.name) :=
    List.map_injective_iff.mpr fun _ _ equal => Component.name.inj equal
  obtain ⟨sameFolders, sameFile⟩ :=
    List.append_singleton_inj.mp (injective (List.append_cancel_left same))
  have sameLast : last = otherLast := (String.append_left_inj ".class").mp sameFile
  rw [← intercalate_parts name, ← intercalate_parts other, split, otherSplit, sameFolders, sameLast]

end Placing

/-- A class name is placed if and only if all its parts are names. Then the path goes on from the
root into just these parts, with the ending behind the last one, and no other name leads to it. -/
theorem classFile_placed (output : String) :
    (∀ name, (∃ path, classFile output name = .ok path) ↔
      ∀ part ∈ parts name, part ≠ "" ∧ part ≠ "." ∧ part ≠ "..") ∧
    (∀ name path, classFile output name = .ok path → LiesBelow path output ∧
      ∃ folders last, parts name = folders ++ [last] ∧
        components path = components output ++ (folders ++ [last ++ ".class"]).map .name) ∧
    ∀ name other path otherPath, classFile output name = .ok path →
      classFile output other = .ok otherPath → name ≠ other →
        components path ≠ components otherPath := by
  refine ⟨?_, ?_, ?_⟩
  · intro name
    simp only [← isName_iff]
    constructor
    · rintro ⟨path, placed⟩
      exact (classFile_eq_ok placed).1
    · intro valid
      exact ⟨_, (classFile_eq output name).trans (if_pos (List.all_eq_true.mpr valid))⟩
  · intro name path placed
    obtain ⟨folders, last, split, whole⟩ := components_classFile placed
    exact ⟨⟨_, by simp, whole⟩, folders, last, split, whole⟩
  · intro name other path otherPath placed otherPlaced different same
    exact different (eq_of_components_eq placed otherPlaced same)

/-- The root ends in a part that stands for nothing, and one name is the other with the ending. -/
theorem classFile_placed_dotted : ∃ path other,
    classFile "./out/." "b" = .ok path ∧ classFile "./out/." "b.class" = .ok other ∧
      components path = [.here, .name "out", .name "b.class"] ∧
      LiesBelow path "./out/." ∧ components path ≠ components other := by
  have first : classFile "./out/." "b" = .ok "./out/b.class" := by decide +kernel
  have second : classFile "./out/." "b.class" = .ok "./out/b.class.class" := by decide +kernel
  obtain ⟨-, below, apart⟩ := classFile_placed "./out/."
  exact ⟨_, _, first, second, by decide +kernel, (below _ _ first).1,
    apart _ _ _ _ first second (by decide)⟩

end Deobfuscation.Path
