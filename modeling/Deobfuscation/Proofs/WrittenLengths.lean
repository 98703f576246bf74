import Deobfuscation.Proofs.Normalising

/-!
Lengths before and after writing. A length is added up in 32 bits, and the sum is given up once it
has more. It comes out as the number of bytes that are written, if this number has 32 bits. So the
length item of every attribute, however deep it is nested, tells how many bytes stand behind it.
-/

namespace Deobfuscation

namespace Word

/-- The number as a word of 32 bits, if it has no more. -/
def ofNat? (number : Nat) : Option UInt32 :=
  if number < 2 ^ 32 then some (UInt32.ofNat number) else none

def add? (first second : Option UInt32) : Option UInt32 := do
  let first ← first
  let second ← second
  ofNat? (first.toNat + second.toNat)

/-- Adds one size after the other to what stands before them. -/
def sum? (start : Nat) (sizes : List (Option UInt32)) : Option UInt32 :=
  sizes.foldl add? (ofNat? start)

theorem ofNat?_of_lt {number : Nat} (short : number < 2 ^ 32) :
    ofNat? number = some (UInt32.ofNat number) := if_pos short

theorem ofNat?_of_le {number : Nat} (long : 2 ^ 32 ≤ number) : ofNat? number = none :=
  if_neg (Nat.not_lt.mpr long)

/-- A sum that has 32 bits has only parts that do. -/
@[simp] theorem add?_ofNat? (first second : Nat) :
    add? (ofNat? first) (ofNat? second) = ofNat? (first + second) := by
  rcases Nat.lt_or_ge first (2 ^ 32) with firstShort | firstLong
  · rw [ofNat?_of_lt firstShort]
    rcases Nat.lt_or_ge second (2 ^ 32) with secondShort | secondLong
    · rw [ofNat?_of_lt secondShort]
      change ofNat? ((UInt32.ofNat first).toNat + (UInt32.ofNat second).toNat) = _
      rw [UInt32.toNat_ofNat', UInt32.toNat_ofNat', Nat.mod_eq_of_lt firstShort,
        Nat.mod_eq_of_lt secondShort]
    · rw [ofNat?_of_le secondLong, ofNat?_of_le (Nat.le_add_left_of_le secondLong)]
      rfl
  · rw [ofNat?_of_le firstLong, ofNat?_of_le (Nat.le_add_right_of_le firstLong)]
    rfl

@[simp] theorem sum?_nil (start : Nat) : sum? start [] = ofNat? start := rfl

@[simp] theorem sum?_cons (start size : Nat) (sizes : List (Option UInt32)) :
    sum? start (ofNat? size :: sizes) = sum? (start + size) sizes := by
  simp [sum?]

@[simp] theorem sum?_map {Item : Type} (start : Nat) (size : Item → Nat) (items : List Item) :
    sum? start (items.map fun item => ofNat? (size item)) =
      ofNat? (start + totalOf size items) := by
  induction items generalizing start with
  | nil => rfl
  | cons first rest ih =>
      rw [List.map_cons, sum?_cons, ih, totalOf, Nat.add_assoc]

@[simp] theorem sum?_replicate (start width count : Nat) :
    sum? start (List.replicate count (ofNat? width)) = ofNat? (start + width * count) := by
  induction count generalizing start with
  | zero => rfl
  | succ count ih =>
      rw [List.replicate_succ, sum?_cons, ih, Nat.mul_succ, Nat.add_assoc, Nat.add_comm width]

end Word

open Word

/-- The bytes of a record of so many words of 16 bits. -/
def recordLength? (words : Nat) : Option UInt32 := sum? 0 (List.replicate words (ofNat? 2))

def Constant.length? : Constant → Option UInt32
  | .utf8 bytes => sum? 0 [sum? 2 (bytes.map fun _ => ofNat? 1)]
  | .integer _ | .float _ => sum? 0 [ofNat? 4]
  | .long .. | .double .. => sum? 0 [ofNat? 4, ofNat? 4]
  | .className _ | .string _ | .methodType _ | .moduleName _ | .packageName _ => recordLength? 1
  | .memberRef .. | .nameAndType .. | .dynamic .. | .invokeDynamic .. => recordLength? 2
  | .methodHandle .. => sum? 0 [ofNat? 1, ofNat? 2]

/-- Each constant has a tag before it. -/
def Pool.length? (pool : Pool) : Option UInt32 :=
  add? (ofNat? 2) (sum? 0 (pool.constants.map fun constant => add? (ofNat? 1) constant.length?))

namespace Attribute

mutual

def length? : Attribute → Option UInt32
  | .code _ _ _ body handlers attributes =>
      sum? 0 [ofNat? 2, ofNat? 4, ofNat? 2, ofNat? 2, sum? 4 (body.map fun _ => ofNat? 1),
        sum? 2 (handlers.map fun _ => recordLength? 4), sum? 2 (lengths? attributes)]
  | .innerClasses _ classes =>
      sum? 0 [ofNat? 2, ofNat? 4, sum? 2 (classes.map fun _ => recordLength? 4)]
  | .signature .. => sum? 0 [ofNat? 2, ofNat? 4, ofNat? 2]
  | .localVariables _ table | .localVariableTypes _ table =>
      sum? 0 [ofNat? 2, ofNat? 4, sum? 2 (table.map fun _ => recordLength? 5)]
  | .other _ info => sum? 0 [ofNat? 2, sum? 4 (info.map fun _ => ofNat? 1)]

def lengths? : List Attribute → List (Option UInt32)
  | [] => []
  | first :: rest => length? first :: lengths? rest

end

end Attribute

def Member.length? (member : Member) : Option UInt32 :=
  sum? 0 [ofNat? 2, ofNat? 2, ofNat? 2, sum? 2 (Attribute.lengths? member.attributes)]

/-- The length as it is added up in 32 bits. -/
def ClassFile.length? (file : ClassFile) : Option UInt32 :=
  sum? 0 [ofNat? 4, ofNat? 2, ofNat? 2, file.pool.length?, ofNat? 2, ofNat? 2, ofNat? 2,
    sum? 2 (file.interfaces.map fun _ => ofNat? 2), sum? 2 (file.fields.map Member.length?),
    sum? 2 (file.methods.map Member.length?), sum? 2 (Attribute.lengths? file.attributes)]

section Sums

@[simp] theorem recordLength?_eq (words : Nat) : recordLength? words = ofNat? (2 * words) := by
  simp [recordLength?]

@[simp] theorem Constant.length?_eq (constant : Constant) :
    constant.length? = ofNat? constant.length := by
  cases constant <;> simp [Constant.length?, Constant.length]

@[simp] theorem Pool.length?_eq (pool : Pool) : pool.length? = ofNat? pool.length := by
  simp [Pool.length?, Pool.length]

namespace Attribute

theorem lengths?_eq (items : List Attribute) : lengths? items = items.map length? := by
  induction items with
  | nil => rfl
  | cons first rest ih => rw [lengths?, ih, List.map_cons]

theorem length?_eq (item : Attribute) : item.length? = ofNat? item.length := by
  induction item using nestedInduction with
  | code name maxStack maxLocals body handlers attributes nested =>
      have inside : lengths? attributes = attributes.map fun item => ofNat? item.length := by
        rw [lengths?_eq]
        exact List.map_congr_left nested
      simp only [length?, inside, sum?_cons, sum?_nil, sum?_map, List.map_const', sum?_replicate,
        recordLength?_eq, length, lengths_eq]
      congr 1
      omega
  | innerClasses name classes => simp [length?, length]
  | signature name index => simp [length?, length]
  | localVariables name table => simp [length?, length]
  | localVariableTypes name table => simp [length?, length]
  | other name info =>
      simp only [length?, sum?_cons, sum?_nil, List.map_const', sum?_replicate, length]
      congr 1
      omega

@[simp] theorem sum?_lengths? (start : Nat) (items : List Attribute) :
    sum? start (lengths? items) = ofNat? (start + lengths items) := by
  rw [lengths?_eq, lengths_eq, ← sum?_map]
  congr 2
  funext item
  exact item.length?_eq

end Attribute

@[simp] theorem Member.length?_eq (member : Member) : member.length? = ofNat? member.length := by
  simp [Member.length?, Member.length]

theorem ClassFile.length?_eq (file : ClassFile) : file.length? = ofNat? file.length := by
  have each : Member.length? = fun member => ofNat? member.length := funext Member.length?_eq
  simp [ClassFile.length?, ClassFile.length, each]

end Sums

namespace Attribute

mutual

/-- The attribute and all that are nested in it. -/
def withNested : Attribute → List Attribute
  | .code name maxStack maxLocals body handlers attributes =>
      .code name maxStack maxLocals body handlers attributes :: withNestedAll attributes
  | item => [item]

def withNestedAll : List Attribute → List Attribute
  | [] => []
  | first :: rest => withNested first ++ withNestedAll rest

end

end Attribute

/-- The attributes of the fields, the methods and the class, at any depth. -/
def ClassFile.allAttributes (file : ClassFile) : List Attribute :=
  file.fields.flatMap (fun field => Attribute.withNestedAll field.attributes) ++
    (file.methods.flatMap (fun method => Attribute.withNestedAll method.attributes) ++
      Attribute.withNestedAll file.attributes)

section Places

theorem Place.items_later (places : List Place) (distance : Nat) :
    (places.map (later distance)).map Place.item = places.map Place.item := by
  rw [List.map_map]
  rfl

theorem Place.items_inTurn {Item : Type} (places : Item → List Place) (length : Item → Nat)
    (items : List Item) : (inTurn places length items).map Place.item =
      items.flatMap fun item => (places item).map Place.item := by
  induction items with
  | nil => rfl
  | cons first rest ih =>
      rw [inTurn, List.map_append, items_later, ih, List.flatMap_cons]

namespace Attribute

theorem withNestedAll_eq (items : List Attribute) :
    withNestedAll items = items.flatMap withNested := by
  induction items with
  | nil => rfl
  | cons first rest ih => rw [withNestedAll, ih, List.flatMap_cons]

theorem items_places (item : Attribute) : item.places.map Place.item = item.withNested := by
  induction item using nestedInduction with
  | code name maxStack maxLocals body handlers attributes nested =>
      rw [places, withNested, List.map_cons, Place.items_later, placesOfAll_eq,
        Place.items_inTurn, withNestedAll_eq]
      congr 1
      exact List.flatMap_congr nested
  | innerClasses name classes => rfl
  | signature name index => rfl
  | localVariables name table => rfl
  | localVariableTypes name table => rfl
  | other name info => rfl

theorem items_placesOfAll (items : List Attribute) :
    (placesOfAll items).map Place.item = withNestedAll items := by
  rw [placesOfAll_eq, Place.items_inTurn, withNestedAll_eq]
  exact List.flatMap_congr fun item _ => item.items_places

/-- The name and the length item are in front of every attribute. -/
theorem bytes_eq_header (item : Attribute) :
    ∃ content, item.bytes = bytes16 item.name ++ (item.lengthItem ++ content) := by
  cases item with
  | code => exact ⟨_, List.append_assoc _ _ _⟩
  | innerClasses => exact ⟨_, List.append_assoc _ _ _⟩
  | signature => exact ⟨_, List.append_assoc _ _ _⟩
  | localVariables => exact ⟨_, List.append_assoc _ _ _⟩
  | localVariableTypes => exact ⟨_, List.append_assoc _ _ _⟩
  | other name info =>
      refine ⟨info, ?_⟩
      rw [lengthItem, length, Nat.add_sub_cancel_left]
      rfl

end Attribute

theorem ClassFile.items_places (file : ClassFile) :
    file.places.map Place.item = file.allAttributes := by
  simp only [places, tailPlaces, allAttributes, List.map_append, Place.items_later,
    Place.items_inTurn, Member.places, Attribute.items_placesOfAll]

end Places

/-- A part stands where it stands in a part that stands somewhere. -/
theorem StandsAt.inside {bytes whole part : List UInt8} {position distance : Nat}
    (stands : StandsAt bytes position whole) (within : StandsAt whole distance part) :
    StandsAt bytes (position + distance) part := by
  obtain ⟨rest, same⟩ := stands
  unfold StandsAt
  rw [← List.drop_drop, ← same]
  exact within.front rest

/-- If the length of an attribute has 32 bits, its length item tells how many bytes stand behind
it. -/
theorem Attribute.lengthItem_stands {item : Attribute} (short : item.length < 2 ^ 32) :
    ∃ length : UInt32, item.length? = some length ∧ 6 ≤ length ∧
      StandsAt item.bytes 2 (bytes32 (length - 6)) ∧
      item.bytes.length = 6 + (length - 6).toNat := by
  have least := item.six_le_length
  have value : (UInt32.ofNat item.length).toNat = item.length := by
    rw [UInt32.toNat_ofNat']
    exact Nat.mod_eq_of_lt short
  have six : 6 ≤ UInt32.ofNat item.length := by
    rw [UInt32.le_iff_toNat_le, value]
    exact least
  have behind : (UInt32.ofNat item.length - 6).toNat = item.length - 6 := by
    rw [UInt32.toNat_sub_of_le _ _ six, value]
    rfl
  refine ⟨UInt32.ofNat item.length, ?_, six, ?_, ?_⟩
  · rw [length?_eq, ofNat?_of_lt short]
  · obtain ⟨content, shape⟩ := item.bytes_eq_header
    have same : item.lengthItem = bytes32 (UInt32.ofNat item.length - 6) := by
      rw [lengthItem, ← behind, UInt32.ofNat_toNat]
    rw [shape, same]
    exact standsAt_length (bytes16 item.name) _ content
  · have real : item.bytes.length = item.length := item.spelled_bytes.length
    omega

namespace ClassFile

theorem length_bytes (file : ClassFile) : file.bytes.length = file.length := by
  have pool : file.pool.bytes.length = file.pool.length := file.pool.spelled_bytes.length
  have members : ∀ items : List Member,
      (counted16 Member.bytes items).length = 2 + totalOf Member.length items := by
    intro items
    rw [counted16, List.length_append, length_bytes16,
      length_flatMap fun member => member.spelled_bytes.length]
  have attributes : (Attribute.counted file.attributes).length =
      2 + Attribute.lengths file.attributes := by
    rw [Attribute.counted, List.length_append, length_bytes16, Attribute.bytesOfAll_eq,
      length_flatMap fun item => item.spelled_bytes.length, Attribute.lengths_eq]
  simp only [bytes, List.length_append, length_bytes32, length_bytes16, pool, length_indices,
    members, attributes, length]

/-- If what is written for a class file has a length of 32 bits, this is the length that is added
up for it. Every attribute stands in it with its length item, which is its own length without the
six bytes of name and item, and so many bytes stand behind. -/
theorem lengths_written (file : ClassFile) (short : file.bytes.length < 2 ^ 32) :
    file.length = file.bytes.length ∧
    file.length? = some (UInt32.ofNat file.bytes.length) ∧
    file.places.map Place.item = file.allAttributes ∧
    ∀ place ∈ file.places, StandsAt file.bytes place.start place.item.bytes ∧
      ∃ length : UInt32, place.item.length? = some length ∧ 6 ≤ length ∧
        StandsAt file.bytes (place.start + 2) (bytes32 (length - 6)) ∧
        place.item.bytes.length = 6 + (length - 6).toNat := by
  refine ⟨file.length_bytes.symm, ?_, file.items_places, ?_⟩
  · rw [length?_eq, ← length_bytes, ofNat?_of_lt short]
  · intro place member
    have stands := file.spelled_bytes.normalises.stands place member
    have real : place.item.bytes.length = place.item.length := place.item.spelled_bytes.length
    have part := stands.length_le
    rw [List.length_drop] at part
    obtain ⟨length, sum, six, item, size⟩ :=
      Attribute.lengthItem_stands (show place.item.length < 2 ^ 32 by omega)
    exact ⟨stands, length, sum, six, stands.inside item, size⟩

/-- Attributes inside of code, and so many interfaces. -/
def crowdedFile (count : Nat) : ClassFile :=
  { nestedFile with interfaces := List.replicate count 11 }

theorem length_crowdedFile (count : Nat) :
    (crowdedFile count).bytes.length = 299 + 2 * count := by
  have others : nestedFile.length = 303 := by decide +kernel
  have indices : nestedFile.interfaces.length = 2 := rfl
  rw [length_bytes]
  simp only [crowdedFile, length, List.length_replicate] at others ⊢
  omega

theorem allAttributes_crowdedFile (count : Nat) :
    (crowdedFile count).allAttributes = nestedFile.allAttributes := rfl

/-- The count of the interfaces is cut down to one. The lengths of the file and of the code in the
code are right. -/
theorem lengths_written_crowded : (crowdedFile 65537).bytes.length < 2 ^ 32 ∧
    (crowdedFile 65537).bytes.length = 131373 ∧
    ∃ place ∈ (crowdedFile 65537).places,
      place.item = .code 1 0 0 [] [] [.localVariableTypes 9 [⟨0, 2, 10, 10, 0⟩]] ∧
        StandsAt (crowdedFile 65537).bytes (place.start + 2) (bytes32 30) := by
  have size : (crowdedFile 65537).bytes.length = 131373 := length_crowdedFile 65537
  have short : (crowdedFile 65537).bytes.length < 2 ^ 32 := by
    rw [size]
    decide
  obtain ⟨-, -, all, each⟩ := lengths_written (crowdedFile 65537) short
  have nested : Attribute.code 1 0 0 [] [] [.localVariableTypes 9 [⟨0, 2, 10, 10, 0⟩]] ∈
      (crowdedFile 65537).allAttributes := by
    rw [allAttributes_crowdedFile]
    simp [nestedFile, allAttributes, Attribute.withNested, Attribute.withNestedAll]
  rw [← all] at nested
  obtain ⟨place, member, same⟩ := List.mem_map.mp nested
  obtain ⟨-, sum, summed, -, stands, -⟩ := each place member
  rw [same, show Attribute.length? _ = some 36 by decide] at summed
  have thirty : sum - 6 = 30 := by
    rw [← Option.some.inj summed]
    rfl
  rw [thirty] at stands
  exact ⟨short, size, place, member, same, stands⟩

end ClassFile

end Deobfuscation
