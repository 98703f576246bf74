import Deobfuscation.Proofs.ClassReading

/-!
Writing what was read. The length items of attributes that are taken apart are read and not
checked, and a pool count of zero is read as an empty pool. Nothing else is lost: the written
bytes are those that were read, but for wrong items of these two sorts.
-/

namespace Deobfuscation

def StandsAt (bytes : List UInt8) (position : Nat) (part : List UInt8) : Prop :=
  part <+: bytes.drop position

instance (bytes : List UInt8) (position : Nat) (part : List UInt8) :
    Decidable (StandsAt bytes position part) :=
  inferInstanceAs (Decidable (part <+: bytes.drop position))

/-- The two are equally long and differ only at such positions. -/
def AlikeBut (Allowed : Nat → Prop) (stored written : List UInt8) : Prop :=
  written.length = stored.length ∧
    ∀ position, written[position]? = stored[position]? ∨ Allowed position

section Positions

variable {first second part : List UInt8} {position : Nat}

theorem StandsAt.front (stands : StandsAt first position part) (second : List UInt8) :
    StandsAt (first ++ second) position part := by
  unfold StandsAt
  rw [List.drop_append]
  exact stands.trans (List.prefix_append _ _)

theorem StandsAt.behind (stands : StandsAt second position part) (first : List UInt8) :
    StandsAt (first ++ second) (position + first.length) part := by
  unfold StandsAt
  rw [List.drop_append, List.drop_eq_nil_of_le (by omega), List.nil_append,
    Nat.add_sub_cancel]
  exact stands

theorem standsAt_length (first part second : List UInt8) :
    StandsAt (first ++ (part ++ second)) first.length part := by
  unfold StandsAt
  rw [List.drop_left]
  exact List.prefix_append _ _

variable {Allowed Wider : Nat → Prop} {stored written later laterWritten : List UInt8}

theorem alikeBut_refl (bytes : List UInt8) : AlikeBut Allowed bytes bytes :=
  ⟨rfl, fun _ => Or.inl rfl⟩

theorem alikeBut_inside (same : written.length = stored.length)
    (inside : ∀ position < stored.length, Allowed position) : AlikeBut Allowed stored written := by
  refine ⟨same, ?_⟩
  intro position
  rcases Nat.lt_or_ge position stored.length with short | long
  · exact Or.inr (inside position short)
  · left
    rw [List.getElem?_eq_none long, List.getElem?_eq_none (same.symm ▸ long)]

theorem AlikeBut.mono (alike : AlikeBut Allowed stored written)
    (wider : ∀ position, Allowed position → Wider position) : AlikeBut Wider stored written :=
  ⟨alike.1, fun position => (alike.2 position).imp_right (wider position)⟩

theorem AlikeBut.append (alike : AlikeBut Allowed stored written)
    (others : AlikeBut (fun position => Allowed (position + stored.length)) later laterWritten) :
    AlikeBut Allowed (stored ++ later) (written ++ laterWritten) := by
  refine ⟨by rw [List.length_append, List.length_append, alike.1, others.1], ?_⟩
  intro position
  rcases Nat.lt_or_ge position stored.length with inside | behind
  · rw [List.getElem?_append_left inside, List.getElem?_append_left (alike.1.symm ▸ inside)]
    exact alike.2 position
  -- positions behind the first parts are counted from their end
  · obtain ⟨distance, rfl⟩ := Nat.exists_eq_add_of_le' behind
    rw [List.getElem?_append_right behind, List.getElem?_append_right (alike.1.symm ▸ behind),
      alike.1, Nat.add_sub_cancel]
    exact others.2 distance

theorem AlikeBut.eq (alike : AlikeBut Allowed stored written)
    (nowhere : ∀ position, ¬ Allowed position) : written = stored := by
  apply List.ext_getElem?
  intro position
  exact (alike.2 position).resolve_right (nowhere position)

end Positions

/-- An attribute in a sequence of bytes, and the position of its first byte. -/
structure Place where
  start : Nat
  item : Attribute

namespace Place

def later (distance : Nat) (place : Place) : Place := ⟨place.start + distance, place.item⟩

/-- The attribute is taken apart, and the length stored for it is not the number of bytes behind
the item. -/
def Wrong (stored : List UInt8) (place : Place) : Prop :=
  place.item.kind ≠ .other ∧ ∃ length : UInt32,
    StandsAt stored (place.start + 2) (bytes32 length) ∧
      length.toNat ≠ place.item.bytes.length - 6

/-- The position is one of the four of a wrong length item. -/
def InWrong (places : List Place) (stored : List UInt8) (position : Nat) : Prop :=
  ∃ place ∈ places, place.Wrong stored ∧ place.start + 2 ≤ position ∧ position < place.start + 6

/-- The places in items that stand one after another. -/
def inTurn {Item : Type} (places : Item → List Place) (length : Item → Nat) :
    List Item → List Place
  | [] => []
  | first :: rest => places first ++ (inTurn places length rest).map (later (length first))

end Place

namespace Attribute

mutual

/-- The places of an attribute and of those nested in it. -/
def places : Attribute → List Place
  | .code name maxStack maxLocals body handlers attributes =>
      ⟨0, .code name maxStack maxLocals body handlers attributes⟩ ::
        (placesOfAll attributes).map (Place.later (18 + body.length + 8 * handlers.length))
  | item => [⟨0, item⟩]

def placesOfAll : List Attribute → List Place
  | [] => []
  | first :: rest => places first ++ (placesOfAll rest).map (Place.later first.length)

end

end Attribute

def Member.places (member : Member) : List Place :=
  (Attribute.placesOfAll member.attributes).map (Place.later 8)

/-- The places in what stands behind the pool. -/
def ClassFile.tailPlaces (file : ClassFile) : List Place :=
  let fields := 6 + (2 + 2 * file.interfaces.length) + 2
  let methods := fields + totalOf Member.length file.fields + 2
  let attributes := methods + totalOf Member.length file.methods + 2
  (Place.inTurn Member.places Member.length file.fields).map (Place.later fields) ++
    ((Place.inTurn Member.places Member.length file.methods).map (Place.later methods) ++
      (Attribute.placesOfAll file.attributes).map (Place.later attributes))

def ClassFile.places (file : ClassFile) : List Place :=
  file.tailPlaces.map (Place.later (8 + file.pool.length))

/-- The attributes stand at their places, and only wrong lengths among them are mended. -/
structure Agree (places : List Place) (stored written : List UInt8) : Prop where
  stands : ∀ place ∈ places, StandsAt written place.start place.item.bytes
  alike : AlikeBut (Place.InWrong places stored) stored written

section Agreement

variable {places others : List Place} {stored written later laterWritten : List UInt8}

theorem Place.InWrong.front {position : Nat} (wrong : InWrong places stored position) :
    InWrong (places ++ others) (stored ++ later) position := by
  obtain ⟨place, member, ⟨parsed, length, stands, differs⟩, bounds⟩ := wrong
  exact ⟨place, List.mem_append_left _ member, ⟨parsed, length, stands.front later, differs⟩,
    bounds⟩

theorem Place.InWrong.behind {position : Nat} (wrong : InWrong others later position)
    (places : List Place) (stored : List UInt8) :
    InWrong (places ++ others.map (Place.later stored.length)) (stored ++ later)
      (position + stored.length) := by
  obtain ⟨place, member, ⟨parsed, length, stands, differs⟩, bounds⟩ := wrong
  refine ⟨place.later stored.length, List.mem_append_right _ (List.mem_map_of_mem member),
    ⟨parsed, length, ?_, differs⟩, ?_⟩
  · have moved := stands.behind stored
    rwa [Nat.add_right_comm] at moved
  · simp only [Place.later]
    omega

theorem agree_refl (bytes : List UInt8) : Agree [] bytes bytes :=
  ⟨nofun, alikeBut_refl bytes⟩

theorem Agree.append (agree : Agree places stored written)
    (next : Agree others later laterWritten) :
    Agree (places ++ others.map (Place.later stored.length)) (stored ++ later)
      (written ++ laterWritten) := by
  constructor
  · intro place member
    rcases List.mem_append.mp member with member | member
    · exact (agree.stands place member).front laterWritten
    · obtain ⟨other, found, rfl⟩ := List.mem_map.mp member
      rw [← agree.alike.1]
      exact (next.stands other found).behind written
  · apply AlikeBut.append
    · exact agree.alike.mono fun _ wrong => wrong.front
    · exact next.alike.mono fun _ wrong => wrong.behind places stored

theorem Agree.behind (agree : Agree places stored written) (front : List UInt8) :
    Agree (places.map (Place.later front.length)) (front ++ stored) (front ++ written) :=
  (agree_refl front).append agree

theorem Agree.inTurn {Item : Type} {placesOf : Item → List Place} {bytes : Item → List UInt8}
    {length : Item → Nat} {items : List Item}
    (lengths : ∀ item, (bytes item).length = length item)
    (turn : InTurn (fun item part => Agree (placesOf item) part (bytes item)) items stored) :
    Agree (Place.inTurn placesOf length items) stored (items.flatMap bytes) := by
  induction items generalizing stored with
  | nil =>
      obtain rfl := turn
      exact agree_refl []
  | cons first rest ih =>
      obtain ⟨head, tail, rfl, agree, turn⟩ := turn
      rw [Place.inTurn, List.flatMap_cons, ← lengths, agree.alike.1]
      exact agree.append (ih turn)

/-- One attribute that is taken apart, from its content. -/
theorem Agree.header (content : Agree places stored written) (item : Attribute)
    (length : UInt32) (parsed : item.kind ≠ .other)
    (shape : item.bytes = bytes16 item.name ++ (item.lengthItem ++ written)) :
    Agree (⟨0, item⟩ :: places.map (Place.later 6))
      (bytes16 item.name ++ (bytes32 length ++ stored)) item.bytes := by
  constructor
  · intro place member
    rcases List.mem_cons.mp member with rfl | member
    · exact List.prefix_rfl
    · rw [shape, ← List.append_assoc]
      exact (content.behind (bytes16 item.name ++ item.lengthItem)).stands place member
  -- the name, the length item and the content one after another
  · have real : item.bytes.length = item.length := item.spelled_bytes.length
    rw [shape]
    apply (alikeBut_refl _).append
    apply AlikeBut.append
    · by_cases right : length.toNat = item.length - 6
      · rw [Attribute.lengthItem, ← right, UInt32.ofNat_toNat]
        exact alikeBut_refl _
      · refine alikeBut_inside rfl ?_
        intro position inside
        rw [length_bytes32] at inside
        refine ⟨⟨0, item⟩, List.mem_cons_self, ⟨parsed, length, ?_, ?_⟩, ?_⟩
        · exact standsAt_length (bytes16 item.name) (bytes32 length) stored
        · rwa [real]
        · simp only [length_bytes16]
          omega
    · apply content.alike.mono
      intro position wrong
      have moved := wrong.behind [⟨0, item⟩] (bytes16 item.name ++ bytes32 length)
      rwa [List.append_assoc] at moved

end Agreement

section Spellings

theorem Place.later_later (places : List Place) (first second : Nat) :
    (places.map (later first)).map (later second) = places.map (later (first + second)) := by
  rw [List.map_map]
  apply List.map_congr_left
  intro place _
  simp only [Function.comp, later, Nat.add_assoc]

namespace Attribute

theorem placesOfAll_eq (items : List Attribute) :
    placesOfAll items = Place.inTurn places length items := by
  induction items with
  | nil => rfl
  | cons first rest ih => rw [placesOfAll, ih, Place.inTurn]

theorem Spelled.agree {item : Attribute} {stored : List UInt8} (spelled : item.Spelled stored) :
    Agree item.places stored item.bytes := by
  induction item using nestedInduction generalizing stored with
  | code name maxStack maxLocals body handlers attributes nested =>
      obtain ⟨length, content, inside, rfl⟩ := spelled
      have turn : InTurn (fun item part => Agree item.places part item.bytes) attributes
          content := by
        apply (spelledAll_iff.mp inside).imp
        intro item member part _ itemSpelled
        exact nested item member itemSpelled
      -- all that stands between the length item and the nested attributes
      have inner := (Agree.inTurn (fun item => item.spelled_bytes.length) turn).behind
        (bytes16 maxStack ++ (bytes16 maxLocals ++ (sized32 body ++
          (counted16 Handler.bytes handlers ++ bytes16 (UInt16.ofNat attributes.length)))))
      have whole := inner.header (.code name maxStack maxLocals body handlers attributes) length
        (by simp [kind]) (by simp only [bytes, Attribute.name, bytesOfAll_eq, List.append_assoc])
      rw [Place.later_later, ← placesOfAll_eq] at whole
      simp only [List.append_assoc, List.length_append, length_bytes16, length_sized32,
        length_handlers] at whole
      rw [places, show 18 + body.length + 8 * handlers.length =
        2 + (2 + (4 + body.length + (2 + 8 * handlers.length + 2))) + 6 by omega]
      exact whole
  | innerClasses name classes =>
      obtain ⟨length, rfl⟩ := spelled
      exact (agree_refl _).header _ length (by simp [kind]) (List.append_assoc _ _ _)
  | signature name index =>
      obtain ⟨length, rfl⟩ := spelled
      exact (agree_refl _).header _ length (by simp [kind]) (List.append_assoc _ _ _)
  | localVariables name table =>
      obtain ⟨length, rfl⟩ := spelled
      exact (agree_refl _).header _ length (by simp [kind]) (List.append_assoc _ _ _)
  | localVariableTypes name table =>
      obtain ⟨length, rfl⟩ := spelled
      exact (agree_refl _).header _ length (by simp [kind]) (List.append_assoc _ _ _)
  | other name info =>
      obtain rfl := spelled
      refine ⟨?_, alikeBut_refl _⟩
      intro place member
      obtain rfl := List.mem_singleton.mp member
      exact List.prefix_rfl

end Attribute

theorem agree_attributes {items : List Attribute} {stored : List UInt8}
    (turn : InTurn Attribute.Spelled items stored) :
    Agree (Attribute.placesOfAll items) stored (items.flatMap Attribute.bytes) := by
  rw [Attribute.placesOfAll_eq]
  apply Agree.inTurn fun item => item.spelled_bytes.length
  exact turn.imp fun _ _ _ _ spelled => spelled.agree

theorem Member.Spelled.agree {member : Member} {stored : List UInt8}
    (spelled : member.Spelled stored) : Agree member.places stored member.bytes := by
  obtain ⟨content, inside, rfl⟩ := spelled
  have whole := (agree_attributes inside).behind (bytes16 member.access ++
    (bytes16 member.name ++ (bytes16 member.descriptor ++
      bytes16 (UInt16.ofNat member.attributes.length))))
  simp only [List.append_assoc] at whole
  simp only [Member.bytes, Attribute.counted, Attribute.bytesOfAll_eq, List.append_assoc]
  exact whole

theorem agree_members {items : List Member} {stored : List UInt8}
    (turn : InTurn Member.Spelled items stored) :
    Agree (Place.inTurn Member.places Member.length items) stored (items.flatMap Member.bytes) := by
  apply Agree.inTurn fun member => member.spelled_bytes.length
  exact turn.imp fun _ _ _ _ spelled => spelled.agree

/-- The count is the only item of a pool that may be stored in two ways. -/
theorem Pool.Spelled.alike {pool : Pool} {stored : List UInt8} (spelled : pool.Spelled stored) :
    AlikeBut (fun position => StandsAt stored 0 (bytes16 0) ∧ position < 2) stored pool.bytes := by
  obtain ⟨count, right | ⟨rfl, -⟩, rfl⟩ := spelled
  · rw [right]
    exact alikeBut_refl _
  · apply AlikeBut.append
    · refine alikeBut_inside rfl ?_
      intro position inside
      exact ⟨List.prefix_append _ _, inside⟩
    · exact alikeBut_refl _

end Spellings

namespace ClassFile

/-- The position is one of the two of a pool count of zero. -/
def InNoCount (stored : List UInt8) (position : Nat) : Prop :=
  StandsAt stored 8 (bytes16 0) ∧ 8 ≤ position ∧ position < 10

/-- What is written for the class file has all bytes of what is stored, but for wrong lengths
and a pool count of zero. -/
structure Normalises (file : ClassFile) (stored : List UInt8) : Prop where
  stands : ∀ place ∈ file.places, StandsAt file.bytes place.start place.item.bytes
  alike : AlikeBut
    (fun position => InNoCount stored position ∨ Place.InWrong file.places stored position)
    stored file.bytes

/-- What is written behind the pool. -/
def tailBytes (file : ClassFile) : List UInt8 :=
  bytes16 file.access ++ bytes16 file.thisClass ++ bytes16 file.superClass ++
    counted16 bytes16 file.interfaces ++ counted16 Member.bytes file.fields ++
    counted16 Member.bytes file.methods ++ Attribute.counted file.attributes

theorem TailSpelled.agree {file : ClassFile} {stored : List UInt8}
    (spelled : file.TailSpelled stored) : Agree file.tailPlaces stored file.tailBytes := by
  obtain ⟨fields, methods, attributes, fieldsSpelled, methodsSpelled, attributesSpelled, rfl⟩ :=
    spelled
  have fieldsLength : fields.length = totalOf Member.length file.fields :=
    fieldsSpelled.length fun _ _ _ => Member.Spelled.length
  have methodsLength : methods.length = totalOf Member.length file.methods :=
    methodsSpelled.length fun _ _ _ => Member.Spelled.length
  have fieldsAgree := (agree_members fieldsSpelled).behind (bytes16 file.access ++
    (bytes16 file.thisClass ++ (bytes16 file.superClass ++ (counted16 bytes16 file.interfaces ++
      bytes16 (UInt16.ofNat file.fields.length)))))
  have methodsAgree := (agree_members methodsSpelled).behind
    (bytes16 (UInt16.ofNat file.methods.length))
  have attributesAgree := (agree_attributes attributesSpelled).behind
    (bytes16 (UInt16.ofNat file.attributes.length))
  -- the places come out as nested sums of lengths, and are those from the front of the tail
  have whole := fieldsAgree.append (methodsAgree.append attributesAgree)
  simp only [List.map_append, Place.later_later, List.append_assoc, List.length_append,
    length_bytes16, length_indices, fieldsLength, methodsLength] at whole
  simp only [counted16, List.append_assoc] at whole
  simp only [tailBytes, counted16, Attribute.counted, Attribute.bytesOfAll_eq, List.append_assoc]
  convert whole using 1
  dsimp only [tailPlaces]
  congr 3
  · omega
  · congr 1
    omega
  · congr 1
    omega

/-- What is written before the pool. -/
def headBytes (file : ClassFile) : List UInt8 :=
  bytes32 magic ++ bytes16 file.minor ++ bytes16 file.major

theorem length_headBytes (file : ClassFile) : file.headBytes.length = 8 := rfl

theorem bytes_eq (file : ClassFile) :
    file.bytes = file.headBytes ++ (file.pool.bytes ++ file.tailBytes) := by
  simp only [bytes, headBytes, tailBytes, List.append_assoc]

theorem Spelled.normalises {file : ClassFile} {stored : List UInt8}
    (spelled : file.Spelled stored) : file.Normalises stored := by
  obtain ⟨pool, tail, poolSpelled, tailSpelled, rfl⟩ := spelled
  rw [← List.append_assoc, ← List.append_assoc]
  change file.Normalises (file.headBytes ++ (pool ++ tail))
  have agree := tailSpelled.agree
  constructor
  · have behind := agree.behind (file.headBytes ++ file.pool.bytes)
    rw [List.length_append, length_headBytes, file.pool.spelled_bytes.length,
      List.append_assoc, List.append_assoc, ← bytes_eq] at behind
    exact behind.stands
  -- what stands before the pool has no two spellings
  · rw [bytes_eq]
    apply (alikeBut_refl file.headBytes).append
    apply AlikeBut.append
    · apply poolSpelled.alike.mono
      rintro position ⟨zero, inside⟩
      left
      refine ⟨(zero.front tail).behind file.headBytes, ?_⟩
      rw [length_headBytes]
      omega
    · apply agree.alike.mono
      intro position wrong
      right
      have moved := wrong.behind [] (file.headBytes ++ pool)
      rw [List.length_append, length_headBytes, poolSpelled.length, List.append_assoc] at moved
      rw [length_headBytes, poolSpelled.length, Nat.add_assoc, Nat.add_comm file.pool.length]
      exact moved

/-- Reading takes a front of the bytes that alone decides the class file. Writing gives it back,
but for wrong lengths and a pool count of zero, and what is written reads the same. -/
theorem read_normalises {bytes unread : List UInt8} {file : ClassFile}
    (read : ClassFile.read bytes = .ok (file, unread)) :
    ∃ taken, bytes = taken ++ unread ∧ file.WellFormed ∧ file.Normalises taken ∧
      (¬ StandsAt taken 8 (bytes16 0) → (∀ place ∈ file.places, ¬ place.Wrong taken) →
        file.bytes = taken) ∧
      ClassFile.read file.bytes = .ok (file, []) ∧
      (∀ more, ClassFile.read (taken ++ more) = .ok (file, more)) ∧
      ∀ part, part <+: taken → part ≠ taken → ClassFile.read part = .error .endOfInput := by
  obtain ⟨taken, split, valid, spelled⟩ := spelled_of_read read
  have normal := spelled.normalises
  refine ⟨taken, split, valid, normal, ?_, ?_, read_of_spelled valid spelled, ?_⟩
  · intro counted right
    apply normal.alike.eq
    rintro position (⟨zero, -⟩ | ⟨place, member, wrong, -⟩)
    · exact counted zero
    · exact right place member wrong
  · have again := read_of_spelled valid file.spelled_bytes []
    rwa [List.append_nil] at again
  · intro part front shorter
    exact read_cut valid spelled front shorter

/-- The lengths stored for the code and for the signature in it are wrong. -/
def mislabelled : List UInt8 :=
  bytes32 magic ++ [0, 0, 0, 52] ++
    ([0, 3] ++ [1, 0, 4] ++ Attribute.nameBytes "Code" ++ [1, 0, 9] ++
      Attribute.nameBytes "Signature") ++
    [0, 1, 0, 0, 0, 0, 0, 0, 0, 0] ++
    ([0, 1] ++ [0, 9, 0, 1, 0, 1, 0, 1] ++
      ([0, 1, 0, 0, 0, 0] ++ [0, 2, 0, 3, 0, 0, 0, 1, 0xB1, 0, 0, 0, 1] ++
        ([0, 2, 0, 0, 0, 7] ++ [0, 1]))) ++
    [0, 0]

def relabelled : ClassFile where
  minor := 0
  major := 52
  pool := .ofList [.utf8 (Attribute.nameBytes "Code"), .utf8 (Attribute.nameBytes "Signature")]
  access := 1
  thisClass := 0
  superClass := 0
  interfaces := []
  fields := []
  methods := [⟨9, 1, 1, [.code 1 2 3 [0xB1] [] [.signature 2 1]]⟩]
  attributes := []

theorem read_normalises_mislabelled :
    ClassFile.read (mislabelled ++ [9]) = .ok (relabelled, [9]) ∧
      relabelled.Normalises mislabelled ∧ relabelled.bytes ≠ mislabelled ∧
      ClassFile.read relabelled.bytes = .ok (relabelled, []) ∧
      ClassFile.read (mislabelled.take 60) = .error .endOfInput := by
  have read : ClassFile.read (mislabelled ++ [9]) = .ok (relabelled, [9]) := by rfl
  obtain ⟨taken, split, -, normal, -, again, -, cut⟩ := read_normalises read
  obtain rfl := List.append_cancel_right split
  exact ⟨read, normal, by decide +kernel, again,
    cut _ (List.take_prefix _ _) (by decide +kernel)⟩

end ClassFile

end Deobfuscation
