import Deobfuscation.Mapping.Srg
import Deobfuscation.Proofs.Cutting
import Deobfuscation.Proofs.Runs
import Deobfuscation.Proofs.TableOrder
import Mathlib.Data.List.DropRight

/-!
What tagged lines mean together, said without a state: whether a line is faulty depends on the
class lines before it, and a class has the names of its last declaration and the members of the
lines behind that. One more line changes the classes of the reader just as it changes this meaning.
-/

namespace Deobfuscation.Mapping.Srg

open Text

theorem owned?_eq_some_iff {member owner name : String} :
    owned? member = some (owner, name) ↔ member = owner ++ "/" ++ name ∧ '/' ∉ name.toList := by
  have chars : member = owner ++ "/" ++ name ↔
      member.toList = owner.toList ++ '/' :: name.toList := by
    rw [← String.toList_inj]
    simp
  rw [chars, ← cutLast?_eq_some_iff, owned?, Option.map_eq_some_iff]
  constructor
  · rintro ⟨parts, found, same⟩
    obtain ⟨rfl, rfl⟩ := Prod.mk.inj same
    simpa using found
  · exact fun found => ⟨_, found, by simp⟩

theorem owned?_append {name : String} (free : '/' ∉ name.toList) (owner : String) :
    owned? (owner ++ "/" ++ name) = some (owner, name) :=
  owned?_eq_some_iff.mpr ⟨rfl, free⟩

theorem owned?_eq_none_iff {member : String} : owned? member = none ↔ '/' ∉ member.toList := by
  rw [owned?, Option.map_eq_none_iff, cutLast?_eq_none_iff]

section Meaning

/-- The names in a class line. -/
def declared? (text : String) : Option (String × String) :=
  match fields text with
  | ["CL:", obfuscated, original] => some (obfuscated, original)
  | _ => none

/-- The obfuscated and the original member in a member line, each with its owner. -/
def members? (text : String) : Option (String × String) :=
  match fields text with
  | ["FD:", obfuscated, original] => some (obfuscated, original)
  | ["MD:", obfuscated, _, original, _] => some (obfuscated, original)
  | _ => none

/-- The names that class lines give, in order. -/
def declarations (texts : List String) : List (String × String) := texts.filterMap declared?

/-- What is wrong with the members of a line behind these lines. -/
inductive Misplaced (earlier : List String) : String → String → LineFault → Prop where
  | noOwner {obfuscated original : String}
      (missing : '/' ∉ obfuscated.toList ∨ '/' ∉ original.toList) :
      Misplaced earlier obfuscated original .noOwner
  | undeclared {owner name originalOwner originalName : String}
      (free : '/' ∉ name.toList) (originalFree : '/' ∉ originalName.toList)
      (unknown : Table.latest owner (declarations earlier) = none) :
      Misplaced earlier (owner ++ "/" ++ name) (originalOwner ++ "/" ++ originalName)
        (.undeclared owner)
  | ownerMismatch {owner name originalOwner originalName declared : String}
      (free : '/' ∉ name.toList) (originalFree : '/' ∉ originalName.toList)
      (known : Table.latest owner (declarations earlier) = some declared)
      (different : declared ≠ originalOwner) :
      Misplaced earlier (owner ++ "/" ++ name) (originalOwner ++ "/" ++ originalName)
        (.ownerMismatch declared originalOwner)

/-- A count of fields that the tag does not have. -/
def Miscounted (parts : List String) : Prop :=
  (parts.head? = some "CL:" ∧ parts.length ≠ 3) ∨ (parts.head? = some "FD:" ∧ parts.length ≠ 3) ∨
    (parts.head? = some "MD:" ∧ parts.length ≠ 5)

/-- The line is no class line and no member line. -/
def Untagged (text : String) : Prop :=
  (fields text).head? ≠ some "CL:" ∧ (fields text).head? ≠ some "FD:" ∧
    (fields text).head? ≠ some "MD:"

instance (text : String) : Decidable (Untagged text) := inferInstanceAs (Decidable (_ ∧ _ ∧ _))

/-- What is wrong with a line behind these lines. -/
inductive Faulty (earlier : List String) (text : String) : LineFault → Prop where
  | count (miscounted : Miscounted (fields text)) : Faulty earlier text .fieldCount
  | member {obfuscated original : String} {fault : LineFault}
      (line : members? text = some (obfuscated, original))
      (misplaced : Misplaced earlier obfuscated original fault) : Faulty earlier text fault

/-- No line is faulty where it stands. -/
def Faultless (texts : List String) : Prop :=
  ∀ before text after, texts = before ++ text :: after → ∀ fault, ¬ Faulty before text fault

/-- Both names of a member of the class. -/
def names? (owner obfuscated original : String) : Option (String × String) :=
  match owned? obfuscated, owned? original with
  | some (found, obfuscatedName), some (_, originalName) =>
      if found = owner then some (obfuscatedName, originalName) else none
  | _, _ => none

def field? (owner text : String) : Option (String × String) :=
  match fields text with
  | ["FD:", obfuscated, original] => names? owner obfuscated original
  | _ => none

/-- The method of the class that a line gives. Its descriptor is the last field as it stands. -/
def method? (owner text : String) : Option (MethodKey × String) :=
  match fields text with
  | ["MD:", obfuscated, _, original, descriptor] =>
      (names? owner obfuscated original).map fun names => (⟨names.1, descriptor⟩, names.2)
  | _ => none

/-- The lines behind the last declaration of the class. -/
def since (name : String) (texts : List String) : List String :=
  texts.rtakeWhile fun text => (declared? text).map Prod.fst ≠ some name

/-- The mapping is what the lines say about the class. -/
structure Describes (texts : List String) (name : String) (mapping : ClassMapping) : Prop where
  obfuscatedName : mapping.obfuscatedName = name
  originalName : Table.latest name (declarations texts) = some mapping.originalName
  fields : mapping.fields.Recalls ((since name texts).filterMap (field? name))
  methods : mapping.methods.Recalls ((since name texts).filterMap (method? name))

/-- The classes are what the lines say, in the order of their first declarations. -/
structure Meaning (texts : List String) (classes : Table String ClassMapping) : Prop where
  keys : classes.keys = ((declarations texts).map Prod.fst).eraseDups
  described : ∀ {name mapping}, classes.get? name = some mapping → Describes texts name mapping

theorem Meaning.originalName {texts : List String} {classes : Table String ClassMapping}
    (meaning : Meaning texts classes) (name : String) :
    (classes.get? name).map ClassMapping.originalName =
      Table.latest name (declarations texts) := by
  cases found : classes.get? name with
  | some mapping => exact (meaning.described found).originalName.symm
  | none =>
      have absent := Table.find_eq_none_iff.mp found
      rw [← Table.keys, meaning.keys, List.mem_eraseDups] at absent
      exact (Table.latest_eq_none_iff.mpr absent).symm

theorem Describes.unique {texts : List String} {name : String} {first second : ClassMapping}
    (left : Describes texts name first) (right : Describes texts name second) : first = second := by
  have original : first.originalName = second.originalName :=
    Option.some.inj (left.originalName.symm.trans right.originalName)
  have obfuscated := left.obfuscatedName.trans right.obfuscatedName.symm
  have fields := left.fields.unique right.fields
  have methods := left.methods.unique right.methods
  cases first
  cases second
  simp_all

end Meaning

section Step

inductive Form (parts : List String) : Except LineFault Statement → Prop where
  | miscounted (count : Miscounted parts) : Form parts (.error .fieldCount)
  | declare {obfuscated original : String} (same : parts = ["CL:", obfuscated, original]) :
      Form parts (.ok (.declare obfuscated original))
  | field {obfuscated original : String} (same : parts = ["FD:", obfuscated, original]) :
      Form parts (.ok (.field obfuscated original))
  | method {obfuscated given original descriptor : String}
      (same : parts = ["MD:", obfuscated, given, original, descriptor]) :
      Form parts (.ok (.method obfuscated original descriptor))
  | other {statement : Statement} (passive : statement = .nothing ∨ statement = .unknown)
      (tag : parts.head? ≠ some "CL:" ∧ parts.head? ≠ some "FD:" ∧ parts.head? ≠ some "MD:") :
      Form parts (.ok statement)

theorem form_ofFields (parts : List String) : Form parts (Statement.ofFields parts) := by
  cases parts with
  | nil => exact .other (Or.inl rfl) (by simp)
  | cons tag operands =>
      unfold Statement.ofFields
      dsimp only
      split_ifs with package declare field method empty
      · exact .other (Or.inl rfl) (by simp [package])
      · subst declare
        split
        · exact .declare rfl
        · rename_i different
          refine .miscounted (Or.inl ⟨rfl, fun count => ?_⟩)
          obtain ⟨first, second, rfl⟩ := List.length_eq_two.mp (Nat.succ.inj count)
          exact different first second rfl
      · subst field
        split
        · exact .field rfl
        · rename_i different
          refine .miscounted (Or.inr (Or.inl ⟨rfl, fun count => ?_⟩))
          obtain ⟨first, second, rfl⟩ := List.length_eq_two.mp (Nat.succ.inj count)
          exact different first second rfl
      · subst method
        split
        · exact .method rfl
        · rename_i different
          refine .miscounted (Or.inr (Or.inr ⟨rfl, fun count => ?_⟩))
          match operands, count with
          | [first, second, third, fourth], _ => exact different first second third fourth rfl
      · exact .other (Or.inl rfl) (by simp [declare, field, method])
      · exact .other (Or.inr rfl) (by simp [declare, field, method])

theorem ofFields_of_miscounted {parts : List String} (count : Miscounted parts) :
    Statement.ofFields parts = .error .fieldCount := by
  have form := form_ofFields parts
  generalize Statement.ofFields parts = result at form
  cases form with
  | miscounted => rfl
  | declare same => simp [Miscounted, same] at count
  | field same => simp [Miscounted, same] at count
  | method same => simp [Miscounted, same] at count
  | other passive tag => simp [Miscounted, tag] at count

variable {earlier : List String} {text : String} {classes next : Table String ClassMapping}

def take (classes : Table String ClassMapping) :
    Statement → Except LineFault (Table String ClassMapping)
  | .nothing => .ok classes
  | .unknown => .ok classes
  | .declare obfuscated original =>
      .ok (classes.insert obfuscated { originalName := original, obfuscatedName := obfuscated })
  | .field obfuscated original =>
      (member classes obfuscated original).map fun (owner, name, originalName) =>
        classes.adjust owner (·.addField name originalName)
  | .method obfuscated original descriptor =>
      (member classes obfuscated original).map fun (owner, name, originalName) =>
        classes.adjust owner (·.addMethod name descriptor originalName)

/-- The classes after a line. -/
def advance (classes : Table String ClassMapping) (text : String) :
    Except LineFault (Table String ClassMapping) :=
  (Statement.ofFields (fields text)).bind (take classes)

/-- Neither warnings nor line numbers have a part in what becomes of the classes. -/
theorem classes_step (progress : Progress) (number : Nat) (text : String) :
    (progress.step number text).map Progress.classes = advance progress.classes text := by
  unfold Progress.step advance
  cases Statement.ofFields (fields text) with
  | error fault => rfl
  | ok statement =>
      cases statement with
      | nothing => rfl
      | unknown => rfl
      | declare obfuscated original =>
          cases found : progress.classes.get? obfuscated <;>
            simp [take, bind, Except.bind, pure, Except.pure, Except.map, found]
      | field obfuscated original =>
          cases owned : member progress.classes obfuscated original <;>
            simp [take, bind, Except.bind, pure, Except.pure, Except.map, owned]
      | method obfuscated original descriptor =>
          cases owned : member progress.classes obfuscated original <;>
            simp [take, bind, Except.bind, pure, Except.pure, Except.map, owned]

theorem owned_cases (obfuscated original : String) :
    ('/' ∉ obfuscated.toList ∨ '/' ∉ original.toList) ∨
      ∃ owner name originalOwner originalName, obfuscated = owner ++ "/" ++ name ∧
        original = originalOwner ++ "/" ++ originalName ∧ '/' ∉ name.toList ∧
        '/' ∉ originalName.toList := by
  cases first : owned? obfuscated with
  | none => exact Or.inl (Or.inl (owned?_eq_none_iff.mp first))
  | some parts =>
      cases second : owned? original with
      | none => exact Or.inl (Or.inr (owned?_eq_none_iff.mp second))
      | some originalParts =>
          obtain ⟨same, free⟩ := owned?_eq_some_iff.mp first
          obtain ⟨originalSame, originalFree⟩ := owned?_eq_some_iff.mp second
          exact Or.inr ⟨_, _, _, _, same, originalSame, free, originalFree⟩

theorem member_of_ownerless {obfuscated original : String}
    (missing : '/' ∉ obfuscated.toList ∨ '/' ∉ original.toList) :
    member classes obfuscated original = .error .noOwner := by
  unfold member
  split
  · rename_i first second
    rw [← owned?_eq_none_iff, ← owned?_eq_none_iff, first, second] at missing
    simp at missing
  · rfl

theorem member_of_owned (meaning : Meaning earlier classes) {name originalName : String}
    (free : '/' ∉ name.toList) (originalFree : '/' ∉ originalName.toList)
    (owner originalOwner : String) :
    member classes (owner ++ "/" ++ name) (originalOwner ++ "/" ++ originalName) =
      match Table.latest owner (declarations earlier) with
      | none => .error (.undeclared owner)
      | some declared =>
          if declared = originalOwner then .ok (owner, name, originalName)
          else .error (.ownerMismatch declared originalOwner) := by
  rw [member, owned?_append free, owned?_append originalFree, ← meaning.originalName owner]
  cases found : classes.get? owner <;> simp only [found, Option.map_none, Option.map_some]

theorem member_eq_error_iff (meaning : Meaning earlier classes) {obfuscated original : String}
    {fault : LineFault} :
    member classes obfuscated original = .error fault ↔
      Misplaced earlier obfuscated original fault := by
  constructor
  · intro failed
    rcases owned_cases obfuscated original with
      missing | ⟨owner, name, originalOwner, originalName, rfl, rfl, free, originalFree⟩
    · rw [member_of_ownerless missing] at failed
      cases failed
      exact .noOwner missing
    · rw [member_of_owned meaning free originalFree] at failed
      split at failed
      · rename_i unknown
        cases failed
        exact .undeclared free originalFree unknown
      · rename_i declared known
        split_ifs at failed with same
        cases failed
        exact .ownerMismatch free originalFree known same
  · intro misplaced
    cases misplaced with
    | noOwner missing => exact member_of_ownerless missing
    | undeclared free originalFree unknown =>
        rw [member_of_owned meaning free originalFree, unknown]
    | ownerMismatch free originalFree known different =>
        simp only [member_of_owned meaning free originalFree, known, if_neg different]

theorem advance_of_members? (classes : Table String ClassMapping) {obfuscated original : String}
    (line : members? text = some (obfuscated, original)) :
    ∃ change, advance classes text = (member classes obfuscated original).map change := by
  unfold members? at line
  split at line
  · rename_i same
    cases line
    exact ⟨_, by rw [advance, same]; rfl⟩
  · rename_i same
    cases line
    exact ⟨_, by rw [advance, same]; rfl⟩
  · cases line

theorem eq_error_of_map {Found Result : Type} {found : Except LineFault Found}
    {change : Found → Result} {fault : LineFault} (failed : found.map change = .error fault) :
    found = .error fault := by
  cases found with
  | error => simpa [Except.map] using failed
  | ok => cases failed

theorem advance_eq_error_iff (meaning : Meaning earlier classes) {fault : LineFault} :
    advance classes text = .error fault ↔ Faulty earlier text fault := by
  constructor
  · intro failed
    have form := form_ofFields (fields text)
    unfold advance at failed
    generalize Statement.ofFields (fields text) = result at form failed
    cases form with
    | miscounted count =>
        cases failed
        exact .count count
    | declare => cases failed
    | @field obfuscated original same =>
        have line : members? text = some (obfuscated, original) := by simp only [members?, same]
        exact .member line ((member_eq_error_iff meaning).mp (eq_error_of_map failed))
    | @method obfuscated _ original _ same =>
        have line : members? text = some (obfuscated, original) := by simp only [members?, same]
        exact .member line ((member_eq_error_iff meaning).mp (eq_error_of_map failed))
    | other passive => rcases passive with rfl | rfl <;> cases failed
  · intro faulty
    cases faulty with
    | count count =>
        rw [advance, ofFields_of_miscounted count]
        rfl
    | member line misplaced =>
        obtain ⟨change, same⟩ := advance_of_members? classes line
        rw [same, (member_eq_error_iff meaning).mpr misplaced]
        rfl

theorem names?_of_member {obfuscated original owner name originalName : String}
    (placed : member classes obfuscated original = .ok (owner, name, originalName))
    (wanted : String) :
    names? wanted obfuscated original =
      if owner = wanted then some (name, originalName) else none := by
  unfold member at placed
  split at placed
  · rename_i first second
    split at placed
    · cases placed
    · split_ifs at placed
      cases placed
      simp only [names?, first, second]
  · cases placed

theorem filterMap_concat {Item Found : Type} (find? : Item → Option Found) (items : List Item)
    (item : Item) :
    (items ++ [item]).filterMap find? = items.filterMap find? ++ (find? item).toList := by
  cases found : find? item <;> simp [List.filterMap_append, found]

theorem declarations_concat (texts : List String) (text : String) :
    declarations (texts ++ [text]) = declarations texts ++ (declared? text).toList :=
  filterMap_concat declared? texts text

theorem since_concat {name : String} (undeclared : (declared? text).map Prod.fst ≠ some name)
    (texts : List String) : since name (texts ++ [text]) = since name texts ++ [text] :=
  List.rtakeWhile_concat_pos _ _ _ (by simpa using undeclared)

theorem since_append {name : String} (declared : (declared? text).map Prod.fst = some name)
    {after : List String} (others : ∀ other ∈ after, (declared? other).map Prod.fst ≠ some name)
    (before : List String) : since name (before ++ text :: after) = after := by
  induction after using List.reverseRecOn with
  | nil => exact List.rtakeWhile_concat_neg _ _ _ (by simp [declared])
  | append_singleton front last ih =>
      rw [← List.cons_append, ← List.append_assoc, since_concat (others last (by simp)),
        ih fun other member => others other (by simp [member])]

theorem latest_declarations_concat {name : String}
    (undeclared : (declared? text).map Prod.fst ≠ some name) :
    Table.latest name (declarations (earlier ++ [text])) =
      Table.latest name (declarations earlier) := by
  rw [declarations_concat]
  cases found : declared? text with
  | none => simp
  | some names =>
      rw [found] at undeclared
      have other : ¬ names.1 = name := fun same => undeclared (by rw [Option.map_some, same])
      rw [Option.toList_some, Table.latest_concat, if_neg other]

/-- A line that does not declare the class adds the members that it gives. -/
theorem Describes.concat {name : String} {mapping changed : ClassMapping}
    (described : Describes earlier name mapping)
    (undeclared : (declared? text).map Prod.fst ≠ some name)
    (names : changed.obfuscatedName = mapping.obfuscatedName ∧
      changed.originalName = mapping.originalName)
    (fields : ∀ pairs, mapping.fields.Recalls pairs →
      changed.fields.Recalls (pairs ++ (field? name text).toList))
    (methods : ∀ pairs, mapping.methods.Recalls pairs →
      changed.methods.Recalls (pairs ++ (method? name text).toList)) :
    Describes (earlier ++ [text]) name changed := by
  -- the last declaration stays where it is, so the lines behind it grow by this one
  have lines := since_concat undeclared earlier
  constructor
  · rw [names.1, described.obfuscatedName]
  · rw [latest_declarations_concat undeclared, names.2, described.originalName]
  · rw [lines, filterMap_concat]
    exact fields _ described.fields
  · rw [lines, filterMap_concat]
    exact methods _ described.methods

theorem Describes.skip {name : String} {mapping : ClassMapping}
    (described : Describes earlier name mapping)
    (undeclared : (declared? text).map Prod.fst ≠ some name) (noField : field? name text = none)
    (noMethod : method? name text = none) : Describes (earlier ++ [text]) name mapping :=
  described.concat undeclared ⟨rfl, rfl⟩ (by simp [noField]) (by simp [noMethod])

theorem describes_declared {obfuscated original : String}
    (line : declared? text = some (obfuscated, original)) (earlier : List String) :
    Describes (earlier ++ [text]) obfuscated
      { originalName := original, obfuscatedName := obfuscated } := by
  have lines : since obfuscated (earlier ++ [text]) = [] :=
    List.rtakeWhile_concat_neg _ _ _ (by simp [line])
  constructor
  · rfl
  · rw [declarations_concat, line, Option.toList_some, Table.latest_concat, if_pos rfl]
  · rw [lines]
    exact Table.recalls_empty
  · rw [lines]
    exact Table.recalls_empty

theorem silent_of_untagged (untagged : Untagged text) :
    declared? text = none ∧ (∀ name, field? name text = none) ∧
      ∀ name, method? name text = none := by
  unfold Untagged at untagged
  refine ⟨?_, fun name => ?_, fun name => ?_⟩
  · unfold declared?
    split <;> simp_all
  · unfold field?
    split <;> simp_all
  · unfold method?
    split <;> simp_all

theorem Meaning.skip (meaning : Meaning earlier classes) (undeclared : declared? text = none)
    (noField : ∀ name, field? name text = none) (noMethod : ∀ name, method? name text = none) :
    Meaning (earlier ++ [text]) classes := by
  constructor
  · rw [meaning.keys, declarations_concat, undeclared, Option.toList_none, List.append_nil]
  · intro name mapping found
    exact (meaning.described found).skip (by simp [undeclared]) (noField name) (noMethod name)

theorem Meaning.declare (meaning : Meaning earlier classes) {obfuscated original : String}
    (same : fields text = ["CL:", obfuscated, original]) :
    Meaning (earlier ++ [text])
      (classes.insert obfuscated { originalName := original, obfuscatedName := obfuscated }) := by
  have line : declared? text = some (obfuscated, original) := by simp only [declared?, same]
  constructor
  · rw [Table.keys_insert, meaning.keys, declarations_concat, line, Option.toList_some,
      List.map_append, List.map_singleton, Table.eraseDups_concat]
    simp only [List.mem_eraseDups]
  · intro name mapping found
    rw [Table.get?_insert] at found
    split_ifs at found with here
    · cases found
      subst here
      exact describes_declared line earlier
    · exact (meaning.described found).skip (by simpa [line] using here) (by simp [field?, same])
        (by simp [method?, same])

theorem Meaning.adjust (meaning : Meaning earlier classes) {owner : String}
    {change : ClassMapping → ClassMapping} (undeclared : declared? text = none)
    (changed : ∀ {mapping}, Describes earlier owner mapping →
      Describes (earlier ++ [text]) owner (change mapping))
    (others : ∀ {name}, owner ≠ name → field? name text = none ∧ method? name text = none) :
    Meaning (earlier ++ [text]) (classes.adjust owner change) := by
  constructor
  · rw [Table.keys_adjust, meaning.keys, declarations_concat, undeclared, Option.toList_none,
      List.append_nil]
  · intro name mapping found
    rw [Table.get?_adjust] at found
    obtain ⟨previous, old, rfl⟩ := Option.map_eq_some_iff.mp found
    have described := meaning.described old
    by_cases here : name = owner
    · subst here
      rw [if_pos rfl]
      exact changed described
    · have absent := others (Ne.symm here)
      rw [if_neg here]
      exact described.skip (by simp [undeclared]) absent.1 absent.2

theorem Meaning.field (meaning : Meaning earlier classes) {obfuscated original : String}
    (same : fields text = ["FD:", obfuscated, original])
    {owner name originalName : String}
    (placed : member classes obfuscated original = .ok (owner, name, originalName)) :
    Meaning (earlier ++ [text]) (classes.adjust owner (·.addField name originalName)) := by
  have undeclared : declared? text = none := by simp [declared?, same]
  have noMethod : ∀ wanted, method? wanted text = none := by simp [method?, same]
  have names : ∀ wanted, field? wanted text =
      if owner = wanted then some (name, originalName) else none := fun wanted => by
    simp only [field?, same, names?_of_member placed]
  refine meaning.adjust undeclared (fun described => ?_) fun other => ?_
  · refine described.concat (by simp [undeclared]) ⟨rfl, rfl⟩ (fun pairs recalls => ?_) ?_
    · rw [names, if_pos rfl]
      exact recalls.insert name originalName
    · simp [noMethod, ClassMapping.addField]
  · exact ⟨by rw [names, if_neg other], noMethod _⟩

theorem Meaning.method (meaning : Meaning earlier classes)
    {obfuscated given original descriptor : String}
    (same : fields text = ["MD:", obfuscated, given, original, descriptor])
    {owner name originalName : String}
    (placed : member classes obfuscated original = .ok (owner, name, originalName)) :
    Meaning (earlier ++ [text])
      (classes.adjust owner (·.addMethod name descriptor originalName)) := by
  have undeclared : declared? text = none := by simp [declared?, same]
  have noField : ∀ wanted, field? wanted text = none := by simp [field?, same]
  have names : ∀ wanted, method? wanted text =
      if owner = wanted then some (⟨name, descriptor⟩, originalName) else none := fun wanted => by
    simp only [method?, same, names?_of_member placed]
    split <;> rfl
  refine meaning.adjust undeclared (fun described => ?_) fun other => ?_
  · refine described.concat (by simp [undeclared]) ⟨rfl, rfl⟩ ?_ (fun pairs recalls => ?_)
    · simp [noField, ClassMapping.addMethod]
    · rw [names, if_pos rfl]
      exact recalls.insert ⟨name, descriptor⟩ originalName
  · exact ⟨noField _, by rw [names, if_neg other]⟩

/-- A line that is taken changes the classes as it changes the meaning. -/
theorem Meaning.advance (meaning : Meaning earlier classes)
    (taken : advance classes text = .ok next) : Meaning (earlier ++ [text]) next := by
  have form := form_ofFields (fields text)
  unfold Srg.advance at taken
  generalize Statement.ofFields (fields text) = result at form taken
  cases form with
  | miscounted => cases taken
  | declare same =>
      cases taken
      exact meaning.declare same
  | field same =>
      obtain ⟨⟨owner, name, originalName⟩, placed, rfl⟩ := map_eq_ok.mp taken
      exact meaning.field same placed
  | method same =>
      obtain ⟨⟨owner, name, originalName⟩, placed, rfl⟩ := map_eq_ok.mp taken
      exact meaning.method same placed
  | other passive tag =>
      have unchanged : next = classes := by
        rcases passive with rfl | rfl <;> cases taken <;> rfl
      rw [unchanged]
      obtain ⟨undeclared, noField, noMethod⟩ := silent_of_untagged tag
      exact meaning.skip undeclared noField noMethod

theorem advance_of_untagged (untagged : Untagged text) (classes : Table String ClassMapping) :
    Srg.advance classes text = .ok classes := by
  have form := form_ofFields (fields text)
  unfold Srg.advance
  generalize Statement.ofFields (fields text) = result at form
  cases form with
  | miscounted count => simp [Miscounted, untagged.1, untagged.2.1, untagged.2.2] at count
  | declare same => simp [Untagged, same] at untagged
  | field same => simp [Untagged, same] at untagged
  | method same => simp [Untagged, same] at untagged
  | other passive => rcases passive with rfl | rfl <;> rfl

end Step

end Deobfuscation.Mapping.Srg
