import Deobfuscation.Signature

/-!
Generic signatures by their grammar. A signature is spelled as a list of tokens: marks, class
names with their `L`, and the identifiers of type variables, formal parameters and member
classes. Main statement: the tokens of every signature are delimited, so that a scan for class
names finds the end of each and meets no other `L` than those inside of identifiers.
-/

namespace Deobfuscation.Signature

/-- The name of a package, class, member class, formal parameter or type variable. -/
structure Identifier where
  text : String
  nonempty : text ≠ ""
  allowed : ∀ char ∈ text.toList, char ∉ ['.', ';', '[', '/', '<', '>', ':']

/-- A class name with its packages. -/
structure BinaryName where
  packages : List Identifier
  simple : Identifier

def BinaryName.text (name : BinaryName) : String :=
  String.ofList
    (name.packages.flatMap (fun package => package.text.toList ++ ['/']) ++
      name.simple.text.toList)

inductive BaseType where
  | byte | char | double | float | int | long | short | boolean

def BaseType.letter : BaseType → Char
  | .byte => 'B'
  | .char => 'C'
  | .double => 'D'
  | .float => 'F'
  | .int => 'I'
  | .long => 'J'
  | .short => 'S'
  | .boolean => 'Z'

inductive Wildcard where
  | upper | lower

def Wildcard.indicator : Wildcard → Char
  | .upper => '+'
  | .lower => '-'

mutual

inductive JavaType where
  | base (kind : BaseType)
  | reference (type : Reference)

inductive Reference where
  | ofClass (type : ClassType)
  | typeVariable (name : Identifier)
  | array (element : JavaType)

/-- A class type, written without type arguments if there are none. -/
inductive ClassType where
  | mk (name : BinaryName) (arguments : List Argument) (members : List Member)

inductive Argument where
  | any
  | type (wildcard : Option Wildcard) (type : Reference)

inductive Member where
  | mk (name : Identifier) (arguments : List Argument)

end

/-- A formal type parameter. -/
structure Parameter where
  name : Identifier
  classBound : Option Reference
  interfaceBounds : List Reference

inductive Thrown where
  | ofClass (type : ClassType)
  | typeVariable (name : Identifier)

/-- The signature of a class, method or field. A method without a result is void. -/
inductive Generic where
  | ofClass (parameters : List Parameter) (superclass : ClassType) (interfaces : List ClassType)
  | ofMethod (parameters : List Parameter) (arguments : List JavaType)
      (result : Option JavaType) (throws : List Thrown)
  | ofField (type : Reference)

/-- The pieces in which a signature is spelled. A class name comes with its `L`. -/
inductive Token where
  | mark (char : Char)
  | className (text : String)
  | identifier (text : String)
  deriving DecidableEq, Repr

/-- The characters of a token, with class names renamed. -/
def Token.chars (names : String → String) : Token → List Char
  | .mark char => [char]
  | .className text => 'L' :: (names text).toList
  | .identifier text => text.toList

def spell (names : String → String) (tokens : List Token) : String :=
  String.ofList (tokens.flatMap (Token.chars names))

/-- Encloses the tokens of a list that is left out if it is empty. -/
def angled : List Token → List Token
  | [] => []
  | first :: rest => .mark '<' :: first :: rest ++ [.mark '>']

mutual

def JavaType.tokens : JavaType → List Token
  | .base kind => [.mark kind.letter]
  | .reference type => type.tokens

def Reference.tokens : Reference → List Token
  | .ofClass type => type.tokens
  | .typeVariable name => [.mark 'T', .identifier name.text, .mark ';']
  | .array element => .mark '[' :: element.tokens

def ClassType.tokens : ClassType → List Token
  | .mk name arguments members =>
      .className name.text ::
        (angled (Argument.allTokens arguments) ++ (Member.allTokens members ++ [.mark ';']))

def Argument.tokens : Argument → List Token
  | .any => [.mark '*']
  | .type wildcard type =>
      wildcard.toList.map (fun kind => .mark kind.indicator) ++ type.tokens

def Argument.allTokens : List Argument → List Token
  | [] => []
  | first :: rest => first.tokens ++ Argument.allTokens rest

def Member.tokens : Member → List Token
  | .mk name arguments =>
      .mark '.' :: .identifier name.text :: angled (Argument.allTokens arguments)

def Member.allTokens : List Member → List Token
  | [] => []
  | first :: rest => first.tokens ++ Member.allTokens rest

end

def Parameter.tokens (parameter : Parameter) : List Token :=
  .identifier parameter.name.text :: .mark ':' ::
    (parameter.classBound.toList.flatMap Reference.tokens ++
      parameter.interfaceBounds.flatMap fun bound => .mark ':' :: bound.tokens)

def Thrown.tokens : Thrown → List Token
  | .ofClass type => .mark '^' :: type.tokens
  | .typeVariable name => .mark '^' :: (Reference.typeVariable name).tokens

def resultTokens : Option JavaType → List Token
  | none => [.mark 'V']
  | some type => type.tokens

def Generic.tokens : Generic → List Token
  | .ofClass parameters superclass interfaces =>
      angled (parameters.flatMap Parameter.tokens) ++
        (superclass.tokens ++ interfaces.flatMap ClassType.tokens)
  | .ofMethod parameters arguments result throws =>
      angled (parameters.flatMap Parameter.tokens) ++
        (.mark '(' :: (arguments.flatMap JavaType.tokens ++
          (.mark ')' :: (resultTokens result ++ throws.flatMap Thrown.tokens))))
  | .ofField type => type.tokens

/-- The text of a signature in which the binary name of every class type is renamed. -/
def Generic.text (names : String → String) (signature : Generic) : String :=
  spell names signature.tokens

/-- A text in which no name can end. -/
def Unbroken (chars : List Char) : Prop := ∀ char ∈ chars, endsName char = false

instance (chars : List Char) : Decidable (Unbroken chars) :=
  List.decidableBAll _ chars

/-- The next token is a mark that ends a name. -/
def Stops : List Token → Prop
  | .mark char :: _ => endsName char = true
  | _ => False

/-- Tokens that the scan can follow: it meets no `L` outside of class names and identifiers,
and finds the end of every class name. -/
inductive Delimited : List Token → Prop where
  | nil : Delimited []
  | mark {char : Char} {rest : List Token} : char ≠ 'L' → Delimited rest →
      Delimited (.mark char :: rest)
  | className {text : String} {rest : List Token} : Unbroken text.toList → Stops rest →
      Delimited rest → Delimited (.className text :: rest)
  | identifier {text : String} {rest : List Token} : Unbroken text.toList → Delimited rest →
      Delimited (.identifier text :: rest)

section Grammar

theorem Identifier.unbroken (name : Identifier) : Unbroken name.text.toList := by
  intro char member
  have allowed := name.allowed char member
  simp only [List.mem_cons, not_or] at allowed
  simp [endsName, allowed]

theorem BinaryName.unbroken (name : BinaryName) : Unbroken name.text.toList := by
  intro char member
  simp only [BinaryName.text, String.toList_ofList, List.mem_append, List.mem_flatMap,
    List.mem_cons, List.not_mem_nil, or_false] at member
  rcases member with ⟨package, _, inPackage | slash⟩ | inSimple
  · exact package.unbroken char inPackage
  · rw [slash]
    decide
  · exact name.simple.unbroken char inSimple

/-- Tokens that can be put before any others. -/
def Standalone (tokens : List Token) : Prop :=
  ∀ rest, Delimited rest → Delimited (tokens ++ rest)

theorem Standalone.nil : Standalone [] := fun _ delimited => delimited

theorem Standalone.append {front back : List Token} (first : Standalone front)
    (second : Standalone back) : Standalone (front ++ back) := by
  intro rest delimited
  rw [List.append_assoc]
  exact first _ (second rest delimited)

theorem Standalone.mark {char : Char} {tokens : List Token} (plain : char ≠ 'L')
    (standalone : Standalone tokens) : Standalone (.mark char :: tokens) :=
  fun rest delimited => .mark plain (standalone rest delimited)

theorem Standalone.identifier {name : Identifier} {tokens : List Token}
    (standalone : Standalone tokens) : Standalone (.identifier name.text :: tokens) :=
  fun rest delimited => .identifier name.unbroken (standalone rest delimited)

theorem Standalone.angled {tokens : List Token} (standalone : Standalone tokens) :
    Standalone (angled tokens) := by
  cases tokens with
  | nil => exact .nil
  | cons first rest =>
      exact .mark (by decide) (standalone.append (.mark (by decide) .nil))

theorem Standalone.flatMap {Item : Type} {tokens : Item → List Token}
    (standalone : ∀ item, Standalone (tokens item)) (items : List Item) :
    Standalone (items.flatMap tokens) := by
  induction items with
  | nil => exact .nil
  | cons first rest ih =>
      rw [List.flatMap_cons]
      exact (standalone first).append ih

theorem Stops.angled {rest : List Token} (stops : Stops rest) (tokens : List Token) :
    Stops (angled tokens ++ rest) := by
  cases tokens with
  | nil => exact stops
  | cons first more => exact (by decide : endsName '<' = true)

theorem Stops.members {rest : List Token} (stops : Stops rest) (members : List Member) :
    Stops (Member.allTokens members ++ rest) := by
  cases members with
  | nil => exact stops
  | cons first more =>
      cases first with
      | mk name arguments => exact (by decide : endsName '.' = true)

theorem BaseType.letter_ne (kind : BaseType) : kind.letter ≠ 'L' := by cases kind <;> decide

theorem Standalone.wildcard (wildcard : Option Wildcard) :
    Standalone (wildcard.toList.map fun kind => .mark kind.indicator) := by
  cases wildcard with
  | none => exact .nil
  | some kind =>
      have plain : kind.indicator ≠ 'L' := by cases kind <;> decide
      exact .mark plain .nil

mutual

theorem JavaType.standalone : (type : JavaType) → Standalone type.tokens
  | .base kind => .mark kind.letter_ne .nil
  | .reference type => type.standalone

theorem Reference.standalone : (type : Reference) → Standalone type.tokens
  | .ofClass type => type.standalone
  | .typeVariable _ => .mark (by decide) (.identifier (.mark (by decide) .nil))
  | .array element => .mark (by decide) element.standalone

theorem ClassType.standalone : (type : ClassType) → Standalone type.tokens
  | .mk name arguments members => by
      intro rest delimited
      have closing : Delimited (.mark ';' :: rest) := .mark (by decide) delimited
      have stops : Stops (.mark ';' :: rest) := (by decide : endsName ';' = true)
      have inner := Member.allStandalone members _ closing
      have outer := (Argument.allStandalone arguments).angled _ inner
      simp only [ClassType.tokens, List.cons_append, List.append_assoc, List.nil_append]
      exact .className name.unbroken ((stops.members members).angled _) outer

theorem Argument.standalone : (argument : Argument) → Standalone argument.tokens
  | .any => .mark (by decide) .nil
  | .type wildcard type => (Standalone.wildcard wildcard).append type.standalone

theorem Argument.allStandalone :
    (arguments : List Argument) → Standalone (Argument.allTokens arguments)
  | [] => .nil
  | first :: rest => first.standalone.append (Argument.allStandalone rest)

theorem Member.standalone : (member : Member) → Standalone member.tokens
  | .mk _ arguments =>
      .mark (by decide) (.identifier (Argument.allStandalone arguments).angled)

theorem Member.allStandalone :
    (members : List Member) → Standalone (Member.allTokens members)
  | [] => .nil
  | first :: rest => first.standalone.append (Member.allStandalone rest)

end

theorem Parameter.standalone (parameter : Parameter) : Standalone parameter.tokens :=
  .identifier (.mark (by decide) (.append (.flatMap Reference.standalone _)
    (.flatMap (fun bound => .mark (by decide) bound.standalone) _)))

theorem Thrown.standalone (thrown : Thrown) : Standalone thrown.tokens := by
  cases thrown with
  | ofClass type => exact .mark (by decide) type.standalone
  | typeVariable name =>
      exact .mark (by decide) (Reference.standalone (.typeVariable name))

theorem standalone_result (result : Option JavaType) : Standalone (resultTokens result) := by
  cases result with
  | none => exact .mark (by decide) .nil
  | some type => exact type.standalone

theorem Generic.standalone (signature : Generic) : Standalone signature.tokens := by
  cases signature with
  | ofClass parameters superclass interfaces =>
      have front := (Standalone.flatMap Parameter.standalone parameters).angled
      exact front.append
        (superclass.standalone.append (.flatMap ClassType.standalone interfaces))
  | ofMethod parameters arguments result throws =>
      have front := (Standalone.flatMap Parameter.standalone parameters).angled
      have back := (standalone_result result).append (.flatMap Thrown.standalone throws)
      have inner := (Standalone.flatMap JavaType.standalone arguments).append
        (.mark (by decide : ')' ≠ 'L') back)
      exact front.append (.mark (by decide) inner)
  | ofField type => exact type.standalone

theorem Generic.delimited (signature : Generic) : Delimited signature.tokens := by
  have whole := signature.standalone [] .nil
  rwa [List.append_nil] at whole

end Grammar

end Deobfuscation.Signature
