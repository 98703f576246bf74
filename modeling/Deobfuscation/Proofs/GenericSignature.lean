import Deobfuscation.Proofs.ClassNames
import Deobfuscation.Proofs.SignatureGrammar
import Mathlib.Data.List.Basic

/-!
Mapping generic signatures. The scan for class names knows no grammar: an `L` inside the name of
a type variable, formal parameter or member class opens a name as well, and what stands between
that `L` and the next `;`, `<` or `.` is looked up as one name, a stretch. Main statement:
mapping renames the class names of a signature and nothing else whenever every stretch is
looked up as its own text with the class names in it renamed, and if no name in the table has
a `;`, `<` or `.`, only then.
-/

namespace Deobfuscation.Signature

section Scan

/-- An identifier up to its first `L`, and what follows. -/
def opening : List Char → Option (List Char × List Char)
  | [] => none
  | char :: rest =>
      if char = 'L' then some ([char], rest)
      else (opening rest).map fun parts => (char :: parts.1, parts.2)

/-- What the scan makes of tokens: it copies them or takes them as class names where they are,
or it looks up a stretch of them that began inside of an identifier. -/
inductive Span where
  | single (token : Token)
  | stretch (tokens : List Token) (stop : Char)
  deriving DecidableEq, Repr

/-- The first argument holds the tokens of the stretch that is open. A stretch that never
ends is copied. -/
def spans : Option (List Token) → List Token → List Span
  | none, [] => []
  | some front, [] => front.map .single
  | none, .identifier text :: rest =>
      match opening text.toList with
      | none => .single (.identifier text) :: spans none rest
      | some (before, after) =>
          .single (.identifier (String.ofList before)) ::
            spans (some [.identifier (String.ofList after)]) rest
  | none, .mark char :: rest => .single (.mark char) :: spans none rest
  | none, .className text :: rest => .single (.className text) :: spans none rest
  | some front, .mark char :: rest =>
      if endsName char then .stretch front char :: spans none rest
      else spans (some (front ++ [.mark char])) rest
  | some front, .className text :: rest => spans (some (front ++ [.className text])) rest
  | some front, .identifier text :: rest => spans (some (front ++ [.identifier text])) rest

/-- A span with the class names of its tokens renamed. -/
def Span.chars (names : String → String) : Span → List Char
  | .single token => token.chars names
  | .stretch tokens stop => tokens.flatMap (Token.chars names) ++ [stop]

/-- A span as it is looked up. -/
def Span.mapped (names : String → String) : Span → List Char
  | .single token => token.chars names
  | .stretch tokens stop => (names (spell id tokens)).toList ++ [stop]

theorem opening_none {chars : List Char} (found : opening chars = none) : 'L' ∉ chars := by
  induction chars with
  | nil => exact List.not_mem_nil
  | cons char rest ih =>
      by_cases letter : char = 'L'
      · simp [opening, letter] at found
      · simp only [opening, letter, ↓reduceIte, Option.map_eq_none_iff] at found
        simp [ih found, Ne.symm letter]

theorem opening_some {chars before after : List Char}
    (found : opening chars = some (before, after)) :
    ∃ plain, 'L' ∉ plain ∧ before = plain ++ ['L'] ∧ chars = before ++ after := by
  induction chars generalizing before with
  | nil => simp [opening] at found
  | cons char rest ih =>
      by_cases letter : char = 'L'
      · simp only [opening, letter, ↓reduceIte, Option.some.injEq, Prod.mk.injEq] at found
        exact ⟨[], List.not_mem_nil, found.1.symm, by simp [← found.1, ← found.2, letter]⟩
      · simp only [opening, letter, ↓reduceIte, Option.map_eq_some_iff, Prod.mk.injEq,
          Prod.exists] at found
        rcases found with ⟨front, back, inside, equalFront, equalBack⟩
        subst equalBack
        rcases ih inside with ⟨plain, absent, equal, split⟩
        exact ⟨char :: plain, by simp [absent, Ne.symm letter], by simp [← equalFront, equal],
          by simp [← equalFront, split]⟩

theorem unbroken_append {front back : List Char} :
    Unbroken (front ++ back) ↔ Unbroken front ∧ Unbroken back := List.forall_mem_append

theorem unbroken_opening {chars before after : List Char}
    (found : opening chars = some (before, after)) (unbroken : Unbroken chars) :
    Unbroken after := by
  rcases opening_some found with ⟨_, _, _, split⟩
  rw [split, unbroken_append] at unbroken
  exact unbroken.2

theorem spans_opened {text : String} {before after : List Char}
    (found : opening text.toList = some (before, after)) (rest : List Token) :
    spans none (.identifier text :: rest) =
      .single (.identifier (String.ofList before)) ::
        spans (some [.identifier (String.ofList after)]) rest := by
  simp [spans, found]

theorem flatMap_chars_spans (names : String → String) (state : Option (List Token))
    (tokens : List Token) :
    (spans state tokens).flatMap (Span.chars names) =
      (state.getD [] ++ tokens).flatMap (Token.chars names) := by
  fun_induction spans state tokens with
  | case1 => rfl
  | case2 front => simp [List.flatMap_map, Span.chars]
  | case3 text rest whole ih => simp [Span.chars, ih]
  | case4 text rest before after found ih =>
      rcases opening_some found with ⟨_, _, _, split⟩
      simp [Span.chars, Token.chars, ih, split]
  | case5 char rest ih => simp [Span.chars, ih]
  | case6 text rest ih => simp [Span.chars, ih]
  | case7 front char rest ends ih => simp [Span.chars, Token.chars, ih]
  | case8 front char rest more ih => simp [ih]
  | case9 front text rest ih => simp [ih]
  | case10 front text rest ih => simp [ih]

theorem scan_plain {chars : List Char} (plain : 'L' ∉ chars) (rest : List Char) :
    scan none (chars ++ rest) = chars.map .plain ++ scan none rest := by
  induction chars with
  | nil => rfl
  | cons char more ih =>
      simp only [List.mem_cons, not_or] at plain
      have other : ¬ char = 'L' := fun equal => plain.1 equal.symm
      simpa [scan, other] using ih plain.2

theorem scan_unbroken {chars : List Char} (unbroken : Unbroken chars)
    (pending rest : List Char) :
    scan (some pending) (chars ++ rest) = scan (some (chars.reverse ++ pending)) rest := by
  induction chars generalizing pending with
  | nil => rfl
  | cons char more ih =>
      obtain ⟨here, later⟩ := List.forall_mem_cons.mp unbroken
      simpa [scan, here] using ih later (char :: pending)

/-- What mapping makes of the rest of a signature. -/
def mappedFrom (names : String → String) (state : Option (List Char)) (chars : List Char) :
    List Char :=
  ((scan state chars).map (Segment.rename names)).flatMap Segment.chars

theorem toList_map (names : Table String String) (signature : String) :
    (map names signature).toList = mappedFrom (renamed names) none signature.toList := by
  simp [map, render, segments, mappedFrom]

variable (names : String → String)

theorem mappedFrom_plain {chars : List Char} (plain : 'L' ∉ chars) (rest : List Char) :
    mappedFrom names none (chars ++ rest) = chars ++ mappedFrom names none rest := by
  simp [mappedFrom, scan_plain plain, Segment.rename, Segment.chars, List.flatMap_map]

theorem mappedFrom_letter (rest : List Char) :
    mappedFrom names none ('L' :: rest) = 'L' :: mappedFrom names (some []) rest := by
  simp [mappedFrom, scan, Segment.rename, Segment.chars]

theorem mappedFrom_unbroken {chars : List Char} (unbroken : Unbroken chars)
    (pending rest : List Char) :
    mappedFrom names (some pending) (chars ++ rest) =
      mappedFrom names (some (chars.reverse ++ pending)) rest := by
  rw [mappedFrom, scan_unbroken unbroken, mappedFrom]

theorem mappedFrom_stop {char : Char} (ends : endsName char = true) (pending rest : List Char) :
    mappedFrom names (some pending) (char :: rest) =
      (names (String.ofList pending.reverse)).toList ++ char :: mappedFrom names none rest := by
  simp [mappedFrom, scan, ends, Segment.rename, Segment.chars]

/-- The scan is as far as the spans: the open name has the characters of the open stretch. -/
def pendingChars (front : List Token) : List Char := (front.flatMap (Token.chars id)).reverse

def NoClassName (front : List Token) : Prop := ∀ text, Token.className text ∉ front

theorem flatMap_chars_of_noClassName {front : List Token} (free : NoClassName front) :
    front.flatMap (Token.chars id) = front.flatMap (Token.chars names) := by
  refine List.flatMap_congr fun token member => ?_
  cases token with
  | mark char => rfl
  | className text => exact absurd member (free text)
  | identifier text => rfl

theorem mappedFrom_token (token : Token) (front : List Token)
    (unbroken : Unbroken (token.chars id)) (rest : List Char) :
    mappedFrom names (some (pendingChars front)) (token.chars id ++ rest) =
      mappedFrom names (some (pendingChars (front ++ [token]))) rest := by
  rw [mappedFrom_unbroken names unbroken]
  simp [pendingChars]

theorem ne_letter_of_endsName {char : Char} (ends : endsName char = true) : char ≠ 'L' := by
  rintro rfl
  exact absurd ends (by decide)

theorem Stops.exists_mark {rest : List Token} (stops : Stops rest) :
    ∃ char more, rest = .mark char :: more ∧ endsName char = true := by
  cases rest with
  | nil => exact stops.elim
  | cons token more =>
      cases token with
      | mark char => exact ⟨char, more, rfl, stops⟩
      | className text => exact stops.elim
      | identifier text => exact stops.elim

/-- Where a name ends, the open name is looked up and the scan starts afresh. -/
theorem mappedFrom_stops {rest : List Token} (stops : Stops rest) (pending : List Char) :
    mappedFrom names (some pending) (rest.flatMap (Token.chars id)) =
      (names (String.ofList pending.reverse)).toList ++
        mappedFrom names none (rest.flatMap (Token.chars id)) := by
  rcases stops.exists_mark with ⟨char, more, rfl, ends⟩
  have plain : 'L' ∉ [char] := by simpa using (ne_letter_of_endsName ends).symm
  have copied := mappedFrom_plain names plain (more.flatMap (Token.chars id))
  simp only [List.flatMap_cons, Token.chars]
  rw [copied]
  exact mappedFrom_stop names ends pending _

theorem spans_stops {rest : List Token} (stops : Stops rest) (front : List Token) :
    (spans (some front) rest).flatMap (Span.mapped names) =
      (names (spell id front)).toList ++ (spans none rest).flatMap (Span.mapped names) := by
  rcases stops.exists_mark with ⟨char, more, rfl, ends⟩
  simp [spans, ends, Span.mapped, Token.chars]

theorem unbroken_mark {char : Char} (more : ¬ endsName char = true) :
    Unbroken ((Token.mark char).chars names) := by
  simpa [Unbroken, Token.chars] using more

theorem unbroken_className {text : String} (unbroken : Unbroken (names text).toList) :
    Unbroken ((Token.className text).chars names) := by
  intro char member
  rcases List.mem_cons.mp member with letter | inside
  · rw [letter]
    decide
  · exact unbroken char inside

/-- Mapping the text of the tokens looks up their spans, wherever the scan stands. -/
def ReadInSpans (tokens : List Token) : Prop :=
  ∀ state : Option (List Token), (∀ front ∈ state, NoClassName front) →
    mappedFrom names (state.map pendingChars) (tokens.flatMap (Token.chars id)) =
      (spans state tokens).flatMap (Span.mapped names)

variable {names}

theorem ReadInSpans.nil : ReadInSpans names [] := by
  intro state free
  cases state with
  | none => rfl
  | some front =>
      have same := flatMap_chars_of_noClassName names (free front rfl)
      simp [mappedFrom, scan, spans, Segment.rename, Segment.chars, List.flatMap_map,
        pendingChars, Span.mapped, same]

theorem ReadInSpans.mark {char : Char} {rest : List Token} (plain : char ≠ 'L')
    (read : ReadInSpans names rest) : ReadInSpans names (.mark char :: rest) := by
  intro state free
  have fresh := read none (by simp)
  cases state with
  | none =>
      have copied := mappedFrom_plain names (by simpa using plain.symm : 'L' ∉ [char])
        (rest.flatMap (Token.chars id))
      simpa [spans, Span.mapped, Token.chars, ← fresh] using copied
  | some front =>
      by_cases ends : endsName char = true
      · have stopped := mappedFrom_stop names ends (pendingChars front)
          (rest.flatMap (Token.chars id))
        simpa [spans, ends, Span.mapped, Token.chars, pendingChars, spell, ← fresh]
          using stopped
      · have longer := read (some (front ++ [.mark char])) (by
          simpa [NoClassName] using free front rfl)
        have taken := mappedFrom_token names (.mark char) front
          (unbroken_mark id ends) (rest.flatMap (Token.chars id))
        simpa [spans, ends, ← longer] using taken

theorem ReadInSpans.className {text : String} {rest : List Token}
    (unbroken : Unbroken text.toList) (stops : Stops rest) (read : ReadInSpans names rest) :
    ReadInSpans names (.className text :: rest) := by
  intro state _
  have fresh := read none (by simp)
  cases state with
  | none =>
      have opened := mappedFrom_letter names (text.toList ++ rest.flatMap (Token.chars id))
      rw [mappedFrom_unbroken names unbroken, mappedFrom_stops names stops] at opened
      simpa [spans, Span.mapped, Token.chars, ← fresh] using opened
  | some front =>
      -- The stretch takes the class name in and ends where the class name ends.
      have taken := mappedFrom_token names (.className text) front
        (unbroken_className id unbroken) (rest.flatMap (Token.chars id))
      rw [mappedFrom_stops names stops] at taken
      simpa [spans, spans_stops names stops, ← fresh, pendingChars, spell] using taken

theorem ReadInSpans.identifier {text : String} {rest : List Token}
    (unbroken : Unbroken text.toList) (read : ReadInSpans names rest) :
    ReadInSpans names (.identifier text :: rest) := by
  intro state free
  cases state with
  | none =>
      cases found : opening text.toList with
      | none =>
          have copied := mappedFrom_plain names (opening_none found)
            (rest.flatMap (Token.chars id))
          have fresh := read none (by simp)
          simpa [spans, found, Span.mapped, Token.chars, ← fresh] using copied
      | some parts =>
          rcases parts with ⟨before, after⟩
          rcases opening_some found with ⟨plain, absent, equal, split⟩
          have later := unbroken_opening found unbroken
          have inside := read (some [.identifier (String.ofList after)]) (by simp [NoClassName])
          have copied := mappedFrom_plain names absent
            ('L' :: (after ++ rest.flatMap (Token.chars id)))
          rw [mappedFrom_letter, mappedFrom_unbroken names later] at copied
          rw [spans_opened found, List.flatMap_cons, List.flatMap_cons, ← inside]
          simpa [Span.mapped, Token.chars, pendingChars, split, equal] using copied
  | some front =>
      have longer := read (some (front ++ [.identifier text])) (by
        simpa [NoClassName] using free front rfl)
      have taken := mappedFrom_token names (.identifier text) front unbroken
        (rest.flatMap (Token.chars id))
      simpa [spans, ← longer] using taken

theorem Delimited.readInSpans {tokens : List Token} (delimited : Delimited tokens) :
    ReadInSpans names tokens := by
  induction delimited with
  | nil => exact .nil
  | mark plain _ ih => exact ih.mark plain
  | className unbroken stops _ ih => exact ih.className unbroken stops
  | identifier unbroken _ ih => exact ih.identifier unbroken

end Scan

section Exactness

variable {names : String → String}

/-- Stretches hold no end of a name before their own. -/
def Span.Closed (names : String → String) : Span → Prop
  | .single _ => True
  | .stretch tokens stop =>
      endsName stop = true ∧ Unbroken (tokens.flatMap (Token.chars names))

theorem unbroken_concat {front : List Token} (token : Token)
    (first : Unbroken (front.flatMap (Token.chars names)))
    (second : Unbroken (token.chars names)) :
    Unbroken ((front ++ [token]).flatMap (Token.chars names)) := by
  rw [List.flatMap_append, List.flatMap_singleton, unbroken_append]
  exact ⟨first, second⟩

theorem closed_spans (kept : ∀ text, Unbroken text.toList → Unbroken (names text).toList)
    {tokens : List Token} (delimited : Delimited tokens) (state : Option (List Token))
    (inside : ∀ front ∈ state, Unbroken (front.flatMap (Token.chars names))) :
    ∀ span ∈ spans state tokens, span.Closed names := by
  induction delimited generalizing state with
  | nil =>
      cases state with
      | none => simp [spans]
      | some front => simp [spans, Span.Closed]
  | @mark char rest _ _ ih =>
      cases state with
      | none => simpa [spans, Span.Closed] using ih none (by simp)
      | some front =>
          by_cases ends : endsName char = true
          · have here : Unbroken (front.flatMap (Token.chars names)) := inside front rfl
            simpa [spans, ends, Span.Closed, here] using ih none (by simp)
          · have longer := ih (some (front ++ [.mark char])) (by
              simpa using unbroken_concat _ (inside front rfl) (unbroken_mark names ends))
            simpa [spans, ends] using longer
  | @className text rest unbroken _ _ ih =>
      cases state with
      | none => simpa [spans, Span.Closed] using ih none (by simp)
      | some front =>
          have longer := ih (some (front ++ [.className text])) (by
            simpa using unbroken_concat _ (inside front rfl)
              (unbroken_className names (kept text unbroken)))
          simpa [spans] using longer
  | @identifier text rest unbroken _ ih =>
      cases state with
      | none =>
          cases found : opening text.toList with
          | none => simpa [spans, found, Span.Closed] using ih none (by simp)
          | some parts =>
              rcases parts with ⟨before, after⟩
              have later := unbroken_opening found unbroken
              have opened := ih (some [.identifier (String.ofList after)]) (by
                simpa [Token.chars] using later)
              simpa [spans_opened found, Span.Closed] using opened
      | some front =>
          have longer := ih (some (front ++ [.identifier text])) (by
            simpa using unbroken_concat (.identifier text) (inside front rfl) unbroken)
          simpa [spans] using longer

/-- The span is looked up as its own text with the class names in it renamed. -/
def Span.Agrees (names : String → String) : Span → Prop
  | .single _ => True
  | .stretch tokens _ => names (spell id tokens) = spell names tokens

instance (names : String → String) (span : Span) : Decidable (span.Agrees names) :=
  match span with
  | .single _ => isTrue trivial
  | .stretch tokens _ => inferInstanceAs (Decidable (names (spell id tokens) = spell names tokens))

theorem Span.Agrees.mapped_eq {span : Span} (agrees : span.Agrees names) :
    span.mapped names = span.chars names := by
  cases span with
  | single token => rfl
  | stretch tokens stop =>
      have looked : names (spell id tokens) = spell names tokens := agrees
      rw [Span.mapped, looked, Span.chars, spell, String.toList_ofList]

theorem parts_of_append_eq {first second firstRest secondRest : List Char} {stop : Char}
    (ends : endsName stop = true) (firstWhole : Unbroken first) (secondWhole : Unbroken second)
    (equal : first ++ stop :: firstRest = second ++ stop :: secondRest) :
    first = second ∧ firstRest = secondRest := by
  induction first generalizing second with
  | nil =>
      cases second with
      | nil => exact ⟨rfl, (List.cons.inj equal).2⟩
      | cons char more =>
          have inside := secondWhole char List.mem_cons_self
          rw [← (List.cons.inj equal).1, ends] at inside
          simp at inside
  | cons char more ih =>
      have firstLater := (List.forall_mem_cons.mp firstWhole).2
      cases second with
      | nil =>
          have inside := firstWhole char List.mem_cons_self
          rw [(List.cons.inj equal).1, ends] at inside
          simp at inside
      | cons other rest =>
          have secondLater := (List.forall_mem_cons.mp secondWhole).2
          have later := ih firstLater secondLater (List.cons.inj equal).2
          rw [(List.cons.inj equal).1, later.1]
          exact ⟨rfl, later.2⟩

/-- Spans that give the same text together agree one by one, as the end of a stretch shows
in the text. -/
theorem agrees_of_flatMap_eq
    (kept : ∀ text, Unbroken text.toList → Unbroken (names text).toList)
    {items : List Span} (unchanged : ∀ span ∈ items, span.Closed id)
    (changed : ∀ span ∈ items, span.Closed names)
    (equal : items.flatMap (Span.mapped names) = items.flatMap (Span.chars names)) :
    ∀ span ∈ items, span.Agrees names := by
  induction items with
  | nil => simp
  | cons first rest ih =>
      simp only [List.forall_mem_cons] at unchanged changed ⊢
      cases first with
      | single token =>
          have behind := List.append_cancel_left equal
          exact ⟨trivial, ih unchanged.2 changed.2 behind⟩
      | stretch tokens stop =>
          have ends : endsName stop = true := unchanged.1.1
          have looked : Unbroken (names (spell id tokens)).toList :=
            kept _ (by simpa [spell] using unchanged.1.2)
          have parts := parts_of_append_eq ends looked changed.1.2 (by
            simpa [Span.mapped, Span.chars] using equal)
          have same : names (spell id tokens) = spell names tokens := by
            rw [← String.toList_inj, parts.1]
            simp [spell]
          exact ⟨same, ih unchanged.2 changed.2 parts.2⟩

/-- Without an `L` in an identifier there are no stretches. -/
theorem agrees_of_no_letter {tokens : List Token}
    (free : ∀ text, .identifier text ∈ tokens → 'L' ∉ text.toList) :
    ∀ span ∈ spans none tokens, span.Agrees names := by
  induction tokens with
  | nil => simp [spans]
  | cons token rest ih =>
      have later := ih fun text member => free text (.tail _ member)
      cases token with
      | mark char => simpa [spans, Span.Agrees] using later
      | className text => simpa [spans, Span.Agrees] using later
      | identifier text =>
          have absent : 'L' ∉ text.toList := free text List.mem_cons_self
          cases found : opening text.toList with
          | none => simpa [spans, found, Span.Agrees] using later
          | some parts =>
              rcases opening_some found with ⟨plain, _, equal, split⟩
              exact absurd (by simp [split, equal]) absent

end Exactness

/-- The text of a signature in which class names are renamed outside of stretches, and
stretches as a whole. -/
def Generic.scanned (names : String → String) (signature : Generic) : String :=
  String.ofList ((spans none signature.tokens).flatMap (Span.mapped names))

/-- Every stretch is looked up as its own text with the class names in it renamed. -/
def Generic.Undisturbed (names : String → String) (signature : Generic) : Prop :=
  ∀ span ∈ spans none signature.tokens, span.Agrees names

instance (names : String → String) (signature : Generic) :
    Decidable (signature.Undisturbed names) :=
  inferInstanceAs (Decidable (∀ span ∈ spans none signature.tokens, span.Agrees names))

theorem map_eq_scanned (names : Table String String) (signature : Generic) :
    map names (signature.text id) = signature.scanned (renamed names) := by
  have whole : ReadInSpans (renamed names) signature.tokens := signature.delimited.readInSpans
  have read := congrArg String.ofList (whole none (by simp))
  simpa [map, render, segments, Generic.text, Generic.scanned, spell, mappedFrom] using read

theorem scanned_of_undisturbed {names : String → String} {signature : Generic}
    (undisturbed : signature.Undisturbed names) :
    signature.scanned names = signature.text names := by
  have same := List.flatMap_congr fun span member => (undisturbed span member).mapped_eq
  rw [Generic.scanned, same, flatMap_chars_spans]
  rfl

theorem undisturbed_of_scanned {names : String → String} {signature : Generic}
    (kept : ∀ text, Unbroken text.toList → Unbroken (names text).toList)
    (equal : signature.scanned names = signature.text names) :
    signature.Undisturbed names := by
  have spelled := flatMap_chars_spans names none signature.tokens
  rw [Generic.scanned, Generic.text, spell, String.ofList_inj] at equal
  exact agrees_of_flatMap_eq kept
    (closed_spans (fun _ unbroken => unbroken) signature.delimited none (by simp))
    (closed_spans kept signature.delimited none (by simp))
    (equal.trans spelled.symm)

theorem unbroken_renamed {names : Table String String}
    (targets : ∀ entry ∈ names.entries, Unbroken entry.2.toList) (text : String)
    (unbroken : Unbroken text.toList) : Unbroken (renamed names text).toList := by
  cases found : names.get? text with
  | none => simpa [renamed, found] using unbroken
  | some target =>
      have member := (names.get?_eq_some_iff).mp found
      simpa [renamed, found] using targets _ member

/-- Mapping looks up the class names outside of stretches, and the stretches. It renames the
class names of the signature and nothing else if every stretch is looked up as its own text
with the class names in it renamed, so certainly if no identifier has an `L`. If no entry of
the table brings in the end of a name, it does so only then. -/
theorem map_generic (names : Table String String) (signature : Generic) :
    map names (signature.text id) = signature.scanned (renamed names) ∧
    (signature.Undisturbed (renamed names) →
      map names (signature.text id) = signature.text (renamed names)) ∧
    ((∀ text, .identifier text ∈ signature.tokens → 'L' ∉ text.toList) →
      map names (signature.text id) = signature.text (renamed names)) ∧
    ((∀ entry ∈ names.entries, Unbroken entry.2.toList) →
      map names (signature.text id) = signature.text (renamed names) →
      signature.Undisturbed (renamed names)) := by
  rw [map_eq_scanned]
  constructor
  · rfl
  constructor
  · exact scanned_of_undisturbed
  constructor
  · intro free
    exact scanned_of_undisturbed (agrees_of_no_letter free)
  · intro targets equal
    exact undisturbed_of_scanned (unbroken_renamed targets) equal

/-- The signature `<VALUE:La;>Lb<TLeft;>.Link;` of a class. -/
def crowded : Generic :=
  .ofClass
    [⟨⟨"VALUE", by decide, by simp⟩,
      some (.ofClass (.mk ⟨[], ⟨"a", by decide, by simp⟩⟩ [] [])), []⟩]
    (.mk ⟨[], ⟨"b", by decide, by simp⟩⟩
      [.type none (.typeVariable ⟨"Left", by decide, by simp⟩)]
      [.mk ⟨"Link", by decide, by simp⟩ []])
    []

theorem map_generic_crowded :
    crowded.text id = "<VALUE:La;>Lb<TLeft;>.Link;" ∧
      map (Table.ofList [("b", "x/B")]) (crowded.text id) = "<VALUE:La;>Lx/B<TLeft;>.Link;" ∧
      crowded.Undisturbed (renamed (Table.ofList [("b", "x/B")])) := by
  have results := map_generic (Table.ofList [("b", "x/B")]) crowded
  have mapped := results.2.1 (by decide +kernel)
  have undisturbed := results.2.2.2 (by decide +kernel) mapped
  exact ⟨by decide +kernel, mapped.trans (by decide +kernel), undisturbed⟩

/-- The bound of the formal parameter is read as the rest of the parameter's name. -/
theorem generic_not_always_mapped :
    ¬ ∀ (names : Table String String) (signature : Generic),
      map names (signature.text id) = signature.text (renamed names) := by
  intro always
  have mapped := always (Table.ofList [("a", "com/example/A")]) crowded
  exact absurd mapped (by decide +kernel)

end Deobfuscation.Signature
