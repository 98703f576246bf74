import Deobfuscation.Mapping.Basic
import Deobfuscation.Mapping.Fault
import Deobfuscation.Mapping.Line
import Deobfuscation.Mapping.Proguard.Line

/-!
The Proguard dialect. A class line is followed by all field lines of the class and
then by all its method lines. Empty lines and comments count for the numbering
only. The first line that does not fit ends the reading.
-/

namespace Deobfuscation.Mapping.Proguard

/-- A line that is neither empty nor a comment. -/
def isRelevant (line : Line) : Bool :=
  match line.text.map String.toList with
  | some [] => false
  | some (first :: _) => first ≠ '#'
  | none => true

def takeFields (mapping : ClassMapping) : List Line → Except Fault (ClassMapping × List Line)
  | [] => .ok (mapping, [])
  | line :: rest =>
      match line.text with
      | none => .error (.unreadable line.number)
      | some text =>
          match fieldLine? text with
          | some field => takeFields (mapping.addField field.obfuscated field.original) rest
          | none => .ok (mapping, line :: rest)

def takeMethods (mapping : ClassMapping) : List Line → Except Fault (ClassMapping × List Line)
  | [] => .ok (mapping, [])
  | line :: rest =>
      match line.text with
      | none => .error (.unreadable line.number)
      | some text =>
          match methodLine? text with
          | some method =>
              takeMethods (mapping.addMethod method.obfuscated method.descriptor method.original)
                rest
          | none => .ok (mapping, line :: rest)

theorem takeFields_length {mapping result : ClassMapping} {lines rest : List Line}
    (taken : takeFields mapping lines = .ok (result, rest)) : rest.length ≤ lines.length := by
  induction lines generalizing mapping with
  | nil => cases taken; exact Nat.le_refl _
  | cons line lines ih =>
      simp only [takeFields] at taken
      split at taken
      · cases taken
      · split at taken
        · exact Nat.le_trans (ih taken) (Nat.le_succ _)
        · cases taken; exact Nat.le_refl _

theorem takeMethods_length {mapping result : ClassMapping} {lines rest : List Line}
    (taken : takeMethods mapping lines = .ok (result, rest)) : rest.length ≤ lines.length := by
  induction lines generalizing mapping with
  | nil => cases taken; exact Nat.le_refl _
  | cons line lines ih =>
      simp only [takeMethods] at taken
      split at taken
      · cases taken
      · split at taken
        · exact Nat.le_trans (ih taken) (Nat.le_succ _)
        · cases taken; exact Nat.le_refl _

def ClassLine.mapping (line : ClassLine) : ClassMapping :=
  { originalName := SourceType.internalName line.original
    obfuscatedName := SourceType.internalName line.obfuscated }

/-- Reads relevant lines, class after class. -/
def readClasses : List Line → Except Fault (List ClassMapping)
  | [] => .ok []
  | line :: rest =>
      match line.text with
      | none => .error (.unreadable line.number)
      | some text =>
          match classLine? text with
          | none => .error (.malformed line.number (.unexpected text))
          | some header =>
              match fields : takeFields header.mapping rest with
              | .error fault => .error fault
              | .ok (mapping, rest) =>
                  have := takeFields_length fields
                  match methods : takeMethods mapping rest with
                  | .error fault => .error fault
                  | .ok (mapping, rest) =>
                      have := takeMethods_length methods
                      (readClasses rest).map (mapping :: ·)
termination_by lines => lines.length
decreasing_by simp only [List.length_cons]; omega

def parse (bytes : List UInt8) : Except Fault (List ClassMapping) :=
  readClasses ((Line.ofBytes bytes).filter isRelevant)

end Deobfuscation.Mapping.Proguard
