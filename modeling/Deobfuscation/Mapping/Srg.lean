import Deobfuscation.Mapping.Basic
import Deobfuscation.Mapping.Fault
import Deobfuscation.Mapping.Line
import Deobfuscation.Text.Cut

/-!
The SRG dialect. Each line has a tag and fields with single spaces between them:

    CL: a com/example/Main
    FD: a/b com/example/Main/counter
    MD: a/c (La;)V com/example/Main/run (Lcom/example/Main;)V

A class is declared before its members, and a member names the same original class
as the declaration. Package lines mean nothing here, and other lines are passed
over with a warning.
-/

namespace Deobfuscation.Mapping.Srg

open Text

inductive Statement where
  | nothing
  | unknown
  | declare (obfuscated original : String)
  | field (obfuscated original : String)
  | method (obfuscated original descriptor : String)
  deriving DecidableEq, Repr

/-- The fields of a line. Spaces at its end make no empty fields. -/
def fields (text : String) : List String :=
  let trimmed := (text.toList.reverse.dropWhile (· = ' ')).reverse
  (splitAll ' ' trimmed).map String.ofList

def Statement.ofFields : List String → Except LineFault Statement
  | [] => .ok .nothing
  | tag :: operands =>
      if tag = "PK:" then .ok .nothing
      else if tag = "CL:" then
        match operands with
        | [obfuscated, original] => .ok (.declare obfuscated original)
        | _ => .error .fieldCount
      else if tag = "FD:" then
        match operands with
        | [obfuscated, original] => .ok (.field obfuscated original)
        | _ => .error .fieldCount
      else if tag = "MD:" then
        match operands with
        | [obfuscated, _, original, descriptor] => .ok (.method obfuscated original descriptor)
        | _ => .error .fieldCount
      else if tag = "" && operands.isEmpty then .ok .nothing
      else .ok .unknown

def owned? (member : String) : Option (String × String) :=
  (cutLast? '/' member.toList).map fun parts => (String.ofList parts.1, String.ofList parts.2)

/-- The owner of a member that is declared already, and both names of the member. -/
def member (classes : Table String ClassMapping) (obfuscated original : String) :
    Except LineFault (String × String × String) :=
  match owned? obfuscated, owned? original with
  | some (owner, obfuscatedName), some (originalOwner, originalName) =>
      match classes.get? owner with
      | none => .error (.undeclared owner)
      | some mapping =>
          if mapping.originalName = originalOwner then .ok (owner, obfuscatedName, originalName)
          else .error (.ownerMismatch mapping.originalName originalOwner)
  | _, _ => .error .noOwner

structure Progress where
  classes : Table String ClassMapping := .empty
  warnings : List Warning := []

def Progress.step (progress : Progress) (number : Nat) (text : String) :
    Except LineFault Progress := do
  match ← Statement.ofFields (fields text) with
  | .nothing => return progress
  | .unknown => return { progress with warnings := progress.warnings ++ [.skipped number text] }
  | .declare obfuscated original =>
      let classes := progress.classes.insert obfuscated
        { originalName := original, obfuscatedName := obfuscated }
      match progress.classes.get? obfuscated with
      | none => return { progress with classes }
      | some previous =>
          let warning := .redeclared number obfuscated previous.originalName
          return { classes, warnings := progress.warnings ++ [warning] }
  | .field obfuscated original =>
      let (owner, obfuscated, original) ← member progress.classes obfuscated original
      let add (mapping : ClassMapping) := mapping.addField obfuscated original
      return { progress with classes := progress.classes.adjust owner add }
  | .method obfuscated original descriptor =>
      let (owner, obfuscated, original) ← member progress.classes obfuscated original
      let add (mapping : ClassMapping) := mapping.addMethod obfuscated descriptor original
      return { progress with classes := progress.classes.adjust owner add }

/-- Takes in lines up to the first fault. -/
def Progress.run (progress : Progress) : List Line → Progress × Option Fault
  | [] => (progress, none)
  | line :: rest =>
      match line.text with
      | none => (progress, some (.unreadable line.number))
      | some text =>
          match progress.step line.number text with
          | .error fault => (progress, some (.malformed line.number fault))
          | .ok progress => progress.run rest

def parse (bytes : List UInt8) : List Warning × Except Fault (List ClassMapping) :=
  let (progress, fault) := Progress.run {} (Line.ofBytes bytes)
  (progress.warnings, match fault with
    | some fault => .error fault
    | none => .ok progress.classes.values)

end Deobfuscation.Mapping.Srg
