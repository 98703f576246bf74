import Deobfuscation.Mapping.Dialect
import Deobfuscation.Text.Cut

/-!
The arguments of the program. Options are `--long`, `--long=value`, `-s` or a cluster
of short ones, where the first one with a value takes the rest of the cluster. No
option is given twice, and a value does not look like an option.
-/

namespace Deobfuscation.CommandLine

open Text

inductive Key where
  | mappings
  | format
  | input
  | output
  | copyResources
  | threads
  | verbose
  | help
  deriving DecidableEq, Repr

structure Spec where
  key : Key
  short : Option Char
  long : String
  takesValue : Bool
  deriving DecidableEq, Repr

/-- Options that stand before or after the command. -/
def globalSpecs : List Spec :=
  [⟨.verbose, some 'v', "verbose", false⟩, ⟨.help, some 'h', "help", false⟩]

def checkSpecs : List Spec :=
  [⟨.mappings, some 'm', "mappings", true⟩, ⟨.format, some 'f', "format", true⟩] ++ globalSpecs

def renameSpecs : List Spec :=
  [⟨.input, some 'i', "input", true⟩, ⟨.output, some 'o', "output", true⟩,
    ⟨.copyResources, none, "copy-resources", false⟩,
    ⟨.threads, some 't', "threads", true⟩] ++ checkSpecs

inductive Refusal where
  | usage
  | help
  deriving DecidableEq, Repr

structure RenameOptions where
  mappings : String
  dialect : Mapping.Dialect
  input : String
  output : String
  copyResources : Bool
  threads : Option Nat
  deriving DecidableEq, Repr

inductive Command where
  | rename (options : RenameOptions)
  | check (mappings : String) (dialect : Mapping.Dialect)
  deriving DecidableEq, Repr

structure Invocation where
  verbose : Bool
  command : Command
  deriving DecidableEq, Repr

def dialect? (name : String) : Option Mapping.Dialect :=
  if name = "proguard" then some .proguard else if name = "srg" then some .srg else none

/-- A number of at most 64 bits, which may have a plus sign. -/
def number? (text : String) : Option Nat :=
  let digits := match text.toList with
    | '+' :: rest => rest
    | all => all
  let value := digits.foldl (fun value digit => value * 10 + (digit.toNat - '0'.toNat)) 0
  let isNumber := !digits.isEmpty && digits.all Char.isDigit
  if isNumber && value ≤ 0xFFFFFFFFFFFFFFFF then some value else none

/-- The value fits the option. Paths are never empty. -/
def Spec.accepts (spec : Spec) (value : String) : Bool :=
  match spec.key with
  | .format => (dialect? value).isSome
  | .threads => (number? value).isSome
  | .mappings | .input | .output => value ≠ ""
  | .copyResources | .verbose | .help => true

abbrev Given := List (Key × String)

def Given.value? (given : Given) (key : Key) : Option String := given.lookup key

def Given.has (given : Given) (key : Key) : Bool := (given.value? key).isSome

def give (spec : Spec) (value : String) (given : Given) : Except Refusal Given :=
  if spec.key = .help then .error .help
  else if given.has spec.key || !spec.accepts value then .error .usage
  else .ok ((spec.key, value) :: given)

/-- Takes in a cluster of short options. The last one may wait for its value. -/
def cluster (specs : List Spec) (given : Given) :
    List Char → Except Refusal (Given × Option Spec)
  | [] => .ok (given, none)
  | char :: rest =>
      match specs.find? fun spec => spec.short = some char with
      | none => .error .usage
      | some spec =>
          if spec.takesValue then
            match rest with
            | [] => .ok (given, some spec)
            | '=' :: value => (give spec (String.ofList value) given).map (·, none)
            | value => (give spec (String.ofList value) given).map (·, none)
          else do cluster specs (← give spec "" given) rest

def long (specs : List Spec) (given : Given) (text : List Char) :
    Except Refusal (Given × Option Spec) :=
  let (name, value) := match cut? ['='] text with
    | some (name, value) => (name, some (String.ofList value))
    | none => (text, none)
  match specs.find? fun spec => spec.long.toList = name with
  | none => .error .usage
  | some spec =>
      match spec.takesValue, value with
      | true, none => .ok (given, some spec)
      | true, some value => (give spec value given).map (·, none)
      | false, none => (give spec "" given).map (·, none)
      | false, some _ => .error .usage

/-- Starts with a hyphen and is not only that. -/
def looksLikeOption (token : String) : Bool :=
  match token.toList with
  | '-' :: _ :: _ => true
  | _ => false

/-- Takes in one token where an option has to stand. A hyphen alone is none. -/
def option (specs : List Spec) (given : Given) (token : String) :
    Except Refusal (Given × Option Spec) :=
  match token.toList with
  | ['-'] | ['-', '-'] => .error .usage
  | '-' :: '-' :: text => long specs given text
  | '-' :: text => cluster specs given text
  | _ => .error .usage

/-- Takes in the tokens after a command. There are no arguments but options, so two hyphens, after
which no option can stand, can only come last. -/
def scan (specs : List Spec) : Option Spec → Given → List String → Except Refusal Given
  | none, given, [] => .ok given
  | some _, _, [] => .error .usage
  | some spec, given, token :: rest =>
      if looksLikeOption token then .error .usage
      else do scan specs none (← give spec token given) rest
  | none, given, token :: rest =>
      if token = "--" && rest.isEmpty then .ok given
      else do
        let (given, pending) ← option specs given token
        scan specs pending given rest

def Given.required (given : Given) (key : Key) : Except Refusal String :=
  match given.value? key with
  | some value => .ok value
  | none => .error .usage

def Given.dialect (given : Given) : Mapping.Dialect :=
  ((given.value? .format).bind dialect?).getD .proguard

def renameCommand (tokens : List String) : Except Refusal Invocation := do
  let given ← scan renameSpecs none [] tokens
  let options : RenameOptions := {
    mappings := ← given.required .mappings
    dialect := given.dialect
    input := ← given.required .input
    output := ← given.required .output
    copyResources := given.has .copyResources
    threads := (given.value? .threads).bind number? }
  return ⟨given.has .verbose, .rename options⟩

def checkCommand (tokens : List String) : Except Refusal Invocation := do
  let given ← scan checkSpecs none [] tokens
  return ⟨given.has .verbose, .check (← given.required .mappings) given.dialect⟩

def helpCommand : List String → Refusal
  | [] => .help
  | [name] => if name ∈ ["remap", "check", "help"] then .help else .usage
  | _ => .usage

/-- Takes in options before the command, and then the command. -/
def parseWith (given : Given) : List String → Except Refusal Invocation
  | [] => .error .usage
  | token :: rest =>
      if looksLikeOption token then do
        let (given, _) ← option globalSpecs given token
        parseWith given rest
      else
        let verbosely (invocation : Invocation) : Invocation :=
          { invocation with verbose := invocation.verbose || given.has .verbose }
        if token = "remap" then (renameCommand rest).map verbosely
        else if token = "check" then (checkCommand rest).map verbosely
        else if token = "help" then .error (helpCommand rest)
        else .error .usage

def parse (arguments : List String) : Except Refusal Invocation := parseWith [] arguments

end Deobfuscation.CommandLine
