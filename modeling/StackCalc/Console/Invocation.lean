/-
  StackCalc.Console.Invocation
  ────────────────────────────
  **WHAT THE COMMAND LINE ASKS FOR.**

      run FILE [--step-over] [--max-steps N]
      debug FILE
      list FILE
      help [COMMAND]

  Arguments are read from left to right.  The first that cannot be accepted makes
  the command line a misuse of the program, unless help was asked for before it.
  `--` ends the options, and a lone `-` is a file.
-/
import StackCalc.Machine.Step

namespace StackCalc.Console

/-! ## §1. Invocations. -/

/-- The number of steps that a run may make unless a limit is given. -/
def defaultLimit : Nat := 1000000

/-- What is to be done, and with which file. -/
inductive Invocation where
  | run (file : String) (strategy : Strategy) (limit : Nat)
  | debug (file : String)
  | list (file : String)
  deriving DecidableEq, Repr

/-- Why a command line asks for nothing to be done. -/
inductive Usage where
  /-- It asks for help. -/
  | help
  /-- It is not understood. -/
  | misuse
  deriving DecidableEq, Repr

/-- The exit code when nothing is to be done. -/
def Usage.code : Usage → Nat
  | help => 0
  | misuse => 1

namespace Invocation

/-! ## §2. Limits. -/

/-- The largest limit that can be given. -/
def maxLimit : Nat := Nat.pow 2 64 - 1

/-- A limit: digits, a plus sign allowed before them. -/
def limit? (s : String) : Option Nat :=
  let digits :=
    match s.toList with
    | '+' :: cs => cs
    | cs => cs
  if digits ≠ [] ∧ digits.all Char.isDigit then
    let n := Nat.ofDigitChars 10 digits 0
    if n ≤ maxLimit then some n else none
  else none

/-! ## §3. Commands and their arguments. -/

/-- The commands that take a file. -/
inductive Verb where
  | run
  | debug
  | list
  deriving DecidableEq, Repr

/-- What the arguments of a command have said so far. -/
structure Settings where
  file : Option String := none
  stepOver : Bool := false
  limit : Option Nat := none

namespace Settings

/-- Takes a file, which is not empty and the only one. -/
def addFile (s : Settings) (file : String) : Except Usage Settings :=
  if file = "" ∨ s.file.isSome then .error .misuse else .ok { s with file := some file }

/-- Takes the wish to step over calls, once. -/
def addStepOver (s : Settings) : Except Usage Settings :=
  if s.stepOver then .error .misuse else .ok { s with stepOver := true }

/-- Takes a limit, once. -/
def addLimit (s : Settings) (text : String) : Except Usage Settings :=
  match s.limit, limit? text with
  | none, some n => .ok { s with limit := some n }
  | _, _ => .error .misuse

/-- Takes the arguments after `--`, which are all files. -/
def addFiles (s : Settings) : List String → Except Usage Settings
  | [] => .ok s
  | file :: rest =>
    match s.addFile file with
    | .error usage => .error usage
    | .ok s => s.addFiles rest

end Settings

/-- Whether an argument asks for help. -/
def asksForHelp (argument : String) : Bool :=
  argument = "--help" ∨ ['-', 'h'].isPrefixOf argument.toList

/-- Whether an argument is an option of some kind: it begins with a hyphen and
does not end there. -/
def isOption (argument : String) : Bool :=
  match argument.toList with
  | '-' :: _ :: _ => true
  | _ => false

/-- The text after `--max-steps=` in an argument of this form. -/
def joinedLimit? (argument : String) : Option String :=
  let start := "--max-steps=".toList
  let cs := argument.toList
  if start.isPrefixOf cs then some (String.ofList (cs.drop start.length)) else none

/-- Reads the arguments of a command. -/
def settings (verb : Verb) (s : Settings) : List String → Except Usage Settings
  | [] => .ok s
  | argument :: rest =>
    if argument = "--" then s.addFiles rest
    else if asksForHelp argument then .error .help
    else if verb = .run ∧ argument = "--step-over" then
      match s.addStepOver with
      | .error usage => .error usage
      | .ok s => settings verb s rest
    else if verb = .run ∧ argument = "--max-steps" then
      match rest with
      | [] => .error .misuse
      | text :: rest =>
        match s.addLimit text with
        | .error usage => .error usage
        | .ok s => settings verb s rest
    else
      match joinedLimit? argument, verb with
      | some text, .run =>
        match s.addLimit text with
        | .error usage => .error usage
        | .ok s => settings verb s rest
      | _, _ =>
        if isOption argument then .error .misuse
        else
          match s.addFile argument with
          | .error usage => .error usage
          | .ok s => settings verb s rest

/-- The invocation that a command and its settings make; a file has to be among
them. -/
def ofSettings (verb : Verb) (s : Settings) : Except Usage Invocation :=
  match s.file with
  | none => .error .misuse
  | some file =>
    match verb with
    | .run =>
      .ok (run file (if s.stepOver then .over else .into) (s.limit.getD defaultLimit))
    | .debug => .ok (debug file)
    | .list => .ok (list file)

/-! ## §4. Command lines. -/

/-- The command of a name. -/
def verb? (s : String) : Option Verb :=
  if s = "run" then some .run
  else if s = "debug" then some .debug
  else if s = "list" then some .list
  else none

/-- What `help` and the words after it ask for: help on everything or on one
command. -/
def helpOn : List String → Usage
  | [] => .help
  | [s] => if s = "help" ∨ (verb? s).isSome then .help else .misuse
  | _ => .misuse

/-- What a command line asks for. -/
def parse : List String → Except Usage Invocation
  | [] => .error .misuse
  | word :: rest =>
    match verb? word with
    | some verb =>
      match settings verb {} rest with
      | .error usage => .error usage
      | .ok s => ofSettings verb s
    | none =>
      if word = "help" then .error (helpOn rest)
      else if asksForHelp word then .error .help
      else .error .misuse

end Invocation

end StackCalc.Console
