/-
The command line (`cli/cli.cc`): what the program is started with, as the options
it runs with or the way it exits.

The arguments are those after the program's name. Flags come from a table; the
values are read one after another, and validated together at the end. What `-h`
and `-v` print is left out.
-/
import Loadmaster.Core.Options

set_option autoImplicit false

namespace Loadmaster.Cli

open Loadmaster.Core

/-! ## Reading a value -/

/-- What `std::from_chars` makes of a text: the number it begins with and what
follows, a number that is no `int`, or none. -/
inductive FromChars
  | parsed (value : Int32) (rest : List Char)
  | outOfRange
  | invalid
deriving DecidableEq, Repr

def fromCharsPrefix (text : List Char) : FromChars :=
  let negative := text.head? = some '-'
  let body := if negative then text.tail else text
  let digits := body.takeWhile Char.isDigit
  if digits = [] then .invalid
  else
    let magnitude : ℤ := digits.foldl (fun n c => n * 10 + (c.toNat - '0'.toNat : ℕ)) 0
    let value := if negative then -magnitude else magnitude
    if -2 ^ 31 ≤ value ∧ value < 2 ^ 31 then .parsed (.ofInt value) (body.dropWhile Char.isDigit)
    else .outOfRange

/-- `ReadInt`, once there is a value. -/
def readInt (prompt value : String) : Except String Int32 :=
  match fromCharsPrefix value.toList with
  | .outOfRange =>
    .error s!"[{prompt}] failed to read option, integer out of range: `{value}`"
  | .parsed target [] => .ok target
  | _ => .error s!"[{prompt}] failed to read option, expect an integer, have: `{value}`"

/-! ## The flags -/

/-- `Spec`, less its flag: what to do with the value, unless the flag has none and
ends the parsing. -/
inductive Handler
  | terminal
  | readInt (store : CliArgument → Int32 → CliArgument)
  | readStringView (store : CliArgument → String → CliArgument)

def specs : List (String × Handler) :=
  [("-h", .terminal),
    ("-v", .terminal),
    ("-l", .readInt fun a v => { a with cpu_load := some v }),
    ("-c", .readInt fun a v => { a with cpu_count := some v }),
    ("-m", .readInt fun a v => { a with memory_mb := some v }),
    ("-L", .readStringView fun a v => { a with log_level := some v }),
    ("-ca", .readStringView fun a v => { a with cpu_algorithm := some v }),
    ("-g", .readInt fun a v => { a with gpu_load := some v }),
    ("-gm", .readInt fun a v => { a with gpu_memory_mb := some v }),
    ("-gi", .readStringView fun a v => { a with gpu_indices := some v }),
    ("-gv", .readStringView fun a v => { a with gpu_vendor := some v }),
    ("-ga", .readStringView fun a v => { a with gpu_algorithm := some v })]

inductive StepResult
  | kContinue (cli_args : CliArgument)
  | kExitOk
  | kFail (message : String)
deriving DecidableEq, Repr

/-- `ExtractArguments`. -/
def extractArguments (cli_args : CliArgument) : List String → StepResult
  | [] => .kContinue cli_args
  | [flag] =>
    match specs.lookup flag with
    | none => .kFail s!"unrecognizable option `{flag}`"
    | some .terminal => .kExitOk
    | some _ => .kFail s!"[{flag}] failed to read option, arguments insufficient"
  | flag :: value :: rest =>
    match specs.lookup flag with
    | none => .kFail s!"unrecognizable option `{flag}`"
    | some .terminal => .kExitOk
    | some (.readInt store) =>
      match readInt flag value with
      | .ok target => extractArguments (store cli_args target) rest
      | .error message => .kFail message
    | some (.readStringView store) => extractArguments (store cli_args value) rest

/-- How the program exits at once, with what it logs. -/
inductive Exit
  | success
  | failure (message : String)
deriving DecidableEq, Repr

/-- `ParseCommandLineArguments`: the options to run with, or an exit. -/
def parseCommandLineArguments (core_count : Int32) (arguments : List String) :
    Outcome Exit Options :=
  match extractArguments {} arguments with
  | .kFail message => .failed (.failure message)
  | .kExitOk => .failed .success
  | .kContinue cli_args =>
    match Options.processCliArguments {} cli_args core_count with
    | .ok o => .ok o
    | .failed message => .failed (.failure message)
    | .overflow => .overflow

end Loadmaster.Cli
