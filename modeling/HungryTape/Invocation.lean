import HungryTape.Settings

namespace HungryTape

inductive Invocation where
  | help
  | run (settings : Settings) (files : List String)
deriving DecidableEq, Repr

inductive UsageError where
  | missingValue (flag : String)
  | invalidNumber (flag value : String)
  | unknownFlag (flag : String)
  | noFiles
  | stomachOffTape (stomach capacity : Nat)
deriving DecidableEq, Repr

def UsageError.message : UsageError → String
  | missingValue flag => flag ++ " needs a value"
  | invalidNumber flag value => flag ++ " expects a positive number, got '" ++ value ++ "'"
  | unknownFlag flag => "unknown option '" ++ flag ++ "'"
  | noFiles => "no input file provided"
  | stomachOffTape stomach capacity =>
    "stomach cell " ++ Numeral.decimal stomach ++ " is not on a tape of " ++
      Numeral.decimal capacity ++ " cells"

def usage (program : String) : String :=
  "Usage: " ++ program ++ " [OPTIONS] <FILE>...\n" ++
  "\n" ++
  "Options:\n" ++
  "  --tape-size <N>           cells on the tape (default " ++
    Numeral.decimal defaultTapeSize ++ ")\n" ++
  "  --source-limit <N|none>   longest accepted source in characters (default " ++
    Numeral.decimal defaultSourceLimit ++ ")\n" ++
  "  --stomach <N>             index of the stomach cell (default " ++
    Numeral.decimal defaultStomach ++ ")\n" ++
  "  --tokens                  print each file's tokens before running it\n" ++
  "  -v, -vv, -vvv             more logging (RUST_LOG overrides)\n" ++
  "  -h, --help                show this message"

/-- Digits with an optional plus sign before them, up to the greatest 64-bit word. -/
def natural? (text : String) : Option Nat :=
  (Numeral.unsigned? text.toList).filter (· < 18446744073709551616)

def positive? (text : String) : Option Nat :=
  (natural? text).filter (0 < ·)

/-- A number above zero, or the word `none` for no limit at all. -/
def limit? (text : String) : Option (Option Nat) :=
  if text = "none" then some none else (positive? text).map some

/-- What an argument is by its own text. -/
inductive Argument where
  | help
  | tokens
  | tapeSize
  | stomach
  | sourceLimit
  | louder (steps : Nat)
  | filesOnly
  | unknown
  | file
deriving DecidableEq, Repr

/-- The texts `-` and the empty one are file names. -/
def Argument.ofText (text : String) : Argument :=
  if text = "-h" ∨ text = "--help" then help
  else if text = "--tokens" then tokens
  else if text = "--tape-size" then tapeSize
  else if text = "--stomach" then stomach
  else if text = "--source-limit" then sourceLimit
  else if text = "--" then filesOnly
  else match text.toList with
    | '-' :: c :: rest => if (c :: rest).all (· = 'v') then louder (c :: rest).length else unknown
    | _ => file

namespace Invocation

def finish (settings : Settings) (files : List String) : Except UsageError Invocation :=
  if files.isEmpty then .error .noFiles
  else if settings.stomach < settings.tapeSize then .ok (run settings files)
  else .error (.stomachOffTape settings.stomach settings.tapeSize)

/-- Takes the arguments from left to right: a later setting replaces an earlier one, and the first
error or request for help decides. -/
def parseFrom (settings : Settings) (files : List String) :
    List String → Except UsageError Invocation
  | [] => finish settings files
  | arg :: rest =>
    match Argument.ofText arg with
    | .help => .ok help
    | .tokens => parseFrom { settings with listTokens := true } files rest
    | .louder steps => parseFrom (settings.louder steps) files rest
    | .filesOnly => finish settings (files ++ rest)
    | .unknown => .error (.unknownFlag arg)
    | .file => parseFrom settings (files ++ [arg]) rest
    | .tapeSize =>
      match rest with
      | [] => .error (.missingValue arg)
      | value :: rest =>
        match positive? value with
        | some tapeSize => parseFrom { settings with tapeSize } files rest
        | none => .error (.invalidNumber arg value)
    | .stomach =>
      match rest with
      | [] => .error (.missingValue arg)
      | value :: rest =>
        match natural? value with
        | some stomach => parseFrom { settings with stomach } files rest
        | none => .error (.invalidNumber arg value)
    | .sourceLimit =>
      match rest with
      | [] => .error (.missingValue arg)
      | value :: rest =>
        match limit? value with
        | some sourceLimit => parseFrom { settings with sourceLimit } files rest
        | none => .error (.invalidNumber arg value)

def parse (args : List String) : Except UsageError Invocation :=
  parseFrom {} [] args

end Invocation

end HungryTape
