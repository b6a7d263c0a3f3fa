import HungryTape.CommandLine

namespace HungryTape

/-- Codes come plain or negated in 32 bits. -/
def osRefusal (code : UInt32) (details : String) : FileRead :=
  let number := if code.toNat < 2147483648 then code.toNat else 4294967296 - code.toNat
  .refused (details.capitalize ++ " (os error " ++ Numeral.decimal number ++ ")")

def ofReadError : IO.Error → FileRead
  | .noFileOrDirectory .. => .missing
  | .alreadyExists _ code details | .otherError code details | .resourceBusy code details
  | .resourceVanished code details | .unsupportedOperation code details
  | .hardwareFault code details | .unsatisfiedConstraints code details
  | .illegalOperation code details | .protocolError code details | .timeExpired code details
  | .interrupted _ code details | .invalidArgument _ code details
  | .permissionDenied _ code details | .resourceExhausted _ code details
  | .inappropriateType _ code details | .noSuchThing _ code details => osRefusal code details
  | e => .refused (toString e)

def readFile (path : String) : IO FileRead := do
  try
    return .contents (← IO.FS.readBinFile path).toList
  catch e =>
    return ofReadError e

/-- Whether a script has an instruction that reads input. -/
def asksForInput : FileRead → Bool
  | .contents bytes => bytes.contains 44 || bytes.contains 38
  | _ => false

def requestedFiles (args : List String) : List String :=
  match Invocation.parse args with
  | .ok (.run _ paths) => paths
  | _ => []

end HungryTape

open HungryTape in
/-- Standard input is left alone unless some script can ask for it. -/
def main (args : List String) : IO UInt32 := do
  let files ← (requestedFiles args).mapM fun path => return (path, ← readFile path)
  let input ←
    if files.any (asksForInput ·.2) then pure (← (← IO.getStdin).readBinToEnd).toList
    else pure []
  let program := (← IO.appPath).toString
  let requested ← IO.getEnv "RUST_LOG"
  let done := CommandLine.run program (fun path => (files.lookup path).getD .missing) input
    requested args
  let out ← IO.getStdout
  out.write (ByteArray.mk done.stdout.toArray)
  out.flush
  let err ← IO.getStderr
  err.write (ByteArray.mk done.stderr.toArray)
  err.flush
  return UInt32.ofNat done.code
