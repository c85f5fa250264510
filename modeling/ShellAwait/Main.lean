import ShellAwait.Command.Run

/-! # The command -/

namespace ShellAwait.Command

def readErrorOf : IO.Error → ReadError
  | .noFileOrDirectory .. => .notFound
  | .permissionDenied .. => .denied
  | .userError _ => .notText
  | .inappropriateType .. => .isDirectory
  | error => .other (toString error)

def readFile (path : String) : IO (Except ReadError String) := do
  try return .ok (← IO.FS.readFile path)
  catch error => return .error (readErrorOf error)

def readStdin : IO (Except ReadError String) := do
  let bytes ← (← IO.getStdin).readBinToEnd
  return match String.fromUTF8? bytes with
    | some text => .ok text
    | none => .error .notText

def perform (options : Options) : IO UInt32 := do
  let registry ← match options.registry with
    | some path => readFile path
    | none => pure (.ok "")
  let source ← if options.file = "-" then readStdin else readFile options.file
  let result := run options ⟨registry, source⟩
  let stderr ← IO.getStderr
  for line in result.log do stderr.putStrLn line.text
  match result.remark with
  | .text text => stderr.putStr text
  | .report diagnostic color => stderr.putStr (diagnostic.report color)
  IO.print result.output
  return result.status.toUInt32

end ShellAwait.Command

open ShellAwait.Command in
def main (arguments : List String) : IO UInt32 := do
  match Invocation.ofArguments arguments with
  | .run options => perform options
  | .version => IO.print version; return 0
  | .help => IO.print usage; return 0
  | .misused => (← IO.getStderr).putStr usage; return 2
