import MailBlocks.CommandLine
import Std.Time.Format

/-!
# The program

The outer layer of the command line: it reads and writes files, prints, reads the clock and draws
random digits. What a command prints and writes is decided by `Command.runArguments`.
-/

namespace MailBlocks.Main

/-- The number of an error of the operating system, and its description. -/
def systemError? : IO.Error → Option (UInt32 × String)
  | .alreadyExists _ code details | .otherError code details | .resourceBusy code details
  | .resourceVanished code details | .unsupportedOperation code details
  | .hardwareFault code details | .unsatisfiedConstraints code details
  | .illegalOperation code details | .protocolError code details | .timeExpired code details
  | .interrupted _ code details | .noFileOrDirectory _ code details
  | .invalidArgument _ code details | .permissionDenied _ code details
  | .resourceExhausted _ code details | .inappropriateType _ code details
  | .noSuchThing _ code details => some (code, details)
  | .unexpectedEof | .userError _ => none

/-- Why a file cannot be read. -/
def reason (e : IO.Error) : String :=
  match systemError? e with
  | some (code, details) => details ++ " (os error " ++ Number.decimal code.toNat ++ ")"
  | none => toString e

/-- The text in a file, or why there is none. -/
def readText (path : String) : IO (Except String String) := do
  try
    let file ← IO.FS.Handle.mk path .read
    match String.fromUTF8? (← file.readBinToEnd) with
    | some text => pure (.ok text)
    | none => pure (.error "stream did not contain valid UTF-8")
  catch e => pure (.error (reason e))

/-- A random identity of the fourth version, which two of its digits mark. -/
def randomId : IO OfferId := do
  let bytes ← IO.getRandomBytes 16
  let digits := bytes.toList.flatMap fun b => [b.toNat / 16, b.toNat]
  let variant := 8 + digits.getD 16 0 % 4
  pure (.padded (((digits.set 12 4).set 16 variant).map OfferId.lowDigit))

/-- The time in the form of internet timestamps, with its fraction in nanoseconds. -/
def timestamp : IO String := do
  let now := Std.Time.DateTime.ofTimestampWithZone (← Std.Time.Timestamp.now) .UTC
  pure (now.toPlainDateTime.format "uuuu-MM-dd'T'HH:mm:ss.SSSSSSSSS'Z'")

/-- Writes a file and tells whether that was possible. -/
def writeText (path text : String) : IO Bool := do
  try
    IO.FS.writeFile path text
    pure true
  catch e =>
    IO.eprintln ("failed to write " ++ path ++ ": " ++ reason e)
    pure false

/-- Runs the command that arguments spell, and reminds of the commands where they spell none. No
command shows the identities of additional offers, so that fixed ones do. -/
def run (arguments : List String) : IO UInt8 := do
  let command := Command.ofArguments? arguments
  if command.isNone || command == some .help then IO.eprint Command.usage
  let content ←
    match command.bind Command.input? with
    | some path => readText path
    | none => pure (.ok "")
  let stamp : Stamp := ⟨(← randomId).text, ← timestamp⟩
  let outcome := Command.runArguments (fun _ => content) stamp (fun _ _ => default) arguments
  IO.print outcome.stdout
  let written ←
    match outcome.writes with
    | some (path, text) => writeText path text
    | none => pure true
  pure (outcome.exitAfter written)

end MailBlocks.Main

/-- The program: its result is the exit status. -/
def main (arguments : List String) : IO UInt32 := do
  pure (← MailBlocks.Main.run arguments).toUInt32
