/-
  The program: `smpl run FILE` and `smpl check FILE`.

  Everything is decided in `Command`; here the file, the input and the settings are fetched, and
  what comes of them is written.  The input is read only if the script can ask for it.
-/
import SmallScript.Command
import Std.Time.DateTime.Timestamp

namespace SmallScript

/-- The content of a file, or why it has none. -/
def contentOf (file : String) : IO (Except Unreadable String) := do
  try
    if ← (← IO.FS.realPath file).isDir then return .error .directory
    let bytes ← IO.FS.readBinFile file
    match String.fromUTF8? bytes with
    | some text => return .ok text
    | none => return .error .encoding
  catch
    | .noFileOrDirectory .. => return .error .missing
    | .inappropriateType .. => return .error .notDirectory
    | e => return .error (.other (toString e))

/-- What a script can ask for; nothing if the input is no text. -/
def inputFor (content : Except Unreadable String) : IO String := do
  match content with
  | .ok text =>
    if Command.mentionsInput text then
      try (← IO.getStdin).readToEnd catch _ => return ""
    else return ""
  | .error _ => return ""

/-- The milliseconds since the clock of the machine began. -/
def milliseconds : IO Int64 := do
  let now ← Std.Time.Timestamp.now
  return Int64.ofInt now.toMillisecondsSinceUnixEpoch.val

def surroundings (input : String) : IO Surroundings := do
  let strict := ((← IO.getEnv "SMPL_STRICT").map Command.isStrictSetting).getD false
  let colour := (← (← IO.getStdout).isTty) && (← IO.getEnv "NO_COLOR").isNone
  return { colour, strict, input, clock := ⟨← milliseconds⟩ }

/-- What comes of the arguments. -/
def ending (args : List String) : IO Ending := do
  match Invocation.ofArgs? args with
  | none => return Command.usage
  | some invocation =>
    let content ←
      match invocation.file? with
      | some file => contentOf file
      | none => pure (.ok "")
    match Command.perform? (← surroundings (← inputFor content)) content invocation with
    | some ending => return ending
    | none => return { code := 101 }

end SmallScript

def main (args : List String) : IO UInt32 := do
  let ending ← SmallScript.ending args
  IO.print ending.out
  IO.eprint ending.err
  return UInt32.ofNat ending.code
