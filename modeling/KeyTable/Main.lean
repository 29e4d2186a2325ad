import KeyTable.DumpTool

/-!
# The dump tool on the command line

Reads the arguments and the file, runs the command, prints what it printed, and
brings the file into the state that it left.
-/

namespace KeyTable
namespace DumpTool

/-- How the tool is called. -/
def usage : String :=
  "usage: read [--hex] <file> | write <file> | nonterm <file>"

/-- The command and the file that the arguments name. -/
def parseArguments : List String → Option (Command × String)
  | ["read", file] => some (.read false, file)
  | ["read", "--hex", file] => some (.read true, file)
  | ["read", file, "--hex"] => some (.read true, file)
  | ["write", file] => some (.write, file)
  | ["nonterm", file] => some (.nonterm, file)
  | _ => none

/-- The path under which the tool sees its file. -/
def filePath : Path := ⟨"dump"⟩

/-- The disk as the tool sees it: its file, if there is one, and nothing else. -/
def diskWith (content : Option Bytes) : Disk :=
  match content with
  | none => .empty
  | some bytes =>
    match Disk.empty.replace filePath bytes with
    | .ok disk => disk
    | .error _ => .empty

/-- Runs a command on the file of the given name. -/
def runOnFile (command : Command) (file : String) : IO UInt32 := do
  let content ←
    try
      let bytes ← IO.FS.readBinFile file
      pure (some bytes.data.toList)
    catch _ => pure none
  let result := run command (diskWith content) filePath file
  let stdout ← IO.getStdout
  stdout.write ⟨result.output.toArray⟩
  stdout.flush
  match result.disk.read filePath with
  | .ok bytes => if content ≠ some bytes then IO.FS.writeBinFile file ⟨bytes.toArray⟩
  | .error _ => pure ()
  match result.answer with
  | .ok () => pure ()
  | .error fault => IO.eprintln fault.message
  return UInt32.ofNat result.exitCode

end DumpTool
end KeyTable

/-- Runs the dump tool. -/
def main (arguments : List String) : IO UInt32 :=
  match KeyTable.DumpTool.parseArguments arguments with
  | some (command, file) => KeyTable.DumpTool.runOnFile command file
  | none => do
    IO.eprintln KeyTable.DumpTool.usage
    return 2
