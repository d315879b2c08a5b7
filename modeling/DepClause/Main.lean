import DepClause.Command.Program
import DepClause.Text.Plain

/-!
# The command line program

The files that a command line names are read into a disk, the command runs on it, and what it
changed is written back.
-/

namespace DepClause

/-- A disk with what lies at a path of the machine. -/
def Disk.load (d : Disk) (path : String) : IO Disk := do
  try
    let text ← IO.FS.readFile (Text.toPlain path)
    return (d.place path (Text.ofPlain text)).disk
  catch
    | .inappropriateType .. => return (d.makeDirectories path).disk
    | .noFileOrDirectory .. => return d
    | e => throw e

/-- Writes to the machine what a disk holds and another one does not. -/
def Disk.writeBack (after before : Disk) : IO Unit := do
  for location in after.directories do
    unless before.directories.contains location do
      IO.FS.createDirAll location
  for (location, contents) in after.files do
    let text := contents.toText
    unless (before.files.get? location).map Contents.toText == some text do
      IO.FS.writeFile location (Text.toPlain text)

/-- Adds lines to the end of a file of the machine. -/
def appendLines (path : String) (lines : List String) : IO Unit :=
  IO.FS.withFile (Text.toPlain path) .append fun file =>
    lines.forM fun line => file.putStrLn (Text.toPlain line)

/-- Runs a command line on the machine. -/
def Command.execute (args : List String) : IO UInt32 := do
  let args := args.map Text.ofPlain
  let home := Text.ofPlain ((← IO.getEnv "HOME").getD "")
  let empty := Disk.empty (← IO.currentDir).toString
  let disk ← (filesOf home args).foldlM Disk.load empty
  let outcome := run home args disk none
  outcome.disk.writeBack disk
  if let some files := outcome.logFiles then
    let logs := (storeOf home).logsPath
    appendLines (Path.join logs "pep2rpm.log") files.general
    appendLines (Path.join logs "error.log") files.errors
  outcome.printed.forM fun p => IO.println (Text.toPlain p.text)
  outcome.errors.forM fun line => IO.eprintln (Text.toPlain line)
  return outcome.status.toUInt32

end DepClause

def main (args : List String) : IO UInt32 := DepClause.Command.execute args
