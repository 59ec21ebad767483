import Userscript.CommandLine.Command

/-!
# The program

The outer layer of the command line: it reads the current folder into a file tree, executes
the arguments on it, writes the files that were written back to the disk, and prints what the
command has printed.

No outside program is run here, so scripts are not checked, linted or minified, and no
settings file is evaluated. A watch ends after the first build.
-/

namespace Userscript.Main

/-- The folders that are not read. -/
def unreadFolders : List String := [".git", "node_modules"]

/-- The nanoseconds of a time. -/
def nanoseconds (t : IO.FS.SystemTime) : Int := t.sec * 1000000000 + t.nsec.toNat

/-- What an entry of a folder is in a file tree, with its name. -/
partial def readEntry (entry : IO.FS.DirEntry) : IO (Option (String × Node)) := do
  if unreadFolders.contains entry.fileName then return none
  let data ← entry.path.metadata
  match data.type with
  | .dir =>
    let contents ← (← entry.path.readDir).toList.filterMapM readEntry
    return some (entry.fileName, .folder contents)
  | .file =>
    let content ← IO.FS.readBinFile entry.path
    return some (entry.fileName, .file content.toList (nanoseconds data.modified))
  | _ => return none

/-- The tree with the current folder in it. -/
def readTree : IO Tree := do
  let folder ← IO.currentDir
  let contents ← (← folder.readDir).toList.filterMapM readEntry
  let here := Path.ofString folder.toString
  return { root := Node.put (.folder contents) here.parts (.folder []), here }

/-- A host without outside programs. The clock shows the time since the machine was
started, and no change is ever waited for. -/
def bareHost : IO Host := do
  let milliseconds ← IO.monoMsNow
  return {
    which := fun _ => none
    run := fun _ _ => { ending := .notStarted "outside programs are not run" }
    parse := fun _ => none
    evaluate := fun _ _ => .error "settings files are not evaluated"
    clock := .round false milliseconds 1000
    scratch := Path.ofString "/tmp/scriptbundle"
    filter := { folders := [], isAside := fun _ => false } }

/-- Writes a file of a tree to the disk. -/
def writeBack (t : Tree) (p : Path) : IO Unit := do
  match t.read p with
  | .error _ => return
  | .ok content =>
    let path := t.here.join p
    IO.FS.createDirAll path.parent.toString
    IO.FS.writeBinFile path.toString (ByteArray.mk content.toArray)

end Userscript.Main

open Userscript

/-- Executes the command line in the current folder. -/
def main (arguments : List String) : IO UInt32 := do
  let host ← Main.bareHost
  let world : World := { tree := ← Main.readTree }
  let (ended, world) := CommandLine.execute arguments [] host world
  world.written.eraseDups.forM (Main.writeBack world.tree)
  match ended with
  | .ok screen =>
    IO.print screen.out
    IO.eprint screen.err
    return UInt32.ofNat screen.exit
  | .error failure =>
    IO.eprintln failure.message
    return 1
