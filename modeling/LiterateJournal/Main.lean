import LiterateJournal.CommandLine.Answer
import LiterateJournal.CommandLine.Inventory

/-!
# The program

The standard input is an inventory of the files. They are read, the build runs on them, and what it
has changed is written back.
-/

namespace LiterateJournal.CommandLine

def readEnvironment : IO (String → Option String) := do
  let names := (Flag.all.map Flag.name ++ Setting.all.map Setting.name).map variableOf
  let values ← names.mapM fun n => return (n, ← IO.getEnv n)
  return fun name => (values.lookup name).join

/-- The files on an inventory. -/
partial def readFiles (inventory : IO.FS.Stream) (files : FileTree) : IO FileTree := do
  let line ← inventory.getLine
  if line.isEmpty then return files
  match InventoryItem.ofLine? line with
  | none => readFiles inventory files
  | some item =>
    let bytes ← if item.isDirectory then pure .empty else IO.FS.readBinFile item.path
    readFiles inventory (item.addTo (.ofBytes bytes) files)

def Change.apply : Change → IO Unit
  | .makeDirectory path => IO.FS.createDirAll path
  | .writeFile path content => IO.FS.writeBinFile path content.toBytes
  | .removeFile path => IO.FS.removeFile path

def runProgram (arguments : List String) : IO Answer := do
  let start ← IO.monoMsNow
  let env ← readEnvironment
  let before ←
    if (Options.ofArguments env arguments).isOk then readFiles (← IO.getStdin) (.new 0)
    else pure (.new 0)
  let (result, after) := (run env arguments).run (worldOf before)
  (changesBetween before after.files).forM Change.apply
  return result.answer ((← IO.monoMsNow) - start)

end LiterateJournal.CommandLine

def main (arguments : List String) : IO UInt32 := do
  let answer ← LiterateJournal.CommandLine.runProgram arguments
  (← IO.getStdout).putStr answer.output
  (← IO.getStderr).putStr answer.errors
  return UInt32.ofNat answer.code
