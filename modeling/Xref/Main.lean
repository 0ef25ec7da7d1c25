import Xref.CommandLine

/-!
# The program

Brings the files that the command line names into memory and prints what comes of them. Paths are
relative to the current directory.
-/
namespace Xref

open Files

/-- The tree with a path and all that is below it. Every file comes as its bytes, also one that is
an archive: `Content.archive` is for a tree whose archives are unpacked already, so no archive is
opened from the command line. -/
partial def loadPath (tree : FileTree) (path : String) : IO FileTree := do
  let place := (← IO.currentDir) / path
  if ← place.isDir then
    let entries ← place.readDir
    entries.foldlM (fun tree e => loadPath tree (Path.join path e.fileName))
      (if (Path.components path).all (· == ".") then tree else tree.place path .directory)
  else if ← place.pathExists then
    let bytes ← IO.FS.readBinFile place
    return tree.place path (.file (.bytes bytes.toList))
  else
    return tree

end Xref

def main (args : List String) : IO UInt32 := do
  let files ← (Xref.CommandLine.paths args).foldlM Xref.loadPath {}
  let outcome := Xref.CommandLine.run files args
  IO.print outcome.out
  IO.eprint outcome.err
  return UInt32.ofNat outcome.code
