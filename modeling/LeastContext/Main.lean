import LeastContext.CommandLine.Run
import LeastContext.Pattern.Parser

namespace LeastContext

/-- Reads what is at a path into a tree. Links below a folder are not followed. -/
partial def loadTree (tree : FileTree) (path : Path) : IO FileTree := do
  let here : IO.FS.DirEntry := { root := path.text, fileName := "." }
  if ← here.path.isDir then
    let entries ← try here.path.readDir catch _ => pure #[]
    let mut tree := tree.put path .folder
    for entry in entries do
      let metadata ← entry.path.symlinkMetadata
      if metadata.type == .file || metadata.type == .dir then
        tree ← loadTree tree (path.join entry.fileName)
    return tree
  else
    try
      let bytes ← IO.FS.readBinFile path.text
      return tree.put path ((String.fromUTF8? bytes).elim .binary .text)
    catch _ => return tree

/-- The names that lead to the current folder. -/
def currentFolder : IO (List String) := do
  return (FileTree.mk [] []).place ⟨(← IO.currentDir).toString⟩

/-- Reads what a run with some options looks at. -/
def treeFor (options : CommandLine.Options) : IO FileTree := do
  let tree : FileTree := ⟨← currentFolder, []⟩
  let configs := [options.config.getD (FileTree.configPath ⟨"."⟩)]
  (configs ++ options.paths).foldlM loadTree tree

end LeastContext

def main (args : List String) : IO UInt32 := do
  let tree ←
    match LeastContext.CommandLine.Request.ofArgs args with
    | .check options => LeastContext.treeFor options
    | _ => pure default
  let run : LeastContext.Strict LeastContext.CommandLine.Shown :=
    LeastContext.CommandLine.runM LeastContext.Pattern.read? tree args
  match run with
  -- a comparison of types that never ends takes the whole process with it
  | .error _ => return 134
  | .ok shown =>
    for line in shown.errors do
      IO.eprintln line
    IO.print shown.output
    return shown.code
