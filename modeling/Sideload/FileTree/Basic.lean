import Sideload.Fields
import Sideload.FileTree.Path

/-! # File trees

Files and directories, whose entries have a name each. The order of entries is the order in which
they are listed, and means nothing else.

* `follow` goes through the parts of a path; `.` and `..` need a directory to stand in.
* `put` places something where some names lead.
* `jsonFiles` lists the `json` files at any depth with their paths. A path that is too long leads
  nowhere. -/

namespace Sideload

/-- A file or a directory. -/
inductive FileTree where
  | file (content : ByteArray)
  | directory (entries : List (FileTree.Path × FileTree))

namespace FileTree

/-- Why a path cannot be followed, read or written. -/
inductive Fault where
  | missing
  | notDirectory
  | isDirectory
  | tooLong
  | notText
deriving DecidableEq, Repr

/-- The fault in words. -/
def Fault.message : Fault → String
  | missing => "No such file or directory (os error 2)"
  | notDirectory => "Not a directory (os error 20)"
  | isDirectory => "Is a directory (os error 21)"
  | tooLong => "File name too long (os error 36)"
  | notText => "stream did not contain valid UTF-8"

instance : Inhabited FileTree := ⟨directory []⟩

/-! ### Following paths -/

/-- Follow parts of a path from a place in the tree; `above` are the directories it stands in, the
nearest first. Above the root there is the root again. -/
def follow : List FileTree → FileTree → List Path → Except Fault FileTree
  | _, t, [] => .ok t
  | _, file _, _ :: _ => .error .notDirectory
  | above, directory entries, p :: ps =>
    if Path.isIdle p then follow above (directory entries) ps
    else if p = Path.up then follow above.tail (above.headD (directory entries)) ps
    else if Path.isLongName p then .error .tooLong
    else
      match Fields.get? entries p with
      | none => .error .missing
      | some t => follow (directory entries :: above) t ps

/-! ### Placing -/

/-- Put something where some names lead, with directories on the way. -/
def put : FileTree → List Path → FileTree → FileTree
  | _, [], new => new
  | directory entries, name :: names, new =>
    let old := (Fields.get? entries name).getD (directory [])
    directory (Fields.insert entries name (put old names new))
  | file _, name :: names, new => directory [(name, put (directory []) names new)]

/-! ### Listing -/

mutual

/-- What a walk finds at and below a path that leads to a tree, each with the names on the way to
it: files with their content, and without one whatever stands at a path that is too long. -/
def walk (path : Path) : FileTree → List (List Path × Option ByteArray)
  | file content => [([], some content)]
  | directory entries => walkEntries path entries

/-- What a walk finds at and below the entries of the directory at a path. -/
def walkEntries (path : Path) :
    List (Path × FileTree) → List (List Path × Option ByteArray)
  | [] => []
  | (name, t) :: entries =>
    let entry := Path.join path name
    let found := if Path.isTooLong entry then [([], none)] else walk entry t
    found.map (fun f => (name :: f.1, f.2)) ++ walkEntries path entries

end

/-- The `json` files at and below a path that leads to a tree, with their paths; the content is
missing where the path is too long. Below a directory they stand in the order of the names on the
way to them; a file is one itself or there is none. -/
def jsonFiles (path : Path) : FileTree → List (Path × Option ByteArray)
  | file content =>
    if Path.isJson ((Path.parts path).getLastD []) then [(path, some content)] else []
  | directory entries =>
    let found := (walkEntries path entries).filter fun f => Path.isJson (f.1.getLastD [])
    let sorted := found.mergeSort fun f g => Path.leNames f.1 g.1
    sorted.map fun f => (f.1.foldl Path.join path, f.2)

end FileTree

end Sideload
