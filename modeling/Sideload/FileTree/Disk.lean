import Sideload.FileTree.Basic

/-! # Disks

A tree that is known from its root, and the directory in it that a program works in. Every path is
a way of parts from the root (`Disk.way`): an absolute path is one itself, and any other goes on
from the working directory.

* `find?` follows a path.
* `write` puts a file at a path, in place of a file that is there, in a directory that is there.
  The names that the path comes down to say where (`Disk.place`).

A path that is too long leads nowhere, even if a shorter one leads to the same place. -/

namespace Sideload

open FileTree

/-- A tree from its root, and the names that lead to the working directory. -/
structure Disk where
  root : FileTree
  workplace : List Path := []

namespace Disk

/-- The parts of a path from the root. -/
def way (d : Disk) (path : Path) : List Path :=
  if Path.isAbsolute path then Path.parts path else d.workplace ++ Path.parts path

/-- The names that a path comes down to. -/
def place (d : Disk) (path : Path) : List Path :=
  Path.namesFrom [] (d.way path)

/-- What stands at a path. -/
def find? (d : Disk) (path : Path) : Option FileTree :=
  if path = [] || Path.isTooLong path then none
  else (follow [] d.root (d.way path)).toOption

/-- A file can be written into something under a name, which is the last part of a path; a path that
ends in a slash leads to a directory. -/
def checkRoom (slash : Bool) (name : Path) : FileTree → Except Fault Unit
  | file _ => .error .notDirectory
  | directory entries =>
    if slash || Path.isIdle name || name = Path.up then .error .isDirectory
    else if Path.isLongName name then .error .tooLong
    else
      match Fields.get? entries name with
      | some (directory _) => .error .isDirectory
      | _ => .ok ()

/-- Write a file. The directory it is to stand in has to be there, and no directory may stand at
its place. -/
def write (d : Disk) (path : Path) (content : ByteArray) : Except Fault Disk :=
  if Path.isTooLong path then .error .tooLong
  else if path = [] then .error .missing
  else
    let ps := (d.way path).reverse.dropWhile (· = [])
    match follow [] d.root ps.tail.reverse with
    | .error e => .error e
    | .ok u =>
      match checkRoom (Path.endsInSlash path) (ps.headD []) u with
      | .error e => .error e
      | .ok () => .ok { d with root := d.root.put (d.place path) (file content) }

end Disk

end Sideload
