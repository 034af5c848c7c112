import Sideload.CommandLine.Run

/-! # The program

Reads what a command line names, answers the command line, and prints or writes the answer. The
files below a directory are named by the lines of the standard input, as `find DIRECTORY -type f`
prints them. No URL is fetched. -/

namespace Sideload.Program

/-- What is wrong with a path, by the error that using it ended in. The number of the error may
come with either sign. -/
def faultOf : IO.Error → FileTree.Fault
  | .inappropriateType _ number _ =>
    if number = 20 || number + 20 = 0 then .notDirectory else .isDirectory
  | .invalidArgument _ number _ =>
    if number = 36 || number + 36 = 0 then .tooLong else .missing
  | _ => .missing

/-- The lines of a stream. -/
partial def lines (input : IO.FS.Stream) : IO (List String) := do
  let line ← input.getLine
  if line.isEmpty then return []
  return line.trimAsciiEnd.toString :: (← lines input)

/-- The content of a file. One whose path is too long is known by its name only. -/
def readContent (path : String) : IO ByteArray :=
  if (FileTree.Path.ofText path).isTooLong then return .empty else IO.FS.readBinFile path

/-- The files with some paths, as a directory. -/
def readDirectory (directory : FileTree.Path) (paths : List String) : IO FileTree :=
  paths.foldlM
    (fun t path => do
      let names := (directory.relativeTo (.ofText path)).parts
      return t.put names (.file (← readContent path)))
    (.directory [])

/-- What stands at a path; a directory is read in its own way. -/
def readTree (path : FileTree.Path) (directory : IO FileTree) : IO (Option FileTree) := do
  let some path := path.text? | return none
  match ← (IO.FS.readBinFile path).toBaseIO with
  | .ok content => return some (.file content)
  | .error e => if faultOf e = .isDirectory then return some (← directory) else return none

/-- What stands at the path that a command line names. Only to lint a directory are its files
read. -/
def readNamed (words : List String) : IO (Option FileTree) :=
  match CommandLine.Request.ofWords words with
  | .ok (.resolve r) => readTree (.ofText r.source) (return .directory [])
  | .ok (.lint r) => readTree r.path (do readDirectory r.path (← lines (← IO.getStdin)))
  | _ => return none

/-- Carry out what is left to do. -/
def settle : CommandLine.Outcome → IO CommandLine.Reply
  | .done r => return r
  | .save path text => do
    let some name := path.text? | return CommandLine.unwritable path .missing
    match ← (IO.FS.writeFile name text).toBaseIO with
    | .ok _ => return {}
    | .error e => return CommandLine.unwritable path (faultOf e)

end Sideload.Program

/-- Answer a command line. -/
def main (words : List String) : IO UInt32 := do
  let found ← Sideload.Program.readNamed words
  let reply ← Sideload.Program.settle (Sideload.CommandLine.runWords ⟨fun _ => found, none⟩ words)
  IO.print reply.out
  IO.eprint reply.err
  return reply.code.toUInt32
