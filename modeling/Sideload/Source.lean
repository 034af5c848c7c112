import Sideload.Dataset.Basic
import Sideload.FileTree.Basic
import Sideload.Json.Reader

/-! # Sources

Where JSON values and datasets come from: files, by their paths, and what URLs answer with. The
network is no part of the program: `Network` is all that is known of it. A program that is built
without one takes a URL for the path of a file that is missing.

A file that is read and is not JSON is told from one that cannot be read (`value`). Of a URL there
is one kind of error, whatever goes wrong (`fetched`). -/

namespace Sideload

/-- What stands at each path. -/
abbrev Files := FileTree.Path → Option FileTree

/-- Who fetches URLs. What goes wrong is told in words that come from there. -/
structure Network where
  /-- The body that a URL answers with, or why there is none. -/
  fetch : String → Except String ByteArray
  /-- What is said of the body of a URL that is not JSON. -/
  refusal : String → ByteArray → String

/-- What a program reads from. -/
structure World where
  files : Files
  /-- What URLs are fetched with. -/
  network : Option Network := none

/-- Why a source cannot be used. -/
inductive SourceError where
  | notFound (path : FileTree.Path)
  | unreadable (path : FileTree.Path) (fault : FileTree.Fault)
  | unfetched (url cause : String)
  | invalidJson (fault : Json.Fault)
  | invalidDataset (e : DatasetError)

namespace SourceError

/-- The error in words. -/
def message : SourceError → String
  | notFound path => "file not found: " ++ path.shown
  | unreadable path fault => "cannot read " ++ path.shown ++ ": " ++ fault.message
  | unfetched url cause => "failed to fetch " ++ url ++ ": " ++ cause
  | invalidJson fault => "invalid JSON: " ++ fault.message
  | invalidDataset e => "invalid dataset: " ++ e.message

/-- The exit code of a command that fails with the error. -/
def exitCode : SourceError → Nat
  | notFound _ => 3
  | unreadable .. => 3
  | unfetched .. => 3
  | invalidJson _ => 2
  | invalidDataset _ => 2

end SourceError

namespace Source

/-- The text of what stands at a path. -/
def text (path : FileTree.Path) : Option FileTree → Except SourceError String
  | none => .error (.notFound path)
  | some (.directory _) => .error (.unreadable path .isDirectory)
  | some (.file content) =>
    match String.fromUTF8? content with
    | none => .error (.unreadable path .notText)
    | some s => .ok s

/-- The JSON value of a text. -/
def parse (s : String) : Except SourceError Json := (Json.read s).mapError .invalidJson

/-- The JSON value of what stands at a path. -/
def value (path : FileTree.Path) (found : Option FileTree) : Except SourceError Json :=
  match text path found with
  | .error e => .error e
  | .ok s => parse s

/-- The JSON value of the body of a URL. -/
def fetched (network : Network) (url : String) : Except SourceError Json :=
  match network.fetch url with
  | .error cause => .error (.unfetched url cause)
  | .ok body =>
    match (String.fromUTF8? body).bind fun s => (Json.read s).toOption with
    | none => .error (.unfetched url (network.refusal url body))
    | some v => .ok v

/-- The source is a URL. -/
def isUrl (source : String) : Bool :=
  "http://".toList.isPrefixOf source.toList || "https://".toList.isPrefixOf source.toList

/-- The JSON value of a source. -/
def load (world : World) (source : String) : Except SourceError Json :=
  let path := FileTree.Path.ofText source
  if isUrl source then
    match world.network with
    | none => .error (.notFound path)
    | some network => fetched network source
  else value path (world.files path)

/-- The dataset of a JSON value. -/
def toDataset (v : Json) : Except SourceError Dataset := (Dataset.ofJson v).mapError .invalidDataset

/-- The dataset of a source. -/
def openDataset (world : World) (source : String) : Except SourceError Dataset :=
  match load world source with
  | .error e => .error e
  | .ok v => toDataset v

end Source

end Sideload
