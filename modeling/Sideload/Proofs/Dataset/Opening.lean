import Sideload.Proofs.Text.Lossy
import Sideload.Source

/-! # Opening a dataset

What stands behind a source is a JSON value (`Source.Gives`) or a reason that there is none, which
has an exit code and is put in words (`Source.Fails`). A file that cannot be read as a text is told
from a text that is not JSON; of a URL, everything that goes wrong up to the JSON value is one kind
of error, with one exit code.

Opening a dataset fails in these ways and in no other (`openDataset_of_fails`,
`exists_openDataset`). -/

namespace Sideload.Source

open FileTree (Path)

/-- The source is the path of a file that holds a text. -/
structure HoldsText (world : World) (source s : String) : Prop where
  isPath : isUrl source = false
  holds : ∃ content, world.files (Path.ofText source) = some (.file content) ∧
    String.fromUTF8? content = some s

/-- The source is a URL that is answered with a body. -/
structure Answers (world : World) (source : String) (network : Network) (body : ByteArray) :
    Prop where
  isUrl : isUrl source = true
  reached : world.network = some network
  fetched : network.fetch source = .ok body

/-- The bytes are a text that writes a JSON value. -/
def Writes (body : ByteArray) (v : Json) : Prop :=
  ∃ s, String.fromUTF8? body = some s ∧ Json.read s = .ok v

/-- The source has a JSON value, in a file or as the body of a URL. -/
inductive Gives (world : World) (source : String) (v : Json) : Prop where
  | file {s : String} (hs : HoldsText world source s) (h : Json.read s = .ok v)
  | url {network : Network} {body : ByteArray} (hbody : Answers world source network body)
      (h : Writes body v)

/-- No dataset can be had from the source, for a reason with an exit code. -/
inductive Fails (world : World) (source : String) : Nat → String → Prop where
  | notFound (hpath : isUrl source = false) (h : world.files (Path.ofText source) = none) :
      Fails world source 3 ("file not found: " ++ source)
  | noNetwork (hurl : isUrl source = true) (h : world.network = none) :
      Fails world source 3 ("file not found: " ++ source)
  | isDirectory {entries : Entries Path FileTree} (hpath : isUrl source = false)
      (h : world.files (Path.ofText source) = some (.directory entries)) :
      Fails world source 3 ("cannot read " ++ source ++ ": Is a directory (os error 21)")
  | notText {content : ByteArray} (hpath : isUrl source = false)
      (hfile : world.files (Path.ofText source) = some (.file content))
      (h : String.fromUTF8? content = none) :
      Fails world source 3 ("cannot read " ++ source ++ ": stream did not contain valid UTF-8")
  | unfetched {network : Network} {cause : String} (hurl : isUrl source = true)
      (hnetwork : world.network = some network) (h : network.fetch source = .error cause) :
      Fails world source 3 ("failed to fetch " ++ source ++ ": " ++ cause)
  | bodyNotJson {network : Network} {body : ByteArray} (hbody : Answers world source network body)
      (h : ∀ v, ¬ Writes body v) :
      Fails world source 3 ("failed to fetch " ++ source ++ ": " ++ network.refusal source body)
  | invalidJson {s : String} {fault : Json.Fault} (hs : HoldsText world source s)
      (h : Json.read s = .error fault) : Fails world source 2 ("invalid JSON: " ++ fault.message)
  | invalidDataset {v : Json} {e : DatasetError} (hv : Gives world source v)
      (h : Dataset.ofJson v = .error e) : Fails world source 2 ("invalid dataset: " ++ e.message)

section Load
variable {world : World} {source : String} {v : Json} {e : SourceError} {code : Nat} {what : String}

/-! ### JSON values -/

theorem fetched_of_writes {network : Network} {body : ByteArray}
    (hfetch : network.fetch source = .ok body) (h : Writes body v) :
    fetched network source = .ok v := by
  obtain ⟨s, hs, hv⟩ := h
  simp only [fetched, hfetch, hs, hv, Option.bind_some, Except.toOption]

theorem fetched_of_not_writes {network : Network} {body : ByteArray}
    (hfetch : network.fetch source = .ok body) (h : ∀ v, ¬ Writes body v) :
    fetched network source = .error (.unfetched source (network.refusal source body)) := by
  have hnone : ((String.fromUTF8? body).bind fun s => (Json.read s).toOption) = none := by
    refine Option.bind_eq_none_iff.mpr fun s hs => ?_
    cases hread : Json.read s with
    | error _ => rfl
    | ok v => exact absurd ⟨s, hs, hread⟩ (h v)
  simp only [fetched, hfetch, hnone]

theorem load_of_url {network : Network} (hurl : isUrl source = true)
    (hnetwork : world.network = some network) : load world source = fetched network source := by
  simp only [load, hurl, hnetwork, if_true]

theorem load_of_path (hpath : isUrl source = false) :
    load world source = value (Path.ofText source) (world.files (Path.ofText source)) := by
  simp only [load, hpath, Bool.false_eq_true, if_false]

theorem load_of_holdsText {s : String} (hs : HoldsText world source s) :
    load world source = parse s := by
  obtain ⟨content, hfile, htext⟩ := hs.holds
  simp only [load_of_path hs.isPath, hfile, value, text, htext]

theorem load_of_gives (h : Gives world source v) : load world source = .ok v := by
  cases h with
  | file hs h =>
    rw [load_of_holdsText hs, parse, h]
    rfl
  | url hbody h => rw [load_of_url hbody.isUrl hbody.reached, fetched_of_writes hbody.fetched h]

/-! ### Datasets -/

theorem openDataset_of_load (h : load world source = .error e) :
    openDataset world source = .error e := by
  simp only [openDataset, h]

theorem openDataset_of_gives (h : Gives world source v) :
    openDataset world source = toDataset v := by
  simp only [openDataset, load_of_gives h]

theorem message_notFound (s : String) :
    (SourceError.notFound (Path.ofText s)).message = "file not found: " ++ s :=
  congrArg ("file not found: " ++ ·) (Text.lossy_toUTF8 s)

theorem message_unreadable (s : String) (fault : FileTree.Fault) :
    (SourceError.unreadable (Path.ofText s) fault).message =
      "cannot read " ++ s ++ (": " ++ fault.message) := by
  rw [← String.append_assoc]
  exact congrArg (fun path => "cannot read " ++ path ++ ": " ++ fault.message)
    (Text.lossy_toUTF8 s)

/-- A source that fails cannot be opened. -/
theorem openDataset_of_fails (h : Fails world source code what) :
    ∃ e, openDataset world source = .error e ∧ code = e.exitCode ∧ what = e.message := by
  cases h with
  | notFound hpath h =>
    refine ⟨.notFound (Path.ofText source), openDataset_of_load ?_, rfl, ?_⟩
    · simp only [load_of_path hpath, h, value, text]
    · exact (message_notFound source).symm
  | noNetwork hurl h =>
    refine ⟨.notFound (Path.ofText source), openDataset_of_load ?_, rfl, ?_⟩
    · simp only [load, hurl, h, if_true]
    · exact (message_notFound source).symm
  | isDirectory hpath h =>
    refine ⟨.unreadable (Path.ofText source) .isDirectory, openDataset_of_load ?_, rfl, ?_⟩
    · simp only [load_of_path hpath, h, value, text]
    · rw [message_unreadable]
      rfl
  | notText hpath hfile h =>
    refine ⟨.unreadable (Path.ofText source) .notText, openDataset_of_load ?_, rfl, ?_⟩
    · simp only [load_of_path hpath, hfile, value, text, h]
    · rw [message_unreadable]
      rfl
  | unfetched hurl hnetwork h =>
    refine ⟨.unfetched source _, openDataset_of_load ?_, rfl, rfl⟩
    rw [load_of_url hurl hnetwork, fetched, h]
  | bodyNotJson hbody h =>
    refine ⟨.unfetched source _, openDataset_of_load ?_, rfl, rfl⟩
    rw [load_of_url hbody.isUrl hbody.reached, fetched_of_not_writes hbody.fetched h]
  | @invalidJson s fault hs h =>
    refine ⟨.invalidJson fault, openDataset_of_load ?_, rfl, rfl⟩
    rw [load_of_holdsText hs, parse, h]
    rfl
  | @invalidDataset v e hv h =>
    refine ⟨.invalidDataset e, ?_, rfl, rfl⟩
    rw [openDataset_of_gives hv, toDataset, h]
    rfl

/-- A source that has no JSON value fails. -/
theorem gives_or_fails (world : World) (source : String) :
    (∃ v, Gives world source v) ∨ ∃ code what, Fails world source code what := by
  cases hurl : isUrl source with
  | true =>
    cases hnetwork : world.network with
    | none => exact Or.inr ⟨_, _, .noNetwork hurl hnetwork⟩
    | some network =>
      cases hfetch : network.fetch source with
      | error cause => exact Or.inr ⟨_, _, .unfetched hurl hnetwork hfetch⟩
      | ok body =>
        have hbody : Answers world source network body := ⟨hurl, hnetwork, hfetch⟩
        by_cases h : ∃ v, Writes body v
        · exact Or.inl (h.imp fun _ => .url hbody)
        · exact Or.inr ⟨_, _, .bodyNotJson hbody (not_exists.mp h)⟩
  | false =>
    cases hfile : world.files (Path.ofText source) with
    | none => exact Or.inr ⟨_, _, .notFound hurl hfile⟩
    | some found =>
      cases found with
      | directory _ => exact Or.inr ⟨_, _, .isDirectory hurl hfile⟩
      | file content =>
        cases htext : String.fromUTF8? content with
        | none => exact Or.inr ⟨_, _, .notText hurl hfile htext⟩
        | some s =>
          have hs : HoldsText world source s := ⟨hurl, content, hfile, htext⟩
          cases hread : Json.read s with
          | error _ => exact Or.inr ⟨_, _, .invalidJson hs hread⟩
          | ok v => exact Or.inl ⟨v, .file hs hread⟩

/-- A source that does not fail is opened. -/
theorem exists_openDataset (h : ∀ code what, ¬ Fails world source code what) :
    ∃ d, openDataset world source = .ok d := by
  obtain ⟨v, hv⟩ | ⟨code, what, hfails⟩ := gives_or_fails world source
  · rw [openDataset_of_gives hv, toDataset]
    cases hd : Dataset.ofJson v with
    | error e => exact absurd (.invalidDataset hv hd) (h _ _)
    | ok d => exact ⟨d, rfl⟩
  · exact absurd hfails (h code what)

end Load

end Sideload.Source
