import Sideload.FileTree.Path

/-! # Parts of paths

What one part of a path does follows from its kind (`part_cases`): it is idle, it leads up, it is
too long, or it is a name. The names that a path comes down to change accordingly
(`namesFrom_idle`, `namesFrom_up`, `namesFrom_down`). A path that does not end in a slash has a
last part (`exists_last_parts`).

The path of an entry has the parts of the path to its directory, and its name as the last
(`exists_parts_join`), if that is a plain name (`IsPlain`). -/

namespace Sideload.FileTree.Path

/-- The part is a name that an entry can have. -/
structure IsName (p : Path) : Prop where
  notIdle : isIdle p = false
  notUp : p ≠ up
  notLong : isLongName p = false

theorem part_cases (p : Path) :
    isIdle p = true ∨ p = up ∨ (isIdle p = false ∧ p ≠ up ∧ isLongName p = true) ∨ IsName p := by
  cases hidle : isIdle p with
  | true => exact Or.inl rfl
  | false =>
    by_cases hup : p = up
    · exact Or.inr (Or.inl hup)
    · cases hlong : isLongName p with
      | true => exact Or.inr (Or.inr (Or.inl ⟨rfl, hup, rfl⟩))
      | false => exact Or.inr (Or.inr (Or.inr ⟨hidle, hup, hlong⟩))

/-! ### Names -/

section Names
variable {names ps : List Path} {p : Path}

theorem namesFrom_idle (hp : isIdle p = true) : namesFrom names (p :: ps) = namesFrom names ps := by
  rw [namesFrom, if_pos hp]

theorem namesFrom_up : namesFrom names (up :: ps) = namesFrom names.tail ps := by
  rw [namesFrom, if_neg (by decide), if_pos rfl]

theorem namesFrom_down (hp : isIdle p = false) (hup : p ≠ up) :
    namesFrom names (p :: ps) = namesFrom (p :: names) ps := by
  rw [namesFrom, hp, if_neg Bool.false_ne_true, if_neg hup]

theorem namesFrom_concat (hp : isIdle p = false) (hup : p ≠ up) : ∀ {ps names : List Path},
    namesFrom names (ps ++ [p]) = namesFrom names ps ++ [p]
  | [], names => by
    rw [List.nil_append, namesFrom_down hp hup]
    exact List.reverse_cons
  | q :: ps, names => by
    rw [List.cons_append]
    rcases part_cases q with hidle | rfl | ⟨hidle, hup', -⟩ | hname
    · rw [namesFrom_idle hidle, namesFrom_idle hidle, namesFrom_concat hp hup]
    · rw [namesFrom_up, namesFrom_up, namesFrom_concat hp hup]
    · rw [namesFrom_down hidle hup', namesFrom_down hidle hup', namesFrom_concat hp hup]
    · rw [namesFrom_down hname.notIdle hname.notUp, namesFrom_down hname.notIdle hname.notUp,
        namesFrom_concat hp hup]

end Names

/-! ### The last part -/

theorem parts_slash (bytes : Path) : parts (slash :: bytes) = [] :: parts bytes := rfl

theorem parts_cons {byte : UInt8} {bytes first : Path} {others : List Path} (h : byte ≠ slash)
    (hparts : parts bytes = first :: others) :
    parts (byte :: bytes) = (byte :: first) :: others := by
  obtain ⟨rfl, rfl⟩ := List.cons.inj hparts
  have hsplit : splitParts (byte :: bytes) =
      (byte :: (splitParts bytes).1, (splitParts bytes).2) := if_neg h
  unfold parts
  rw [hsplit]

theorem exists_cons_parts (path : Path) : ∃ first others, parts path = first :: others :=
  ⟨_, _, rfl⟩

theorem exists_last_parts : ∀ {path : Path}, path ≠ [] → endsInSlash path = false →
    ∃ way name, name ≠ [] ∧ parts path = way ++ [name]
  | [], hpath, _ => absurd rfl hpath
  | [byte], _, hslash => by
    have hbyte : byte ≠ slash := by
      rintro rfl
      cases hslash
    exact ⟨[], [byte], List.cons_ne_nil _ _, parts_cons hbyte rfl⟩
  | byte :: next :: bytes, _, hslash => by
    rw [endsInSlash, List.getLast?_cons_cons] at hslash
    obtain ⟨way, name, hname, h⟩ := exists_last_parts (List.cons_ne_nil next bytes) hslash
    by_cases hbyte : byte = slash
    · rw [hbyte, parts_slash, h]
      exact ⟨[] :: way, name, hname, rfl⟩
    · cases way with
      | nil => exact ⟨[], byte :: name, List.cons_ne_nil _ _, parts_cons hbyte h⟩
      | cons first way => exact ⟨(byte :: first) :: way, name, hname, parts_cons hbyte h⟩

/-! ### Names of entries -/

/-- A name that does what names do: it has no slash, and it is neither idle nor leads up. -/
structure IsPlain (name : Path) : Prop where
  notIdle : isIdle name = false
  notUp : name ≠ up
  noSlash : slash ∉ name

theorem isPlain_of {name : Path} (h : (isIdle name || name = up || name.contains slash) = false) :
    IsPlain name := by
  simp only [Bool.or_eq_false_iff, decide_eq_false_iff_not] at h
  exact ⟨h.1.1, h.1.2, by simpa using h.2⟩

theorem IsPlain.ne_nil {name : Path} (hname : IsPlain name) : name ≠ [] := fun h => by
  have := hname.notIdle
  rw [h] at this
  exact absurd this (by decide)

/-- A name with the extension `json` is a stem that is not empty, and the extension. -/
theorem isJson_iff {name : Path} :
    isJson name = true ↔ ∃ stem, stem ≠ [] ∧ name = stem ++ extension := by
  unfold isJson
  rw [Bool.and_eq_true, List.isSuffixOf_iff_suffix, decide_eq_true_iff]
  constructor
  · rintro ⟨⟨stem, rfl⟩, hname⟩
    exact ⟨stem, fun hempty => hname (by rw [hempty, List.nil_append]), rfl⟩
  · rintro ⟨stem, hstem, rfl⟩
    exact ⟨⟨stem, rfl⟩, fun h => hstem (List.append_left_eq_self.mp h)⟩

/-! ### Paths of entries -/

theorem parts_append_slash (rest : Path) : ∀ path : Path,
    parts (path ++ slash :: rest) = parts path ++ parts rest
  | [] => rfl
  | byte :: path => by
    rw [List.cons_append]
    by_cases hbyte : byte = slash
    · rw [hbyte, parts_slash, parts_slash, parts_append_slash rest path, List.cons_append]
    · obtain ⟨first, others, hparts⟩ := exists_cons_parts path
      rw [parts_cons hbyte hparts, List.cons_append]
      exact parts_cons hbyte (by rw [parts_append_slash rest path, hparts, List.cons_append])

theorem parts_of_noSlash : ∀ {name : Path}, slash ∉ name → parts name = [name]
  | [], _ => rfl
  | _ :: _, h => by
    obtain ⟨hbyte, hname⟩ := not_or.mp (mt List.mem_cons.mpr h)
    exact parts_cons (Ne.symm hbyte) (parts_of_noSlash hname)

/-- The way to an entry is that to the directory, without a slash at its end, and the name. -/
theorem exists_parts_join {path name : Path} (hpath : path ≠ []) (hname : slash ∉ name) :
    ∃ first others idle, parts path = first :: (others ++ idle) ∧ (∀ p ∈ idle, isIdle p = true) ∧
      parts (join path name) = first :: (others ++ [name]) := by
  unfold join
  rw [decide_eq_false hpath, Bool.false_or]
  split
  · next hslash =>
    obtain ⟨front, rfl⟩ := List.getLast?_eq_some_iff.mp (of_decide_eq_true hslash)
    obtain ⟨first, others, hparts⟩ := exists_cons_parts front
    refine ⟨first, others, [[]], ?_, fun p hp => ?_, ?_⟩
    · rw [parts_append_slash, hparts]
      rfl
    · rw [List.mem_singleton.mp hp]
      rfl
    · rw [List.append_assoc, List.singleton_append, parts_append_slash, hparts,
        parts_of_noSlash hname]
      rfl
  · obtain ⟨first, others, hparts⟩ := exists_cons_parts path
    refine ⟨first, others, [], by rw [hparts, List.append_nil], List.forall_mem_nil _, ?_⟩
    rw [parts_append_slash, hparts, parts_of_noSlash hname]
    rfl

theorem join_ne_nil {path name : Path} (hname : name ≠ []) : join path name ≠ [] := by
  unfold join
  split <;> simp [hname]

end Sideload.FileTree.Path
