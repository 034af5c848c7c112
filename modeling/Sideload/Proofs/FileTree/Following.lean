import Sideload.FileTree.Basic
import Sideload.Proofs.FileTree.Paths
import Sideload.Proofs.Lists.Related

/-! # Following paths

Places in a tree are told by names alone (`at?`), or by paths, which may go up again and stay where
they are. What a path finds stands at the names that it comes down to (`Stands.at?_follow`). -/

namespace Sideload.FileTree

/-- The entries of a directory. A file has none. -/
def entries : FileTree → Entries Path FileTree
  | file _ => []
  | directory entries => entries

/-- What some names lead to. -/
def at? : FileTree → List Path → Option FileTree
  | t, [] => some t
  | t, name :: names => (Fields.get? t.entries name).bind fun u => at? u names

variable {t u v : FileTree}

theorem at?_append : ∀ {t : FileTree} (names more : List Path),
    t.at? (names ++ more) = (t.at? names).bind fun u => u.at? more
  | _, [], _ => rfl
  | t, name :: names, more => by
    rw [List.cons_append, at?, at?, Option.bind_assoc]
    exact Option.bind_congr fun u _ => at?_append names more

theorem at?_concat (names : List Path) (name : Path) :
    t.at? (names ++ [name]) = (t.at? names).bind fun u => Fields.get? u.entries name := by
  rw [at?_append]
  exact Option.bind_congr fun u _ => Option.bind_fun_some _

theorem at?_file_eq_some_iff {content : ByteArray} {names : List Path} {t : FileTree} :
    (file content).at? names = some t ↔ names = [] ∧ t = file content := by
  cases names with
  | nil => simp [at?, eq_comm]
  | cons name names => simp [at?, entries, Fields.get?]

/-! ### Following paths -/

/-- The directories that a path stands in and the thing that it stands at, with its names, the
nearest first. -/
inductive Stands (t : FileTree) : List FileTree → List Path → FileTree → Prop where
  | root : Stands t [] [] t
  | enter {above : List FileTree} {names : List Path} {es : Entries Path FileTree} {name : Path}
      {u : FileTree} (h : Stands t above names (directory es)) (hu : Fields.get? es name = some u) :
      Stands t (directory es :: above) (name :: names) u

section Follow
variable {above : List FileTree} {names ps : List Path} {es : Entries Path FileTree} {p : Path}

theorem Stands.at? (h : t.Stands above names u) : t.at? names.reverse = some u := by
  induction h with
  | root => rfl
  | enter _ hu ih => rw [List.reverse_cons, at?_concat, ih, Option.bind_some, entries, hu]

/-- Above a directory that stands somewhere stands the directory with one name less. -/
theorem Stands.parent (h : t.Stands above names u) :
    t.Stands above.tail names.tail (above.headD u) := by
  cases h with
  | root => exact .root
  | enter h _ => exact h

theorem follow_idle (hp : Path.isIdle p = true) :
    follow above (directory es) (p :: ps) = follow above (directory es) ps := by
  rw [follow, if_pos hp]

theorem follow_up : follow above (directory es) (Path.up :: ps) =
    follow above.tail (above.headD (directory es)) ps := by
  rw [follow, if_neg (by decide), if_pos rfl]

theorem follow_long (hp : Path.isIdle p = false) (hup : p ≠ Path.up)
    (hlong : Path.isLongName p = true) :
    follow above (directory es) (p :: ps) = .error .tooLong := by
  rw [follow, hp, if_neg Bool.false_ne_true, if_neg hup, if_pos hlong]

theorem toOption_follow_name (hp : Path.IsName p) :
    (follow above (directory es) (p :: ps)).toOption =
      (Fields.get? es p).bind fun u => (follow (directory es :: above) u ps).toOption := by
  rw [follow, hp.notIdle, if_neg Bool.false_ne_true, if_neg hp.notUp, hp.notLong,
    if_neg Bool.false_ne_true]
  cases Fields.get? es p <;> rfl

/-- What is found at the end of a path stands at the names that the path comes down to. -/
theorem Stands.at?_follow : ∀ {ps : List Path} {above : List FileTree} {names : List Path}
    {u : FileTree}, t.Stands above names u → (follow above u ps).toOption = some v →
      t.at? (Path.namesFrom names ps) = some v
  | [], above, names, u, h, hv => by
    rw [Path.namesFrom, h.at?]
    exact hv
  | p :: ps, above, names, file c, h, hv => by cases hv
  | p :: ps, above, names, directory es, h, hv => by
    rcases Path.part_cases p with hidle | rfl | ⟨hidle, hup, hlong⟩ | hname
    · rw [follow_idle hidle] at hv
      rw [Path.namesFrom_idle hidle]
      exact h.at?_follow hv
    · rw [follow_up] at hv
      rw [Path.namesFrom_up]
      exact h.parent.at?_follow hv
    · rw [follow_long hidle hup hlong] at hv
      cases hv
    · rw [toOption_follow_name hname] at hv
      rw [Path.namesFrom_down hname.notIdle hname.notUp]
      obtain ⟨w, hw, hv⟩ := Option.bind_eq_some_iff.mp hv
      exact (h.enter hw).at?_follow hv

/-- A name at the end of a path is looked up in the directory that the rest leads to. -/
theorem toOption_follow_concat (hp : Path.IsName p) : ∀ {ps : List Path} {above : List FileTree}
    {u : FileTree}, (follow above u ps).toOption = some (directory es) →
      (follow above u (ps ++ [p])).toOption = Fields.get? es p
  | [], above, u, h => by
    obtain rfl := Option.some.inj h
    rw [List.nil_append, toOption_follow_name hp]
    exact Option.bind_fun_some _
  | q :: ps, above, file c, h => by cases h
  | q :: ps, above, directory es', h => by
    rw [List.cons_append]
    rcases Path.part_cases q with hidle | rfl | ⟨hidle, hup, hlong⟩ | hname
    · rw [follow_idle hidle] at h ⊢
      exact toOption_follow_concat hp h
    · rw [follow_up] at h ⊢
      exact toOption_follow_concat hp h
    · rw [follow_long hidle hup hlong] at h
      cases h
    · rw [toOption_follow_name hname] at h ⊢
      obtain ⟨w, hw, h⟩ := Option.bind_eq_some_iff.mp h
      rw [hw]
      exact toOption_follow_concat hp h

end Follow

end Sideload.FileTree
