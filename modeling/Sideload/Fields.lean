/-! # Fields: named values in written order

The attributes of an entity, the members of a JSON object and the relationships of a resource are
lists of named values whose order is kept. A name occurs at most once (`Distinct`). Names are texts
as a rule (`Fields`); what is said here holds of names of any kind (`Entries`), such as those of
files.

* `insert` gives a present name a new value in its old place, and puts a new name last
  (`keys_insert`, `get?_insert`).
* `insertIfNew` leaves a present name alone, and puts a new name last (`get?_insertIfNew`).
* `union` adds the fields of a second list that the first does not have: the first wins.
* `select` keeps the named fields, in the order in which they are named. -/

namespace Sideload

/-- Values with names of some kind, in written order. -/
abbrev Entries (κ α : Type) := List (κ × α)

/-- Named values, in written order. -/
abbrev Fields (α : Type) := Entries String α

namespace Fields

variable {κ α β : Type}

/-- The names, in written order. -/
def keys (fs : Entries κ α) : List κ := fs.map Prod.fst

/-- No name occurs twice. -/
def Distinct (fs : Entries κ α) : Prop := (keys fs).Nodup

/-- Apply a function to every value. -/
def mapValues (f : α → β) (fs : Entries κ α) : Entries κ β :=
  fs.map fun field => (field.1, f field.2)

variable [DecidableEq κ]

/-- The value of a name. -/
def get? : Entries κ α → κ → Option α
  | [], _ => none
  | (k, v) :: fs, name => if k = name then some v else get? fs name

/-- A name that is present gets the new value in its old place; a new name stands last. -/
def insert : Entries κ α → κ → α → Entries κ α
  | [], name, v => [(name, v)]
  | (k, w) :: fs, name, v => if k = name then (k, v) :: fs else (k, w) :: insert fs name v

/-- A name that is present keeps its value; a new name stands last. -/
def insertIfNew : Entries κ α → κ → α → Entries κ α
  | [], name, v => [(name, v)]
  | (k, w) :: fs, name, v => (k, w) :: if k = name then fs else insertIfNew fs name v

/-- The fields of both lists; where both have a name, the first list wins. -/
def union (fs gs : Entries κ α) : Entries κ α :=
  gs.foldl (fun acc field => insertIfNew acc field.1 field.2) fs

/-- One field for each name, at its first place and with its last value. -/
def ofList (entries : Entries κ α) : Entries κ α :=
  entries.foldl (fun acc entry => insert acc entry.1 entry.2) []

/-- The fields with the given names, in the order in which the names are first given. -/
def select (fs : Entries κ α) (names : List κ) : Entries κ α :=
  names.foldl (fun acc name => match get? fs name with
    | some v => insertIfNew acc name v
    | none => acc) []

/-! ### What the operations do to names and values -/

theorem get?_eq_none_iff {fs : Entries κ α} {name : κ} :
    get? fs name = none ↔ name ∉ keys fs := by
  induction fs with
  | nil => simp [get?, keys]
  | cons field fs ih =>
    obtain ⟨k, v⟩ := field
    by_cases h : k = name
    · simp [get?, keys, h]
    · have h' : name ≠ k := fun e => h e.symm
      simp only [keys] at ih
      simp only [get?, keys, h, if_false, ih, List.map_cons, List.mem_cons, h', false_or]

theorem get?_insert (fs : Entries κ α) (name : κ) (v : α) (other : κ) :
    get? (insert fs name v) other = if name = other then some v else get? fs other := by
  induction fs with
  | nil => rfl
  | cons field fs ih =>
    obtain ⟨k, w⟩ := field
    by_cases h : k = name
    · subst h; by_cases h' : k = other <;> simp [insert, get?, h']
    · by_cases h' : k = other
      · subst h'
        have hn : name ≠ k := fun e => h e.symm
        rw [insert, if_neg h, if_neg hn, get?, get?, if_pos rfl, if_pos rfl]
      · simp [insert, get?, h, h', ih]

theorem get?_insertIfNew (fs : Entries κ α) (name : κ) (v : α) (other : κ) :
    get? (insertIfNew fs name v) other =
      (get? fs other).or (if name = other then some v else none) := by
  induction fs with
  | nil => by_cases h : name = other <;> simp [insertIfNew, get?, h]
  | cons field fs ih =>
    obtain ⟨k, w⟩ := field
    by_cases h : k = name
    · subst h; by_cases h' : k = other <;> simp [insertIfNew, get?, h']
    · by_cases h' : k = other <;> simp [insertIfNew, get?, h, h', ih]

theorem keys_insert (fs : Entries κ α) (name : κ) (v : α) :
    keys (insert fs name v) = if name ∈ keys fs then keys fs else keys fs ++ [name] := by
  induction fs with
  | nil => rfl
  | cons field fs ih =>
    obtain ⟨k, w⟩ := field
    by_cases h : k = name
    · simp [insert, keys, h]
    · have h' : name ≠ k := fun e => h e.symm
      simp only [keys] at ih
      by_cases hm : name ∈ fs.map Prod.fst <;> simp [insert, keys, h, h', ih, hm]

theorem keys_insertIfNew (fs : Entries κ α) (name : κ) (v : α) :
    keys (insertIfNew fs name v) = if name ∈ keys fs then keys fs else keys fs ++ [name] := by
  induction fs with
  | nil => rfl
  | cons field fs ih =>
    obtain ⟨k, w⟩ := field
    by_cases h : k = name
    · simp [insertIfNew, keys, h]
    · have h' : name ≠ k := fun e => h e.symm
      simp only [keys] at ih
      by_cases hm : name ∈ fs.map Prod.fst <;> simp [insertIfNew, keys, h, h', ih, hm]

theorem mem_insertIfNew {fs : Entries κ α} {name : κ} {v : α} {field : κ × α}
    (h : field ∈ insertIfNew fs name v) : field ∈ fs ∨ field = (name, v) := by
  induction fs with
  | nil => exact Or.inr (List.mem_singleton.mp h)
  | cons head fs ih =>
    rw [insertIfNew, List.mem_cons] at h
    rcases h with rfl | h
    · exact Or.inl List.mem_cons_self
    · split at h
      · exact Or.inl (List.mem_cons_of_mem _ h)
      · exact (ih h).imp_left (List.mem_cons_of_mem _)

theorem mem_union {fs gs : Entries κ α} {field : κ × α} (h : field ∈ union fs gs) :
    field ∈ fs ∨ field ∈ gs := by
  unfold union at h
  induction gs generalizing fs with
  | nil => exact Or.inl h
  | cons g gs ih =>
    rcases ih h with h | h
    · rcases mem_insertIfNew h with h | rfl
      · exact Or.inl h
      · exact Or.inr List.mem_cons_self
    · exact Or.inr (List.mem_cons_of_mem _ h)

theorem Distinct.insert {fs : Entries κ α} (h : Distinct fs) (name : κ) (v : α) :
    Distinct (insert fs name v) := by
  unfold Distinct at *
  rw [keys_insert]
  split
  · exact h
  · rename_i hm
    exact List.nodup_append.2 ⟨h, by simp, by
      intro a ha b hb e
      exact hm (by rw [← List.mem_singleton.1 hb, ← e]; exact ha)⟩

theorem Distinct.insertIfNew {fs : Entries κ α} (h : Distinct fs) (name : κ) (v : α) :
    Distinct (insertIfNew fs name v) := by
  unfold Distinct at *
  rw [keys_insertIfNew, ← keys_insert fs name v]
  exact Distinct.insert h name v

end Fields

end Sideload
