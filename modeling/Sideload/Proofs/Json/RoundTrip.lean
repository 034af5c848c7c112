import Sideload.Proofs.Json.Scalars

/-! # Values that are read back

Both forms in which values are written differ in blanks only (`Layout`, `write_compact`,
`write_pretty`). Whatever a layout writes for a value that can be stored is read back, in any place
where a value is due (`Walk.run_write`): the walk goes through the text part by part and puts each
part where it was taken from. So both forms of such a value are read as the value again, whatever
blanks stand behind them (`read_append_of_storable`). -/

namespace Sideload.Json

/-! ### Layouts -/

/-- The blanks of a text: in front of what stands on a level, and behind a colon. -/
structure Layout where
  line : Nat → List Char
  gap : List Char
  line_isSpace : ∀ level, ∀ c ∈ line level, isSpace c = true
  gap_isSpace : ∀ c ∈ gap, isSpace c = true

namespace Layout

/-- No blanks. -/
def compact : Layout where
  line _ := []
  gap := []
  line_isSpace _ := List.forall_mem_nil _
  gap_isSpace := List.forall_mem_nil _

/-- A line for each part, two spaces to a level. -/
def pretty : Layout where
  line level := '\n' :: List.replicate (2 * level) ' '
  gap := [' ']
  line_isSpace level c hc := by
    rcases List.mem_cons.mp hc with rfl | hc
    · rfl
    · rw [(List.mem_replicate.mp hc).2]
      rfl
  gap_isSpace := List.forall_mem_singleton.mpr rfl

mutual

/-- A value on a level, in front of `rest`. -/
def write (l : Layout) (level : Nat) : Json → List Char → List Char
  | array [], rest => '[' :: ']' :: rest
  | array (v :: items), rest =>
    '[' :: (l.line (level + 1) ++ l.write (level + 1) v (l.writeItems level items rest))
  | object [], rest => '\x7b' :: '\x7d' :: rest
  | object ((name, v) :: members), rest =>
    '\x7b' :: (l.line (level + 1) ++ writeString name
      (':' :: (l.gap ++ l.write (level + 1) v (l.writeMembers level members rest))))
  | v, rest => writeScalar v rest

/-- The items behind the first, and the end of the array. -/
def writeItems (l : Layout) (level : Nat) : List Json → List Char → List Char
  | [], rest => l.line level ++ ']' :: rest
  | v :: items, rest =>
    ',' :: (l.line (level + 1) ++ l.write (level + 1) v (l.writeItems level items rest))

/-- The members behind the first, and the end of the object. -/
def writeMembers (l : Layout) (level : Nat) : List (String × Json) → List Char → List Char
  | [], rest => l.line level ++ '\x7d' :: rest
  | (name, v) :: members, rest =>
    ',' :: (l.line (level + 1) ++ writeString name
      (':' :: (l.gap ++ l.write (level + 1) v (l.writeMembers level members rest))))

end

end Layout

/-! ### What is written behind a value -/

theorem writeString_append (s : String) (rest more : List Char) :
    writeString s (rest ++ more) = writeString s rest ++ more := by
  unfold writeString
  rw [List.cons_append, List.append_assoc, List.cons_append]

namespace Layout

variable (l : Layout)

mutual

/-- A value is written in front of a text in the same way as alone. -/
theorem write_append : ∀ (v : Json) (level : Nat) (rest more : List Char),
    l.write level v (rest ++ more) = l.write level v rest ++ more
  | .array [], _, _, _ => rfl
  | .array (v :: items), level, rest, more => by
    rw [write, write, writeItems_append items, write_append v, List.cons_append, List.append_assoc]
  | .object [], _, _, _ => rfl
  | .object ((name, v) :: members), level, rest, more => by
    simp only [write, writeString, writeMembers_append members, write_append v, List.cons_append,
      List.append_assoc]
  | .null, _, _, _ => rfl
  | .bool true, _, _, _ => rfl
  | .bool false, _, _, _ => rfl
  | .number n, _, rest, more => (List.append_assoc n.chars rest more).symm
  | .string s, _, rest, more => writeString_append s rest more

theorem writeItems_append : ∀ (items : List Json) (level : Nat) (rest more : List Char),
    l.writeItems level items (rest ++ more) = l.writeItems level items rest ++ more
  | [], _, _, _ => by rw [writeItems, writeItems, List.append_assoc, List.cons_append]
  | v :: items, level, rest, more => by
    rw [writeItems, writeItems, writeItems_append items, write_append v, List.cons_append,
      List.append_assoc]

theorem writeMembers_append : ∀ (members : List (String × Json)) (level : Nat)
    (rest more : List Char),
    l.writeMembers level members (rest ++ more) = l.writeMembers level members rest ++ more
  | [], _, _, _ => by rw [writeMembers, writeMembers, List.append_assoc, List.cons_append]
  | (name, v) :: members, level, rest, more => by
    simp only [writeMembers, writeString, writeMembers_append members, write_append v,
      List.cons_append, List.append_assoc]

end

end Layout

/-! ### Both forms -/

mutual

theorem write_compact : ∀ (v : Json) (level : Nat) (rest : List Char),
    Layout.compact.write level v rest = write v rest
  | array [], _, _ => rfl
  | array (v :: items), level, rest => by
    rw [Layout.write, write, writeItems_compact items, write_compact v]
    rfl
  | object [], _, _ => rfl
  | object ((name, v) :: members), level, rest => by
    rw [Layout.write, write, writeMembers_compact members, write_compact v]
    rfl
  | null, _, _ => rfl
  | bool _, _, _ => rfl
  | number _, _, _ => rfl
  | string _, _, _ => rfl

theorem writeItems_compact : ∀ (items : List Json) (level : Nat) (rest : List Char),
    Layout.compact.writeItems level items rest = writeItems items rest
  | [], _, _ => rfl
  | v :: items, level, rest => by
    rw [Layout.writeItems, writeItems, writeItems_compact items, write_compact v]
    rfl

theorem writeMembers_compact : ∀ (members : List (String × Json)) (level : Nat) (rest : List Char),
    Layout.compact.writeMembers level members rest = writeMembers members rest
  | [], _, _ => rfl
  | (name, v) :: members, level, rest => by
    rw [Layout.writeMembers, writeMembers, writeMembers_compact members, write_compact v]
    rfl

end

theorem pretty_line_append (level : Nat) (rest : List Char) :
    Layout.pretty.line level ++ rest = newLine level rest := rfl

mutual

theorem write_pretty : ∀ (v : Json) (level : Nat) (rest : List Char),
    Layout.pretty.write level v rest = writePretty level v rest
  | array [], _, _ => rfl
  | array (v :: items), level, rest => by
    rw [Layout.write, writePretty, writeItems_pretty items, write_pretty v, pretty_line_append]
  | object [], _, _ => rfl
  | object ((name, v) :: members), level, rest => by
    rw [Layout.write, writePretty, writeMembers_pretty members, write_pretty v, pretty_line_append]
    rfl
  | null, _, _ => rfl
  | bool _, _, _ => rfl
  | number _, _, _ => rfl
  | string _, _, _ => rfl

theorem writeItems_pretty : ∀ (items : List Json) (level : Nat) (rest : List Char),
    Layout.pretty.writeItems level items rest = writePrettyItems level items rest
  | [], _, _ => rfl
  | v :: items, level, rest => by
    rw [Layout.writeItems, writePrettyItems, writeItems_pretty items, write_pretty v,
      pretty_line_append]

theorem writeMembers_pretty : ∀ (members : List (String × Json)) (level : Nat) (rest : List Char),
    Layout.pretty.writeMembers level members rest = writePrettyMembers level members rest
  | [], _, _ => rfl
  | (name, v) :: members, level, rest => by
    rw [Layout.writeMembers, writePrettyMembers, writeMembers_pretty members, write_pretty v,
      pretty_line_append]
    rfl

end

/-! ### Steps of the reader -/

namespace Walk

theorem run_of_step {w w' : Walk} {c : Char} {cs rest : List Char} (hc : isSpace c = false)
    (h : w.step c cs = .ok (w', rest)) : w.run (c :: cs) = w'.run rest := by
  rw [run, if_neg (by simp [hc])]
  split
  · next heq =>
    rw [h] at heq
    cases heq
    rfl
  · next heq =>
    rw [h] at heq
    cases heq

theorem run_spaces (w : Walk) : ∀ {front : List Char}, (∀ c ∈ front, isSpace c = true) →
    ∀ cs, w.run (front ++ cs) = w.run cs
  | [], _, _ => rfl
  | c :: front, h, cs => by
    obtain ⟨hc, hfront⟩ := List.forall_mem_cons.mp h
    rw [List.cons_append, run, if_pos hc]
    exact run_spaces w hfront cs

/-- A value is due. -/
def AwaitsValue (mode : Mode) : Prop := mode = .value ∨ mode = .firstItem

/-- A member name is due. -/
def AwaitsName (mode : Mode) : Prop := mode = .name ∨ mode = .firstName

section Parts
variable {room : Nat} {opened : List Frame} {mode : Mode} {items : List Json}
  {members : Fields Json} {name : String}

theorem step_of_awaitsValue (h : AwaitsValue mode) {c : Char} (hc : c ≠ ']') (cs : List Char) :
    step ⟨room, opened, mode⟩ c cs = begin ⟨room, opened, mode⟩ c cs := by
  rcases h with rfl | rfl
  · rfl
  · exact if_neg hc

theorem run_scalar (h : AwaitsValue mode) {c : Char} (hc : BeginsScalar c) {cs rest : List Char}
    {v : Json} (hv : readScalar c cs = .ok (v, rest)) :
    run ⟨room, opened, mode⟩ (c :: cs) = run (put ⟨room, opened, .next⟩ v) rest := by
  obtain ⟨hspace, harray, hclose, hobject⟩ := hc
  refine run_of_step hspace ?_
  rw [step_of_awaitsValue h hclose, begin, if_neg harray, if_neg hobject, hv]
  rfl

theorem run_array (h : AwaitsValue mode) (cs : List Char) :
    run ⟨room + 1, opened, mode⟩ ('[' :: cs) = run ⟨room, .array [] :: opened, .firstItem⟩ cs := by
  refine run_of_step rfl ?_
  rw [step_of_awaitsValue h (by decide)]
  rfl

theorem run_object (h : AwaitsValue mode) (cs : List Char) :
    run ⟨room + 1, opened, mode⟩ ('\x7b' :: cs) =
      run ⟨room, .object [] "" :: opened, .firstName⟩ cs := by
  refine run_of_step rfl ?_
  rw [step_of_awaitsValue h (by decide)]
  rfl

theorem run_endArray (h : mode = .firstItem ∨ mode = .next) (cs : List Char) :
    run ⟨room, .array items :: opened, mode⟩ (']' :: cs) =
      run (put ⟨room + 1, opened, .next⟩ (.array items.reverse)) cs := by
  rcases h with rfl | rfl <;> exact run_of_step rfl rfl

theorem run_endObject (h : mode = .firstName ∨ mode = .next) (cs : List Char) :
    run ⟨room, .object members name :: opened, mode⟩ ('\x7d' :: cs) =
      run (put ⟨room + 1, opened, .next⟩ (.object members)) cs := by
  rcases h with rfl | rfl <;> exact run_of_step rfl rfl

theorem run_nextItem (cs : List Char) :
    run ⟨room, .array items :: opened, .next⟩ (',' :: cs) =
      run ⟨room, .array items :: opened, .value⟩ cs :=
  run_of_step rfl rfl

theorem run_nextName (cs : List Char) :
    run ⟨room, .object members name :: opened, .next⟩ (',' :: cs) =
      run ⟨room, .object members name :: opened, .name⟩ cs :=
  run_of_step rfl rfl

theorem run_name (h : AwaitsName mode) (s : String) (cs : List Char) :
    run ⟨room, .object members name :: opened, mode⟩ (writeString s (':' :: cs)) =
      run ⟨room, .object members s :: opened, .value⟩ cs := by
  have hnamed : named ⟨room, .object members name :: opened, mode⟩ '"'
      (s.toList.flatMap escape ++ '"' :: ':' :: cs) =
        .ok (⟨room, .object members s :: opened, .colon⟩, ':' :: cs) := by
    unfold named
    dsimp only
    rw [if_pos rfl, readString_text]
    rfl
  calc
    _ = run ⟨room, .object members s :: opened, .colon⟩ (':' :: cs) := by
      rcases h with rfl | rfl <;> exact run_of_step rfl hnamed
    _ = _ := run_of_step rfl rfl

end Parts

end Walk

/-! ### What stands behind a value -/

theorem EndsNumber.of_isSpace {front rest : List Char} (hfront : ∀ c ∈ front, isSpace c = true)
    (hrest : EndsNumber rest) : EndsNumber (front ++ rest) := by
  cases front with
  | nil => exact hrest
  | cons c front =>
    have hc : isSpace c = true := hfront c List.mem_cons_self
    unfold isSpace at hc
    simp only [Bool.or_eq_true, decide_eq_true_iff] at hc
    rcases hc with ((rfl | rfl) | rfl) | rfl <;>
      exact .cons (by decide) (by decide) (by decide) (by decide) _

theorem Layout.endsNumber_writeItems (l : Layout) (level : Nat) (items : List Json)
    (rest : List Char) : EndsNumber (l.writeItems level items rest) := by
  cases items with
  | nil =>
    rw [writeItems]
    exact .of_isSpace (l.line_isSpace level)
      (.cons (by decide) (by decide) (by decide) (by decide) _)
  | cons v items => exact .cons (by decide) (by decide) (by decide) (by decide) _

theorem Layout.endsNumber_writeMembers (l : Layout) (level : Nat)
    (members : List (String × Json)) (rest : List Char) :
    EndsNumber (l.writeMembers level members rest) := by
  cases members with
  | nil =>
    rw [writeMembers]
    exact .of_isSpace (l.line_isSpace level)
      (.cons (by decide) (by decide) (by decide) (by decide) _)
  | cons member members =>
    obtain ⟨name, v⟩ := member
    exact .cons (by decide) (by decide) (by decide) (by decide) _

/-! ### Values in place -/

namespace Walk

variable (l : Layout)

theorem run_writeScalar {room : Nat} {opened : List Frame} {mode : Mode} {v : Json}
    (hv : v.Storable room) (hscalar : v.IsScalar) (hmode : AwaitsValue mode) {rest : List Char}
    (hrest : EndsNumber rest) :
    run ⟨room, opened, mode⟩ (writeScalar v rest) = run (put ⟨room, opened, .next⟩ v) rest := by
  obtain ⟨c, cs, hcs, hbegins, hread⟩ := readScalar_writeScalar hv hscalar hrest
  rw [hcs]
  exact run_scalar hmode hbegins hread

/-- The value of a new name is put last. -/
theorem put_newName {room : Nat} {opened : List Frame} {mode : Mode} {members : Fields Json}
    {name : String} (h : name ∉ Fields.keys members) (v : Json) :
    put ⟨room, .object members name :: opened, mode⟩ v =
      ⟨room, .object (members ++ [(name, v)]) name :: opened, .next⟩ := by
  unfold put
  dsimp only
  rw [Fields.insert_of_not_mem v h]

mutual

/-- **A value is read back where it is due**, and put where it belongs. -/
theorem run_write : ∀ (v : Json) {room : Nat} {opened : List Frame} {mode : Mode} (level : Nat)
    (rest : List Char), v.Storable room → AwaitsValue mode → EndsNumber rest →
      run ⟨room, opened, mode⟩ (l.write level v rest) = run (put ⟨room, opened, .next⟩ v) rest
  | array [], _, _, _, _, rest, .array _, hmode, _ => by
    rw [Layout.write, run_array hmode, run_endArray (Or.inl rfl), List.reverse_nil]
  | array (v :: items), _, _, _, level, rest, .array hvalues, hmode, _ => by
    obtain ⟨hv, hitems⟩ := List.forall_mem_cons.mp hvalues
    rw [Layout.write, run_array hmode, run_spaces _ (l.line_isSpace _),
      run_write v _ _ hv (Or.inr rfl) (l.endsNumber_writeItems level items rest)]
    exact run_writeItems items level rest hitems
  | object [], _, _, _, _, rest, .object _ _, hmode, _ => by
    rw [Layout.write, run_object hmode, run_endObject (Or.inl rfl)]
  | object ((name, v) :: members), _, _, _, level, rest, .object hnames hvalues, hmode, _ => by
    obtain ⟨hv, hmembers⟩ := List.forall_mem_cons.mp hvalues
    rw [Layout.write, run_object hmode, run_spaces _ (l.line_isSpace _), run_name (Or.inr rfl),
      run_spaces _ l.gap_isSpace,
      run_write v _ _ hv (Or.inl rfl) (l.endsNumber_writeMembers level members rest),
      put_newName List.not_mem_nil]
    exact run_writeMembers members level rest hnames hmembers
  | null, _, _, _, _, _, hv, hmode, hrest => run_writeScalar hv trivial hmode hrest
  | bool _, _, _, _, _, _, hv, hmode, hrest => run_writeScalar hv trivial hmode hrest
  | number _, _, _, _, _, _, hv, hmode, hrest => run_writeScalar hv trivial hmode hrest
  | string _, _, _, _, _, _, hv, hmode, hrest => run_writeScalar hv trivial hmode hrest

/-- The items behind the first are read into the open array, which is closed then. -/
theorem run_writeItems : ∀ (items : List Json) {room : Nat} {opened : List Frame}
    {seen : List Json} (level : Nat) (rest : List Char), (∀ v ∈ items, v.Storable room) →
      run ⟨room, .array seen :: opened, .next⟩ (l.writeItems level items rest) =
        run (put ⟨room + 1, opened, .next⟩ (.array (seen.reverse ++ items))) rest
  | [], _, _, seen, level, rest, _ => by
    rw [Layout.writeItems, run_spaces _ (l.line_isSpace _), run_endArray (Or.inr rfl),
      List.append_nil]
  | v :: items, room, opened, seen, level, rest, hvalues => by
    obtain ⟨hv, hitems⟩ := List.forall_mem_cons.mp hvalues
    have hput : put ⟨room, .array seen :: opened, .next⟩ v =
        ⟨room, .array (v :: seen) :: opened, .next⟩ := rfl
    rw [Layout.writeItems, run_nextItem, run_spaces _ (l.line_isSpace _),
      run_write v _ _ hv (Or.inl rfl) (l.endsNumber_writeItems level items rest), hput,
      run_writeItems items level rest hitems, List.reverse_cons, List.append_assoc,
      List.singleton_append]

/-- The members behind the first are read into the open object, which is closed then. -/
theorem run_writeMembers : ∀ (members : List (String × Json)) {room : Nat} {opened : List Frame}
    {seen : Fields Json} {name : String} (level : Nat) (rest : List Char),
      Fields.Distinct (seen ++ members) → (∀ member ∈ members, member.2.Storable room) →
      run ⟨room, .object seen name :: opened, .next⟩ (l.writeMembers level members rest) =
        run (put ⟨room + 1, opened, .next⟩ (.object (seen ++ members))) rest
  | [], _, _, seen, _, level, rest, _, _ => by
    rw [Layout.writeMembers, run_spaces _ (l.line_isSpace _), run_endObject (Or.inr rfl),
      List.append_nil]
  | (name, v) :: members, _, _, seen, _, level, rest, hnames, hvalues => by
    obtain ⟨hv, hmembers⟩ := List.forall_mem_cons.mp hvalues
    have hsplit : seen ++ (name, v) :: members = (seen ++ [(name, v)]) ++ members := by simp
    have hnew : name ∉ Fields.keys seen := by
      unfold Fields.Distinct Fields.keys at hnames
      rw [List.map_append] at hnames
      exact fun h => (List.nodup_append.mp hnames).2.2 name h name List.mem_cons_self rfl
    rw [Layout.writeMembers, run_nextName, run_spaces _ (l.line_isSpace _), run_name (Or.inl rfl),
      run_spaces _ l.gap_isSpace,
      run_write v _ _ hv (Or.inl rfl) (l.endsNumber_writeMembers level members rest),
      put_newName hnew]
    rw [hsplit] at hnames ⊢
    exact run_writeMembers members level rest hnames hmembers

end

end Walk

/-- **Whatever a layout writes is read back**, with any blanks behind it. -/
theorem readNested_write (l : Layout) {nesting : Nat} {v : Json} (hv : v.Storable nesting)
    {rest : List Char} (hrest : ∀ c ∈ rest, isSpace c = true) :
    readNested nesting (String.ofList (l.write 0 v rest)) = .ok v := by
  have hends : EndsNumber rest := by
    rw [← List.append_nil rest]
    exact .of_isSpace hrest .nil
  unfold readNested
  rw [String.toList_ofList, Walk.run_write l v 0 rest hv (Or.inl rfl) hends, ← List.append_nil rest,
    Walk.run_spaces _ hrest]
  rw [Walk.put, Walk.run]

/-- Both forms of a value are written by a layout. -/
theorem exists_layout (v : Json) (isPretty : Bool) :
    ∃ l : Layout, (if isPretty then v.pretty else v.compact) = String.ofList (l.write 0 v []) := by
  cases isPretty with
  | true => exact ⟨.pretty, congrArg String.ofList (write_pretty v 0 []).symm⟩
  | false => exact ⟨.compact, congrArg String.ofList (write_compact v 0 []).symm⟩

/-- **Both forms of a value are read back**, with any blanks behind them. -/
theorem read_append_of_storable {v : Json} (hv : v.Storable maxNesting) (isPretty : Bool)
    {blanks : String} (hblanks : ∀ c ∈ blanks.toList, isSpace c = true) :
    read ((if isPretty then v.pretty else v.compact) ++ blanks) = .ok v := by
  obtain ⟨l, hl⟩ := exists_layout v isPretty
  have htext : String.ofList (l.write 0 v []) ++ blanks =
      String.ofList (l.write 0 v blanks.toList) := by
    rw [← List.nil_append blanks.toList, l.write_append, String.ofList_append, String.ofList_toList]
  rw [hl, htext]
  exact readNested_write l hv hblanks

theorem read_of_storable {v : Json} (hv : v.Storable maxNesting) (isPretty : Bool) :
    read (if isPretty then v.pretty else v.compact) = .ok v := by
  rw [← String.append_empty (s := if isPretty then v.pretty else v.compact)]
  exact read_append_of_storable hv isPretty (by simp)

end Sideload.Json
