import Sideload.Json.Reader
import Sideload.Proofs.Fields.FirstWins

/-! # What the reader builds

A property that scalars have, and that an array or an object has if its parts have it one container
deeper, holds of whatever is read (`Inherited.of_readNested`): it holds of all that the open
containers hold so far (`Walk.Keeps`), each as deep as it stands, and every step of the reader keeps
it (`Walk.Keeps.step`). A repeated name takes the place of the first one, so the names of an object
may be taken to differ. -/

namespace Sideload.Json

/-- A property of values with room for some containers inside each other: scalars have it, and
containers have it from their parts, which have less room. -/
structure Inherited (P : Nat → Json → Prop) : Prop where
  scalar : ∀ {c : Char} {cs rest : List Char} {v : Json}, readScalar c cs = .ok (v, rest) →
    ∀ room, P room v
  array : ∀ {room : Nat} {items : List Json}, (∀ v ∈ items, P room v) →
    P (room + 1) (.array items)
  object : ∀ {room : Nat} {members : Fields Json}, Fields.Distinct members →
    (∀ member ∈ members, P room member.2) → P (room + 1) (.object members)

/-- A scalar is a word, a text, or a number that is read from its first character on. -/
theorem cases_of_readScalar {c : Char} {cs rest : List Char} {v : Json}
    (h : readScalar c cs = .ok (v, rest)) :
    v = .null ∨ (∃ b, v = .bool b) ∨ (∃ s, v = .string s) ∨
      ∃ n, v = .number n ∧ Number.read (c :: cs) = .ok (n, rest) := by
  unfold readScalar at h
  split at h
  · obtain ⟨_, -, he⟩ := map_eq_ok h
    cases he
    exact Or.inr (Or.inr (Or.inl ⟨_, rfl⟩))
  · split at h
    · next word v' hword =>
      obtain ⟨_, -, he⟩ := map_eq_ok h
      cases he
      unfold wordValue? at hword
      split at hword <;> cases hword
      · exact Or.inr (Or.inl ⟨true, rfl⟩)
      · exact Or.inr (Or.inl ⟨false, rfl⟩)
      · exact Or.inl rfl
    · obtain ⟨found, hread, he⟩ := map_eq_ok h
      cases he
      exact Or.inr (Or.inr (Or.inr ⟨_, rfl, hread⟩))

/-- The parts of an open container have a property, and their names differ. -/
def Frame.Keeps (P : Json → Prop) : Frame → Prop
  | array items => ∀ v ∈ items, P v
  | object members _ => Fields.Distinct members ∧ ∀ member ∈ members, P member.2

theorem Frame.Keeps.empty_array (P : Json → Prop) : Frame.Keeps P (.array []) :=
  List.forall_mem_nil _

theorem Frame.Keeps.empty_object (P : Json → Prop) : Frame.Keeps P (.object [] "") :=
  ⟨List.nodup_nil, List.forall_mem_nil _⟩

namespace Walk

/-- The open containers, innermost first: each one has more room than those inside it. -/
def AllKeep (P : Nat → Json → Prop) : Nat → List Frame → Prop
  | _, [] => True
  | room, frame :: outer => frame.Keeps (P room) ∧ AllKeep P (room + 1) outer

/-- What a walk has built so far has a property, for a value with `total` room. -/
structure Keeps (P : Nat → Json → Prop) (total : Nat) (w : Walk) : Prop where
  balance : w.room + w.opened.length = total
  opened : AllKeep P w.room w.opened
  done : ∀ v, w.mode = .done v → P total v

section Steps
variable {P : Nat → Json → Prop} {total : Nat} {w w' : Walk}

/-- Nothing is built as long as the walk goes on from the same containers. -/
theorem Keeps.of_opened {room : Nat} {opened : List Frame} {mode : Mode}
    (htotal : room + opened.length = total) (hopened : AllKeep P room opened)
    (hmode : ∀ v, mode ≠ .done v) : Keeps P total ⟨room, opened, mode⟩ :=
  ⟨htotal, hopened, fun v hv => absurd hv (hmode v)⟩

theorem Keeps.put (htotal : w.room + w.opened.length = total) (hopened : AllKeep P w.room w.opened)
    {v : Json} (hv : P w.room v) : Keeps P total (w.put v) := by
  unfold Walk.put
  split
  · next hnil =>
    rw [hnil, List.length_nil, Nat.add_zero] at htotal
    exact ⟨htotal, trivial, fun _ hmode => Mode.done.inj hmode ▸ htotal ▸ hv⟩
  · next items outer hframe =>
    rw [hframe] at hopened htotal
    exact .of_opened htotal ⟨List.forall_mem_cons.mpr ⟨hv, hopened.1⟩, hopened.2⟩ nofun
  · next members name outer hframe =>
    rw [hframe] at hopened htotal
    obtain ⟨⟨hnames, hmembers⟩, houter⟩ := hopened
    refine .of_opened htotal ⟨⟨hnames.insert name v, fun member hm => ?_⟩, houter⟩ nofun
    rcases Fields.mem_insert hm with hm | rfl
    · exact hmembers member hm
    · exact hv

theorem Keeps.enter (h : Keeps P total w) {frame : Frame} {mode : Mode}
    (hw : w.enter frame mode = .ok w') (hframe : ∀ room, frame.Keeps (P room))
    (hmode : ∀ v, mode ≠ .done v) : Keeps P total w' := by
  unfold Walk.enter at hw
  split at hw
  · cases hw
  · next room hroom =>
    obtain rfl := Except.ok.inj hw
    have htotal := h.balance
    have hopened := h.opened
    rw [hroom] at htotal hopened
    exact .of_opened (by rw [List.length_cons]; omega) ⟨hframe room, hopened⟩ hmode

variable (hP : Inherited P)
include hP

theorem Keeps.leave (h : Keeps P total w) {c : Char} (hw : w.leave c = .ok w') :
    Keeps P total w' := by
  have htotal := h.balance
  have hopened := h.opened
  unfold Walk.leave at hw
  split at hw
  · next items outer hframe =>
    rw [hframe] at hopened htotal
    rw [List.length_cons] at htotal
    split at hw <;> cases hw
    exact .put (by dsimp only; omega) hopened.2
      (hP.array fun v hv => hopened.1 v (List.mem_reverse.mp hv))
  · next members name outer hframe =>
    rw [hframe] at hopened htotal
    rw [List.length_cons] at htotal
    split at hw <;> cases hw
    exact .put (by dsimp only; omega) hopened.2 (hP.object hopened.1.1 hopened.1.2)
  · cases hw

theorem Keeps.begin (h : Keeps P total w) {c : Char} {cs rest : List Char}
    (hw : w.begin c cs = .ok (w', rest)) : Keeps P total w' := by
  unfold Walk.begin at hw
  split at hw
  · obtain ⟨_, henter, he⟩ := map_eq_ok hw
    cases he
    exact h.enter henter (fun room => .empty_array (P room)) nofun
  · split at hw
    · obtain ⟨_, henter, he⟩ := map_eq_ok hw
      cases he
      exact h.enter henter (fun room => .empty_object (P room)) nofun
    · obtain ⟨_, hscalar, he⟩ := map_eq_ok hw
      cases he
      exact .put h.balance h.opened (hP.scalar hscalar w.room)

omit hP in
theorem Keeps.named (h : Keeps P total w) {c : Char} {cs rest : List Char}
    (hw : w.named c cs = .ok (w', rest)) : Keeps P total w' := by
  have htotal := h.balance
  have hopened := h.opened
  unfold Walk.named at hw
  split at hw
  · next members name outer hframe =>
    rw [hframe] at hopened htotal
    split at hw
    · obtain ⟨_, -, he⟩ := map_eq_ok hw
      cases he
      exact .of_opened htotal hopened nofun
    · cases hw
  · cases hw

theorem Keeps.separate (h : Keeps P total w) {c : Char} (hw : w.separate c = .ok w') :
    Keeps P total w' := by
  unfold Walk.separate at hw
  split at hw
  · split at hw <;> cases hw <;> exact .of_opened h.balance h.opened nofun
  · exact h.leave hP hw

/-- **Every step of the reader keeps** what holds of all that is built. -/
theorem Keeps.step (h : Keeps P total w) {c : Char} {cs rest : List Char}
    (hw : w.step c cs = .ok (w', rest)) : Keeps P total w' := by
  have hleave : ∀ {w'}, (w.leave c).map (·, cs) = .ok (w', rest) → Keeps P total w' := by
    intro w' hw
    obtain ⟨_, hleave, he⟩ := map_eq_ok hw
    cases he
    exact h.leave hP hleave
  unfold Walk.step at hw
  split at hw
  · exact h.begin hP hw
  · split at hw
    · exact hleave hw
    · exact h.begin hP hw
  · exact h.named hw
  · split at hw
    · exact hleave hw
    · exact h.named hw
  · split at hw <;> cases hw
    exact .of_opened h.balance h.opened nofun
  · obtain ⟨_, hseparate, he⟩ := map_eq_ok hw
    cases he
    exact h.separate hP hseparate
  · cases hw

theorem Keeps.run {cs : List Char} {v : Json} (h : Keeps P total w) (hv : w.run cs = .ok v) :
    P total v := by
  fun_induction Walk.run w cs with
  | case1 w v' hmode =>
    cases hv
    exact h.done _ hmode
  | case2 => cases hv
  | case3 w c cs hspace ih => exact ih h hv
  | case4 w c cs hspace w' rest hstep hlt ih => exact ih (h.step hP hstep) hv
  | case5 => cases hv

end Steps

end Walk

/-- **What scalars have and containers inherit** holds of whatever is read. -/
theorem Inherited.of_readNested {P : Nat → Json → Prop} (hP : Inherited P) {nesting : Nat}
    {text : String} {v : Json} (h : readNested nesting text = .ok v) : P nesting v := by
  have hstart : Walk.Keeps P nesting ⟨nesting, [], .value⟩ := .of_opened rfl trivial nofun
  exact hstart.run hP h

end Sideload.Json
