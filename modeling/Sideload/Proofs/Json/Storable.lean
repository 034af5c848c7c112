import Sideload.Proofs.Json.Distinct

/-! # Values that have a text

A value can be written as a text that is read again if its containers stand in one another no deeper
than the reader allows, its names differ, and its numbers are integers that fit in 64 bits
(`Json.Storable`). Whatever is read without doubles is so (`storable_of_readNested`). -/

namespace Sideload.Json

/-- No number is a double. -/
inductive Integral : Json → Prop where
  | null : Integral .null
  | bool (b : Bool) : Integral (.bool b)
  | integer (n : Int) : Integral (.number (.integer n))
  | string (s : String) : Integral (.string s)
  | array {items : List Json} (values : ∀ v ∈ items, Integral v) : Integral (.array items)
  | object {members : Fields Json} (values : ∀ member ∈ members, Integral member.2) :
      Integral (.object members)

/-- A value without doubles that fits in some room: the integers have 64 bits, with or without a
sign, the names in an object differ, and at most so many containers stand inside each other. -/
inductive Storable : Nat → Json → Prop where
  | null {room : Nat} : Storable room .null
  | bool {room : Nat} (b : Bool) : Storable room (.bool b)
  | integer {room : Nat} {n : Int} (low : -(Nat.pow 2 63 : Nat) ≤ n)
      (high : n < (Nat.pow 2 64 : Nat)) : Storable room (.number (.integer n))
  | string {room : Nat} (s : String) : Storable room (.string s)
  | array {room : Nat} {items : List Json} (values : ∀ v ∈ items, Storable room v) :
      Storable (room + 1) (.array items)
  | object {room : Nat} {members : Fields Json} (names : Fields.Distinct members)
      (values : ∀ member ∈ members, Storable room member.2) : Storable (room + 1) (.object members)

@[simp] theorem storable_array_iff {room : Nat} {items : List Json} :
    (array items).Storable (room + 1) ↔ ∀ v ∈ items, v.Storable room := by
  constructor
  · rintro (_ | _ | _ | _ | hvalues)
    exact hvalues
  · exact .array

@[simp] theorem storable_object_iff {room : Nat} {members : Fields Json} :
    (object members).Storable (room + 1) ↔
      Fields.Distinct members ∧ ∀ member ∈ members, member.2.Storable room := by
  constructor
  · rintro (_ | _ | _ | _ | _ | ⟨hnames, hvalues⟩)
    exact ⟨hnames, hvalues⟩
  · exact fun ⟨hnames, hvalues⟩ => .object hnames hvalues

namespace Storable

theorem of_mem_array {room : Nat} {items : List Json} (h : (Json.array items).Storable (room + 1))
    {v : Json} (hv : v ∈ items) : v.Storable room :=
  storable_array_iff.mp h v hv

theorem of_mem_object {room : Nat} {members : Fields Json}
    (h : (Json.object members).Storable (room + 1)) {member : String × Json}
    (hm : member ∈ members) : member.2.Storable room :=
  (storable_object_iff.mp h).2 member hm

theorem distinct {room : Nat} {v : Json} (h : v.Storable room) : v.Distinct := by
  induction h with
  | null => exact .null
  | bool b => exact .bool b
  | integer _ _ => exact .number _
  | string s => exact .string s
  | array _ ih => exact .array ih
  | object hnames _ ih => exact .object hnames ih

theorem integral {room : Nat} {v : Json} (h : v.Storable room) : v.Integral := by
  induction h with
  | null => exact .null
  | bool b => exact .bool b
  | integer _ _ => exact .integer _
  | string s => exact .string s
  | array _ ih => exact .array ih
  | object _ _ ih => exact .object ih

/-- Some members of an object. -/
theorem select {room : Nat} {members : Fields Json} (h : (Json.object members).Storable room)
    (names : List String) : (Json.object (Fields.select members names)).Storable room := by
  cases h with
  | object _ hvalues =>
    exact .object (Fields.distinct_select members names) fun member hm =>
      hvalues member (Fields.mem_of_mem_select hm)

/-- The members of several objects, the first of each name. -/
theorem foldl_union {room : Nat} {members : Fields Json} {others : List (Fields Json)}
    (h : ∀ ms ∈ members :: others, (Json.object ms).Storable room) :
    (Json.object (others.foldl Fields.union members)).Storable room := by
  cases room with
  | zero => cases h members List.mem_cons_self
  | succ room =>
    have hnames := (storable_object_iff.mp (h members List.mem_cons_self)).1
    refine .object (hnames.foldl_union others) fun member hm => ?_
    obtain ⟨ms, hms, hm⟩ := Fields.mem_foldl_union hm
    exact (h ms hms).of_mem_object hm

end Storable

/-! ### Integers that are read -/

/-- A significand always fits. -/
theorem significand_foldl_pushWhole : ∀ (digits : List Char) {x : Decimal.Scaled},
    x.significand ≤ Decimal.maxSignificand →
      (digits.foldl Decimal.Scaled.pushWhole x).significand ≤ Decimal.maxSignificand
  | [], _, h => h
  | c :: digits, x, h => by
    refine significand_foldl_pushWhole digits ?_
    unfold Decimal.Scaled.pushWhole
    dsimp only
    split
    · next hfits => exact hfits.2
    · exact h

theorem range_of_integer? {isNegative : Bool} {whole : Decimal.Scaled} {n : Int}
    (hwhole : whole.significand ≤ Decimal.maxSignificand)
    (h : Number.integer? isNegative whole = some n) :
    -(Nat.pow 2 63 : Nat) ≤ n ∧ n < (Nat.pow 2 64 : Nat) := by
  have hmax : Decimal.maxSignificand + 1 = Nat.pow 2 64 := rfl
  unfold Number.integer? at h
  split at h
  · cases h
  · split at h
    · split at h
      · cases h
      · next hfits =>
        obtain rfl := Option.some.inj h
        omega
    · obtain rfl := Option.some.inj h
      omega

theorem range_of_ofParts {isNegative : Bool} {whole fraction : List Char} {exponent : Option Int}
    {n : Int} (h : Number.ofParts isNegative whole fraction exponent = .ok (.integer n)) :
    -(Nat.pow 2 63 : Nat) ≤ n ∧ n < (Nat.pow 2 64 : Nat) := by
  have hfront := significand_foldl_pushWhole whole (x := ⟨0, 0⟩) (Nat.zero_le _)
  unfold Number.ofParts at h
  dsimp only at h
  split at h
  · next hinteger =>
    cases h
    exact range_of_integer? hfront hinteger
  · split at h <;> cases h

theorem range_of_readUnsigned {isNegative : Bool} {cs rest : List Char} {n : Int}
    (h : Number.readUnsigned isNegative cs = .ok (.integer n, rest)) :
    -(Nat.pow 2 63 : Nat) ≤ n ∧ n < (Nat.pow 2 64 : Nat) := by
  unfold Number.readUnsigned at h
  split at h
  · cases h
  · split at h
    · cases h
    · split at h
      · cases h
      · obtain ⟨_, hparts, he⟩ := map_eq_ok h
        cases he
        exact range_of_ofParts hparts

theorem range_of_read {cs rest : List Char} {n : Int}
    (h : Number.read cs = .ok (.integer n, rest)) :
    -(Nat.pow 2 63 : Nat) ≤ n ∧ n < (Nat.pow 2 64 : Nat) := by
  unfold Number.read at h
  split at h <;> exact range_of_readUnsigned h

/-! ### Values that are read -/

theorem inherited_storable : Inherited fun room v => v.Integral → v.Storable room where
  scalar h room := by
    obtain rfl | ⟨b, rfl⟩ | ⟨s, rfl⟩ | ⟨n, rfl, hread⟩ := cases_of_readScalar h
    · exact fun _ => .null
    · exact fun _ => .bool b
    · exact fun _ => .string s
    · rintro (_ | _ | n)
      obtain ⟨hlow, hhigh⟩ := range_of_read hread
      exact .integer hlow hhigh
  array hitems := by
    rintro (_ | _ | _ | _ | hvalues)
    exact .array fun v hv => hitems v hv (hvalues v hv)
  object hnames hmembers := by
    rintro (_ | _ | _ | _ | _ | hvalues)
    exact .object hnames fun member hm => hmembers member hm (hvalues member hm)

/-- **Whatever is read without doubles** fits in the room in which it is read. -/
theorem storable_of_readNested {nesting : Nat} {text : String} {v : Json}
    (h : readNested nesting text = .ok v) (hv : v.Integral) : v.Storable nesting :=
  inherited_storable.of_readNested h hv

end Sideload.Json
