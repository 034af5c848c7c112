import Mathlib.Data.List.Basic
import Sideload.Json.Pointer
import Sideload.Proofs.Decimal.Digits
import Sideload.Proofs.Lists.Fronts
import Sideload.Proofs.Lists.Related

/-! # What stands at a place of a JSON value

A place is read token by token (`Place.tokens?`), and each token leads to a member or to an item
(`Place.child?`); so a place leads to a value or to none (`Json.at?`).

The places that are built from member names and item numbers lead where they should (`at?_member`,
`at?_item`), since `escape` is undone when tokens are read. A name that is appended as it stands is
read as itself only if it is `Plain`: if it has neither a slash nor a tilde
(`tokens?_append_eq_iff`). -/

namespace Sideload.Json

namespace Place

/-- The name that a token stands for. A tilde is part of `~0` or `~1`. -/
def unescape? : List Char → Option (List Char)
  | [] => some []
  | '~' :: '0' :: cs => (unescape? cs).map ('~' :: ·)
  | '~' :: '1' :: cs => (unescape? cs).map ('/' :: ·)
  | c :: cs => if c = '~' then none else (unescape? cs).map (c :: ·)

/-- The name of a token, as text. -/
def name? (token : List Char) : Option String := (unescape? token).map String.ofList

/-- The names on the way down to a place: what stands behind each slash. -/
def tokens? (place : String) : Option (List String) :=
  match place.toList.splitOn '/' with
  | [] :: tokens => tokens.mapM name?
  | _ => none

/-- A name that needs no escape. -/
def Plain (name : String) : Prop := '/' ∉ name.toList ∧ '~' ∉ name.toList

/-- What a name leads to: a member, or the item with the number that the name writes. -/
def child? : Json → String → Option Json
  | .object members, name => Fields.get? members name
  | .array items, name =>
    ((List.range items.length).find? fun i : Nat => Decimal.integerText i = name).bind (items[·]?)
  | _, _ => none

end Place

/-- What stands at a place of a value. -/
def at? (v : Json) (place : String) : Option Json :=
  (Place.tokens? place).bind fun names => names.foldlM Place.child? v

namespace Place

/-! ### Tokens and names -/

theorem unescape?_cons {c : Char} (h : c ≠ '~') (cs : List Char) :
    unescape? (c :: cs) = (unescape? cs).map (c :: ·) := by
  rw [unescape?, if_neg h] <;> exact fun _ hc => absurd hc h

theorem unescape?_of_not_mem {cs : List Char} (h : '~' ∉ cs) : unescape? cs = some cs := by
  induction cs with
  | nil => rfl
  | cons c cs ih =>
    have hc : c ≠ '~' := fun e => h (e ▸ List.mem_cons_self)
    rw [unescape?_cons hc, ih (List.not_mem_of_not_mem_cons h), Option.map_some]

/-- Every tilde of a token is one of two characters that stand for one. -/
theorem length_of_unescape? {cs ds : List Char} (h : unescape? cs = some ds) :
    ds.length + cs.count '~' = cs.length := by
  fun_induction unescape? cs generalizing ds with
  | case1 =>
    cases h
    rfl
  | case2 cs ih =>
    obtain ⟨es, hes, rfl⟩ := Option.map_eq_some_iff.mp h
    have hlength := ih hes
    simp only [List.length_cons, List.count_cons_self, List.count_cons_of_ne (by decide : '0' ≠ '~')]
    omega
  | case3 cs ih =>
    obtain ⟨es, hes, rfl⟩ := Option.map_eq_some_iff.mp h
    have hlength := ih hes
    simp only [List.length_cons, List.count_cons_self, List.count_cons_of_ne (by decide : '1' ≠ '~')]
    omega
  | case4 => cases h
  | case5 c cs _ _ hc ih =>
    obtain ⟨es, hes, rfl⟩ := Option.map_eq_some_iff.mp h
    have hlength := ih hes
    simp only [List.length_cons, List.count_cons_of_ne hc]
    omega

/-- A token stands for itself if it has no tilde. -/
theorem name?_eq_some_iff {token : List Char} :
    name? token = some (String.ofList token) ↔ '~' ∉ token := by
  unfold name?
  constructor
  · intro h
    obtain ⟨name, hname, heq⟩ := Option.map_eq_some_iff.mp h
    have hlength := length_of_unescape? hname
    rw [String.ofList_inj.mp heq] at hlength
    rw [← List.count_eq_zero]
    omega
  · intro h
    rw [unescape?_of_not_mem h, Option.map_some]

theorem unescape?_toList_escape (name : String) :
    unescape? (escape name).toList = some name.toList := by
  unfold escape
  rw [String.toList_ofList]
  induction name.toList with
  | nil => rfl
  | cons c cs ih =>
    rw [List.flatMap_cons]
    by_cases htilde : c = '~'
    · rw [if_pos htilde, htilde, List.cons_append, List.singleton_append, unescape?, ih]
      rfl
    · rw [if_neg htilde]
      by_cases hslash : c = '/'
      · rw [if_pos hslash, hslash, List.cons_append, List.singleton_append, unescape?, ih]
        rfl
      · rw [if_neg hslash, List.singleton_append, unescape?_cons htilde, ih, Option.map_some]

theorem name?_escape (name : String) : name? (escape name).toList = some name := by
  rw [name?, unescape?_toList_escape, Option.map_some, String.ofList_toList]

theorem slash_not_mem_escape (name : String) : '/' ∉ (escape name).toList := by
  unfold escape
  rw [String.toList_ofList, List.mem_flatMap]
  rintro ⟨c, -, hc⟩
  split at hc
  · simp at hc
  · split at hc
    · simp at hc
    · next hslash => exact hslash (List.mem_singleton.mp hc).symm

theorem escape_of_plain {name : String} (h : Plain name) : escape name = name := by
  have hchars : ∀ c ∈ name.toList, (if c = '~' then ['~', '0'] else if c = '/' then ['~', '1']
      else [c]) = [c] := by
    intro c hc
    have htilde : c ≠ '~' := fun e => h.2 (e ▸ hc)
    have hslash : c ≠ '/' := fun e => h.1 (e ▸ hc)
    rw [if_neg htilde, if_neg hslash]
  rw [escape, List.flatMap_congr hchars, List.flatMap_singleton', String.ofList_toList]

theorem plain_integerText (i : Nat) : Plain (Decimal.integerText i) := by
  have hdigits : ∀ c ∈ (Decimal.integerText i).toList, c.isDigit = true := by
    rw [Decimal.integerText, String.toList_ofList, Decimal.integerChars_natCast]
    exact fun c => Decimal.isDigit_of_mem_toDigits
  have hnot : ∀ c : Char, c.isDigit = false → c ∉ (Decimal.integerText i).toList :=
    fun c hc hmem => Bool.noConfusion (hc.symm.trans (hdigits c hmem))
  exact ⟨hnot '/' (by decide), hnot '~' (by decide)⟩

/-- An item is written like a member that is named by the number. -/
theorem item_eq_member (place : String) (i : Nat) :
    item place i = member place (Decimal.integerText i) := by
  rw [item, member, escape_of_plain (plain_integerText i)]

/-! ### Places that go on -/

theorem splitOn_toList_append (place text : String) :
    (place ++ "/" ++ text).toList.splitOn '/' =
      place.toList.splitOn '/' ++ text.toList.splitOn '/' := by
  rw [String.toList_append, String.toList_append, List.append_assoc]
  exact List.splitOn_append_cons_self _ _

/-- A text behind a slash adds the names of its own tokens. -/
theorem tokens?_append (place text : String) : tokens? (place ++ "/" ++ text) =
    (tokens? place).bind fun names =>
      ((text.toList.splitOn '/').mapM name?).map (names ++ ·) := by
  unfold tokens?
  rw [splitOn_toList_append]
  generalize hplace : place.toList.splitOn '/' = parts
  cases parts with
  | nil => exact absurd hplace (List.splitOn_ne_nil '/' place.toList)
  | cons front tokens =>
    cases front with
    | cons c cs => rfl
    | nil =>
      rw [List.cons_append]
      dsimp only
      rw [List.mapM_append]
      cases tokens.mapM name? <;> cases (text.toList.splitOn '/').mapM name? <;> rfl

theorem tokens?_member (place name : String) :
    tokens? (member place name) = (tokens? place).map (· ++ [name]) := by
  rw [member, tokens?_append, splitOn_of_not_mem (slash_not_mem_escape name), List.mapM_cons,
    name?_escape]
  cases tokens? place <;> rfl

/-- **A name that is appended as it stands** is read as itself if it is plain. -/
theorem tokens?_append_eq_iff {place : String} (h : (tokens? place).isSome = true)
    (name : String) :
    tokens? (place ++ "/" ++ name) = tokens? (member place name) ↔ Plain name := by
  constructor
  · intro htokens
    obtain ⟨names, hnames⟩ := Option.isSome_iff_exists.mp h
    rw [tokens?_append, tokens?_member, hnames, Option.bind_some, Option.map_some] at htokens
    obtain ⟨read, hread, heq⟩ := Option.map_eq_some_iff.mp htokens
    rw [List.append_cancel_left heq, mapM_eq_some_iff] at hread
    -- with a slash the text would be read as two names at least
    have hslash : '/' ∉ name.toList := by
      intro hmem
      obtain ⟨before, after, hname⟩ := List.append_of_mem hmem
      have hlength := hread.length_eq
      rw [hname, List.splitOn_append_cons_self, List.length_append, List.length_singleton] at hlength
      have hbefore := List.length_pos_iff.mpr (List.splitOn_ne_nil '/' before)
      have hafter := List.length_pos_iff.mpr (List.splitOn_ne_nil '/' after)
      omega
    rw [splitOn_of_not_mem hslash, List.forall₂_cons] at hread
    refine ⟨hslash, name?_eq_some_iff.mp ?_⟩
    rw [String.ofList_toList, hread.1]
  · intro hplain
    rw [member, escape_of_plain hplain]

/-! ### What places lead to -/

theorem child?_item (items : List Json) (i : Nat) :
    child? (.array items) (Decimal.integerText i) = items[i]? := by
  rw [child?]
  by_cases hi : i < items.length
  · have hfind : (List.range items.length).find?
        (fun j : Nat => Decimal.integerText j = Decimal.integerText i) = some i := by
      rw [List.find?_range_eq_some]
      refine ⟨decide_eq_true rfl, List.mem_range.mpr hi, fun j hj => ?_⟩
      rw [decide_eq_false fun h => hj.ne (Decimal.integerText_natCast_injective h)]
      rfl
    rw [hfind, Option.bind_some]
  · have hfind : (List.range items.length).find?
        (fun j : Nat => Decimal.integerText j = Decimal.integerText i) = none := by
      rw [List.find?_eq_none]
      intro j hj h
      rw [Decimal.integerText_natCast_injective (of_decide_eq_true h), List.mem_range] at hj
      exact hi hj
    rw [hfind, Option.bind_none, List.getElem?_eq_none (by omega)]

end Place

theorem at?_empty (v : Json) : v.at? "" = some v := rfl

theorem at?_member (v : Json) (place name : String) :
    v.at? (Place.member place name) = (v.at? place).bind fun w => Place.child? w name := by
  rw [at?, at?, Place.tokens?_member]
  cases Place.tokens? place with
  | none => rfl
  | some names =>
    simp only [Option.map_some, Option.bind_some, List.foldlM_append, List.foldlM_cons,
      List.foldlM_nil, bind_pure]
    rfl

theorem at?_item (v : Json) (place : String) (i : Nat) :
    v.at? (Place.item place i) =
      (v.at? place).bind fun w => Place.child? w (Decimal.integerText i) := by
  rw [Place.item_eq_member, at?_member]

end Sideload.Json
