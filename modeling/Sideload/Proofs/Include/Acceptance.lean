import Sideload.Proofs.Include.Readers

/-! # What is accepted

A path is read up to a comma or the end of the text (`readPath_eq_ok_iff`), paths up to the end of
the text (`readPaths_eq_ok_iff`); a limit only bounds the number of segments in a path. So what is
parsed is a text of the grammar, and its forest is that of the paths it says (`parse_eq_ok_iff`).

`parse_unlimited_accepts`: without a limit the blank texts and those of the grammar are parsed, and
no others. -/

namespace Sideload.Include

/-! ### Paths -/

/-- The text is at its end or goes on with a comma. -/
def EndsPath (cs : List Char) : Prop := ∀ c ∈ cs.head?, c = ','

theorem EndsPath.endsSegment {cs : List Char} (h : EndsPath cs) : EndsSegment cs :=
  fun c hc => Or.inr (h c hc)

/-- A path whose first segment has number `count` stays within the limit. -/
def WithinLimit (limit : Option Nat) (count : Nat) (path : Path) : Prop :=
  ∀ m, limit = some m → count ≤ m → count + path.length ≤ m

theorem WithinLimit.of_cons {limit : Option Nat} {count : Nat} {s : Segment} {path : Path}
    (h : WithinLimit limit count (s :: path)) :
    limit ≠ some count ∧ WithinLimit limit (count + 1) path := by
  refine ⟨fun e => ?_, fun m hm hle => ?_⟩
  · have := h count e le_rfl
    rw [List.length_cons] at this
    omega
  · have := h m hm (by omega)
    rw [List.length_cons] at this
    omega

theorem WithinLimit.cons {limit : Option Nat} {count : Nat} {path : Path} (s : Segment)
    (hne : limit ≠ some count) (h : WithinLimit limit (count + 1) path) :
    WithinLimit limit count (s :: path) := by
  intro m hm hle
  have hlt : count ≠ m := fun e => hne (e ▸ hm)
  have := h m hm (by omega)
  rw [List.length_cons]
  omega

/-- What a path reader does behind a segment within the limit. -/
theorem readPath_of_readSegment {limit : Option Nat} {count : Nat} {s : Segment}
    {cs after : List Char} (h : readSegment (skipBlanks cs) = .ok (s, after))
    (hlimit : limit ≠ some count) :
    readPath limit count cs = match skipBlanks after with
      | [] => .ok ([s], [])
      | c :: rest =>
        if c = '.' then (readPath limit (count + 1) rest).map fun r => (s :: r.1, r.2)
        else if c = ',' then .ok ([s], c :: rest)
        else if c = '[' ∨ c = ']' then .error ⟨.unbalancedBracket, c :: rest⟩
        else .error ⟨.invalidCharacter c, c :: rest⟩ := by
  rw [readPath]
  split
  · next heq => rw [h] at heq; cases heq
  · next heq =>
    rw [h] at heq
    cases heq
    rw [if_neg hlimit]
    split
    · next heq => rw [heq]
    · next heq =>
      rw [heq]
      dsimp only
      split
      · cases readPath limit (count + 1) _ <;> rfl
      · rfl

theorem readPath_complete {limit : Option Nat} {count : Nat} {path : Path} {cs rest : List Char}
    (h : PathText path cs) (hrest : EndsPath rest) (hlimit : WithinLimit limit count path) :
    readPath limit count (cs ++ rest) = .ok (path, rest) := by
  induction h generalizing count with
  | one h =>
    obtain ⟨after, hsegment, hafter⟩ := readSegment_complete h hrest.endsSegment
    rw [readPath_of_readSegment hsegment hlimit.of_cons.1, hafter]
    cases rest with
    | nil => rfl
    | cons c rest =>
      obtain rfl : c = ',' := hrest c rfl
      rfl
  | @more s path cs ds h _ ih =>
    have hpoint : EndsSegment ('.' :: (ds ++ rest)) := by
      intro c hc
      rw [List.head?_cons, Option.mem_some] at hc
      exact Or.inl hc.symm
    obtain ⟨after, hsegment, hafter⟩ := readSegment_complete h hpoint
    obtain ⟨hne, hwithin⟩ := hlimit.of_cons
    rw [List.append_assoc, List.cons_append, readPath_of_readSegment hsegment hne, hafter]
    dsimp only
    rw [if_pos rfl, ih hwithin]
    rfl

/-- A path that ends behind its first segment. -/
theorem pathText_of_readSegment {limit : Option Nat} {count : Nat} {s : Segment}
    {cs after rest : List Char} (h : readSegment (skipBlanks cs) = .ok (s, after))
    (hlimit : limit ≠ some count) (hafter : skipBlanks after = rest) :
    WithinLimit limit count [s] ∧ ∃ ds, cs = ds ++ rest ∧ PathText [s] ds := by
  obtain ⟨ds, hcs, hds⟩ := readSegment_sound h
  rw [hafter] at hcs
  exact ⟨.cons s hlimit fun _ _ hle => hle, ds, hcs, .one hds⟩

theorem readPath_sound {limit : Option Nat} {count : Nat} {path : Path} {cs rest : List Char}
    (h : readPath limit count cs = .ok (path, rest)) :
    EndsPath rest ∧ WithinLimit limit count path ∧ ∃ ds, cs = ds ++ rest ∧ PathText path ds := by
  fun_induction readPath limit count cs generalizing path rest
  all_goals simp only [Except.ok.injEq, Prod.mk.injEq, reduceCtorEq] at h
  next count cs s after hsegment hlimit hafter =>
    obtain ⟨rfl, rfl⟩ := h
    exact ⟨by simp [EndsPath], pathText_of_readSegment hsegment hlimit hafter⟩
  next count cs s after hsegment hlimit rest' path' rest'' hpath hafter ih =>
    obtain ⟨rfl, rfl⟩ := h
    obtain ⟨hends, hwithin, es, rfl, hes⟩ := ih hpath
    obtain ⟨ds, hcs, hds⟩ := readSegment_sound hsegment
    refine ⟨hends, .cons s hlimit hwithin, ds ++ '.' :: es, ?_, .more hds hes⟩
    rw [hcs, hafter, List.append_assoc, List.cons_append]
  next count cs s after hsegment hlimit rest' hafter _ =>
    obtain ⟨rfl, rfl⟩ := h
    exact ⟨by simp [EndsPath], pathText_of_readSegment hsegment hlimit hafter⟩

theorem readPath_eq_ok_iff {limit : Option Nat} {count : Nat} {path : Path} {cs rest : List Char} :
    readPath limit count cs = .ok (path, rest) ↔
      EndsPath rest ∧ WithinLimit limit count path ∧ ∃ ds, cs = ds ++ rest ∧ PathText path ds := by
  constructor
  · exact readPath_sound
  · rintro ⟨hrest, hlimit, ds, rfl, hds⟩
    exact readPath_complete hds hrest hlimit

/-! ### Expressions -/

/-- What a reader of paths does behind a path. -/
theorem readPaths_of_readPath {limit : Option Nat} {path : Path} {cs rest : List Char}
    (h : readPath limit 0 cs = .ok (path, rest)) :
    readPaths limit cs = match rest with
      | [] => .ok ([path], [])
      | _ :: rest => (readPaths limit rest).map fun r => (path :: r.1, r.2) := by
  obtain ⟨hends, -⟩ := readPath_eq_ok_iff.mp h
  rw [readPaths]
  split
  · next heq => rw [h] at heq; cases heq
  · next heq => rw [h] at heq; cases heq; rfl
  · next c rest' heq =>
    rw [h] at heq
    cases heq
    rw [if_pos (hends c rfl)]
    dsimp only
    cases readPaths limit rest' <;> rfl

theorem readPaths_complete {limit : Option Nat} {paths : List Path} {cs : List Char}
    (h : ExpressionText paths cs) (hlimit : ∀ path ∈ paths, WithinLimit limit 0 path) :
    readPaths limit cs = .ok (paths, []) := by
  induction h with
  | @one path cs h =>
    have hnil : EndsPath [] := by simp [EndsPath]
    have hpath := readPath_complete h hnil (hlimit path List.mem_cons_self)
    rw [List.append_nil] at hpath
    rw [readPaths_of_readPath hpath]
  | @more path paths cs ds h _ ih =>
    have hcomma : EndsPath (',' :: ds) := by simp [EndsPath]
    have hpath := readPath_complete h hcomma (hlimit path List.mem_cons_self)
    rw [readPaths_of_readPath hpath]
    dsimp only
    rw [ih fun path hp => hlimit path (List.mem_cons_of_mem _ hp)]
    rfl

theorem readPaths_sound {limit : Option Nat} {paths : List Path} {cs rest : List Char}
    (h : readPaths limit cs = .ok (paths, rest)) :
    rest = [] ∧ (∀ path ∈ paths, WithinLimit limit 0 path) ∧ ExpressionText paths cs := by
  fun_induction readPaths limit cs generalizing paths rest
  all_goals simp only [Except.ok.injEq, Prod.mk.injEq, reduceCtorEq] at h
  next cs path hpath =>
    obtain ⟨rfl, rfl⟩ := h
    obtain ⟨-, hwithin, ds, hcs, hds⟩ := readPath_eq_ok_iff.mp hpath
    rw [List.append_nil] at hcs
    refine ⟨rfl, fun path' hp => ?_, hcs ▸ .one hds⟩
    rw [List.mem_singleton.mp hp]
    exact hwithin
  next cs path rest' paths' rest'' hpaths hpath ih =>
    obtain ⟨rfl, rfl⟩ := h
    obtain ⟨hrest, hwithins, hes⟩ := ih hpaths
    obtain ⟨-, hwithin, ds, rfl, hds⟩ := readPath_eq_ok_iff.mp hpath
    refine ⟨hrest, fun path' hp => ?_, .more hds hes⟩
    rcases List.mem_cons.mp hp with rfl | hp
    · exact hwithin
    · exact hwithins path' hp
  next cs path c rest' hpath hc =>
    -- a path ends at a comma or at the end of the text
    exact absurd ((readPath_eq_ok_iff.mp hpath).1 c rfl) hc

theorem readPaths_eq_ok_iff {limit : Option Nat} {paths : List Path} {cs rest : List Char} :
    readPaths limit cs = .ok (paths, rest) ↔
      rest = [] ∧ (∀ path ∈ paths, WithinLimit limit 0 path) ∧ ExpressionText paths cs := by
  constructor
  · exact readPaths_sound
  · rintro ⟨rfl, hlimit, h⟩
    exact readPaths_complete h hlimit

theorem Spaced.not_blanks_append {name : String} {cs : List Char} (h : Spaced name cs)
    (ds : List Char) : ¬ Blanks (cs ++ ds) := by
  obtain ⟨⟨hne, hname⟩, before, after, -, -, rfl⟩ := h
  obtain ⟨c, hc⟩ := List.exists_mem_of_ne_nil _ hne
  intro hblanks
  have hblank := hblanks c (by simp [hc])
  rw [isBlank_of_isNameChar (hname c hc)] at hblank
  exact Bool.noConfusion hblank

theorem ExpressionText.not_blanks {paths : List Path} {cs : List Char}
    (h : ExpressionText paths cs) : ¬ Blanks cs := by
  have hsegment : ∀ s cs ds, SegmentText s cs → ¬ Blanks (cs ++ ds) := by
    rintro s cs ds (h | ⟨h, -, -⟩)
    · exact h.not_blanks_append ds
    · rw [List.append_assoc]
      exact h.not_blanks_append _
  have hpath : ∀ path cs ds, PathText path cs → ¬ Blanks (cs ++ ds) := by
    rintro path cs ds (h | ⟨h, -⟩)
    · exact hsegment _ _ ds h
    · rw [List.append_assoc]
      exact hsegment _ _ _ h
  rcases h with h | ⟨h, -⟩
  · rw [← List.append_nil cs]
    exact hpath _ _ _ h
  · exact hpath _ _ _ h

theorem parsePaths_eq_ok_iff {limit : Option Nat} {e : String} {paths : List Path} :
    parsePaths limit e = .ok paths ↔ (Blanks e.toList ∧ paths = []) ∨
      (ExpressionText paths e.toList ∧ ∀ m, limit = some m → ∀ path ∈ paths, path.length ≤ m) := by
  have hall : e.toList.all Text.isBlank = true ↔ Blanks e.toList := List.all_eq_true
  have hlimit : (∀ path ∈ paths, WithinLimit limit 0 path) ↔
      ∀ m, limit = some m → ∀ path ∈ paths, path.length ≤ m := by
    simp only [WithinLimit, Nat.zero_le, Nat.zero_add, forall_const]
    exact ⟨fun h m hm path hp => h path hp m hm, fun h path hp m hm => h m hm path hp⟩
  unfold parsePaths
  dsimp only
  split
  · next h =>
    rw [hall] at h
    constructor
    · intro hok
      exact Or.inl ⟨h, (Except.ok.inj hok).symm⟩
    · rintro (⟨-, rfl⟩ | ⟨htext, -⟩)
      · rfl
      · exact absurd h htext.not_blanks
  · next h =>
    rw [hall] at h
    constructor
    · intro hok
      split at hok
      · next paths' rest heq =>
        cases hok
        obtain ⟨-, hwithin, htext⟩ := readPaths_eq_ok_iff.mp heq
        exact Or.inr ⟨htext, hlimit.mp hwithin⟩
      · cases hok
    · rintro (⟨hblanks, -⟩ | ⟨htext, hwithin⟩)
      · exact absurd hblanks h
      · rw [readPaths_eq_ok_iff.mpr ⟨rfl, hlimit.mpr hwithin, htext⟩]

/-- What is parsed is a text of the grammar, and its forest is that of the paths it says. -/
theorem parse_eq_ok_iff {options : Options} {e : String} {forest : Forest} :
    parse options e = .ok forest ↔ (Blanks e.toList ∧ forest = []) ∨
      ∃ paths, ExpressionText paths e.toList ∧
        (∀ m, options.maxDepth = some m → ∀ path ∈ paths, path.length ≤ m) ∧
        forest = .ofPaths options.columnPolicy paths := by
  have hmap : parse options e = .ok forest ↔ ∃ paths,
      parsePaths options.maxDepth e = .ok paths ∧ forest = .ofPaths options.columnPolicy paths := by
    unfold parse
    cases parsePaths options.maxDepth e with
    | error m => simp [Except.map]
    | ok paths => simp [Except.map, eq_comm]
  rw [hmap]
  simp only [parsePaths_eq_ok_iff]
  constructor
  · rintro ⟨paths, ⟨hblanks, rfl⟩ | ⟨htext, hwithin⟩, rfl⟩
    · exact Or.inl ⟨hblanks, rfl⟩
    · exact Or.inr ⟨paths, htext, hwithin, rfl⟩
  · rintro (⟨hblanks, rfl⟩ | ⟨paths, htext, hwithin, rfl⟩)
    · exact ⟨[], Or.inl ⟨hblanks, rfl⟩, rfl⟩
    · exact ⟨paths, Or.inr ⟨htext, hwithin⟩, rfl⟩

/-- **Without a limit, exactly the blank texts and those of the grammar are parsed**, and what the
paths are read from is the whole text. -/
theorem parse_unlimited_accepts (policy : ColumnPolicy) (e : String) :
    ((∃ forest, parse ⟨policy, none⟩ e = .ok forest) ↔
      Blanks e.toList ∨ ∃ paths, ExpressionText paths e.toList) ∧
    ∀ paths rest, readPaths none e.toList = .ok (paths, rest) → rest = [] := by
  refine ⟨⟨?_, ?_⟩, fun paths rest h => (readPaths_eq_ok_iff.mp h).1⟩
  · rintro ⟨forest, h⟩
    rcases parse_eq_ok_iff.mp h with ⟨hblanks, -⟩ | ⟨paths, htext, -, -⟩
    · exact Or.inl hblanks
    · exact Or.inr ⟨paths, htext⟩
  · rintro (hblanks | ⟨paths, htext⟩)
    · exact ⟨[], parse_eq_ok_iff.mpr (Or.inl ⟨hblanks, rfl⟩)⟩
    · exact ⟨_, parse_eq_ok_iff.mpr (Or.inr ⟨paths, htext, by simp, rfl⟩)⟩

end Sideload.Include
