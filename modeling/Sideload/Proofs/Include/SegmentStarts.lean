import Mathlib.Data.List.DropRight
import Sideload.Proofs.Include.Stops

/-! # Where segments begin

The front of an expression ends where a segment may begin: at the start of the text, behind a comma,
behind a point, and behind blanks there (`BeginsSegment`, which counts the segments of the path so
far). A path that is written there completes the text (`BeginsSegment.exists_expressionText`), and a
reader of the whole text stops where a reader of the path does (`BeginsSegment.readPaths_of_error`).

So every fault of an expression is one of a single segment and of what stands behind it
(`faultBehind_of_readPaths`): what is in front of the segment belongs to the grammar. -/

namespace Sideload.Include

/-- The front of an expression that ends where a segment may begin, with `count` segments of the
same path before it. -/
inductive BeginsSegment : Nat → List Char → Prop where
  | first : BeginsSegment 0 []
  | comma {paths : List Path} {front : List Char} : ExpressionText paths front →
      BeginsSegment 0 (front ++ [','])
  | point {count : Nat} {s : Segment} {front cs : List Char} : BeginsSegment count front →
      SegmentText s cs → BeginsSegment (count + 1) (front ++ (cs ++ ['.']))
  | blanks {count : Nat} {front cs : List Char} : BeginsSegment count front → Blanks cs →
      BeginsSegment count (front ++ cs)

/-! ### Expressions that are completed -/

theorem Separated.append {α : Type} {mark : Char} {Item : α → List Char → Prop} {xs ys : List α}
    {cs ds : List Char} (hxs : Separated mark Item xs cs) (hys : Separated mark Item ys ds) :
    Separated mark Item (xs ++ ys) (cs ++ mark :: ds) := by
  induction hxs with
  | one h => exact .more h hys
  | more h _ ih =>
    rw [List.cons_append, List.append_assoc, List.cons_append]
    exact .more h ih

/-- Where a segment may begin, a path completes the expression. -/
theorem BeginsSegment.exists_expressionText {count : Nat} {front : List Char}
    (h : BeginsSegment count front) {path : Path} {cs : List Char} (hpath : PathText path cs) :
    ∃ paths, ExpressionText paths (front ++ cs) := by
  induction h generalizing path cs with
  | first => exact ⟨[path], .one hpath⟩
  | @comma paths front hfront =>
    refine ⟨paths ++ [path], ?_⟩
    rw [List.append_assoc]
    exact hfront.append (.one hpath)
  | @point _ s front ds _ hs ih =>
    obtain ⟨paths, htext⟩ := ih (.more hs hpath)
    refine ⟨paths, ?_⟩
    rwa [List.append_assoc, List.append_assoc]
  | @blanks _ front ds _ hds ih =>
    obtain ⟨paths, htext⟩ := ih (hpath.blanks_append hds)
    exact ⟨paths, by rwa [List.append_assoc]⟩

/-! ### Readers behind a front -/

theorem skipBlanks_skipBlanks (cs : List Char) : skipBlanks (skipBlanks cs) = skipBlanks cs :=
  List.dropWhile_idempotent Text.isBlank cs

theorem skipBlanks_blanks_append {ds : List Char} (h : Blanks ds) (cs : List Char) :
    skipBlanks (ds ++ cs) = skipBlanks cs :=
  List.dropWhile_append_of_pos h

/-- A path is read from its first segment on. -/
theorem readPath_congr {limit : Option Nat} {count : Nat} {cs ds : List Char}
    (h : skipBlanks cs = skipBlanks ds) : readPath limit count cs = readPath limit count ds := by
  cases hs : readSegment (skipBlanks cs) with
  | error stop => rw [readPath_of_error hs, readPath_of_error (h ▸ hs)]
  | ok r =>
    obtain ⟨s, after⟩ := r
    by_cases hlimit : limit = some count
    · subst hlimit
      rw [readPath_of_limit hs, readPath_of_limit (h ▸ hs), h]
    · rw [readPath_of_readSegment hs hlimit, readPath_of_readSegment (h ▸ hs) hlimit]

/-- A point leads the reader of a path to the next segment. -/
theorem readPath_point {s : Segment} {cs : List Char} (h : SegmentText s cs) (count : Nat)
    {rest : List Char} {stop : Stop} (hstop : readPath none (count + 1) rest = .error stop) :
    readPath none count (cs ++ '.' :: rest) = .error stop := by
  have hpoint : EndsSegment ('.' :: rest) := by simp [EndsSegment]
  obtain ⟨after, hsegment, hafter⟩ := readSegment_complete h hpoint
  have hnone : none ≠ some count := nofun
  rw [readPath_of_readSegment hsegment hnone, hafter]
  dsimp only
  rw [if_pos rfl, hstop]
  rfl

/-- A comma leads the reader of an expression to the next path. -/
theorem readPaths_comma {paths : List Path} {cs : List Char} (h : ExpressionText paths cs)
    {rest : List Char} {stop : Stop} (hstop : readPaths none rest = .error stop) :
    readPaths none (cs ++ ',' :: rest) = .error stop := by
  have hbehind : ∀ {path cs rest}, PathText path cs → readPaths none rest = .error stop →
      readPaths none (cs ++ ',' :: rest) = .error stop := by
    intro path cs rest hpath hrest
    have hcomma : EndsPath (',' :: rest) := by simp [EndsPath]
    have hwithin : WithinLimit none 0 path := fun m hm => absurd hm.symm (Option.some_ne_none m)
    rw [readPaths_of_readPath (readPath_complete hpath hcomma hwithin)]
    dsimp only
    rw [hrest]
    rfl
  induction h with
  | one hpath => exact hbehind hpath hstop
  | more hpath _ ih =>
    rw [List.append_assoc, List.cons_append]
    exact hbehind hpath ih

/-- **A reader of the whole text** stops where the reader of the path does that begins behind the
front. -/
theorem BeginsSegment.readPaths_of_error {count : Nat} {front : List Char}
    (h : BeginsSegment count front) {cs : List Char} {stop : Stop}
    (hstop : readPath none count cs = .error stop) :
    readPaths none (front ++ cs) = .error stop := by
  induction h generalizing cs with
  | first => exact Include.readPaths_of_error hstop
  | comma hfront =>
    rw [List.append_assoc]
    exact readPaths_comma hfront (Include.readPaths_of_error hstop)
  | point _ hs ih =>
    rw [List.append_assoc, List.append_assoc]
    exact ih (readPath_point hs _ hstop)
  | @blanks count front ds _ hds ih =>
    rw [List.append_assoc]
    exact ih ((readPath_congr (skipBlanks_blanks_append hds cs)).trans hstop)

/-! ### Faults of one segment -/

/-- What is wrong with a character behind a segment, where neither a point nor a comma stands. -/
def strayReason (c : Char) : Reason :=
  if c = '[' ∨ c = ']' then .unbalancedBracket else .invalidCharacter c

/-- The text of a segment and of what follows goes wrong in the segment, or because of the limit, or
right behind it. -/
inductive FailsAt (limit : Option Nat) (count : Nat) (cs : List Char) : Stop → Prop where
  | segment {stop : Stop} : readSegment cs = .error stop → FailsAt limit count cs stop
  | limit {s : Segment} {after : List Char} : limit = some count →
      readSegment cs = .ok (s, after) → FailsAt limit count cs ⟨.tooDeep count, cs⟩
  | behind {s : Segment} {after rest : List Char} {c : Char} : readSegment cs = .ok (s, after) →
      skipBlanks after = c :: rest → c ≠ '.' → c ≠ ',' →
      FailsAt limit count cs ⟨strayReason c, c :: rest⟩

/-- A fault behind a front: what stands in front of the segment at fault belongs to the grammar. -/
def FaultBehind (limit : Option Nat) (cs : List Char) (stop : Stop) : Prop :=
  ∃ count front left, cs = front ++ left ∧ skipBlanks left = left ∧ BeginsSegment count front ∧
    FailsAt limit count left stop

section Locate
variable {limit : Option Nat} {stop : Stop}

theorem faultBehind_of_failsAt {count : Nat} {front cs : List Char} (h : BeginsSegment count front)
    (hfails : FailsAt limit count (skipBlanks cs) stop) : FaultBehind limit (front ++ cs) stop := by
  obtain ⟨ds, hds, hcs⟩ := eq_append_skipBlanks cs
  refine ⟨count, front ++ ds, skipBlanks cs, ?_, skipBlanks_skipBlanks cs, h.blanks hds, hfails⟩
  rw [List.append_assoc, ← hcs]

theorem faultBehind_of_readPath {count : Nat} {front cs : List Char}
    (h : BeginsSegment count front) (hstop : readPath limit count cs = .error stop) :
    FaultBehind limit (front ++ cs) stop := by
  fun_induction readPath limit count cs generalizing front
  all_goals simp only [Except.error.injEq, reduceCtorEq] at hstop
  -- the first segment is at fault, in itself or for the limit
  next hs => exact faultBehind_of_failsAt h (.segment (hstop ▸ hs))
  next hs hlimit => exact hstop ▸ faultBehind_of_failsAt h (.limit hlimit hs)
  -- what stands behind its point is
  next count cs s after hs _ rest stop' hpath hafter ih =>
    obtain ⟨ds, hcs, hds⟩ := readSegment_sound hs
    have hfront : front ++ cs = front ++ (ds ++ ['.']) ++ rest := by
      rw [hcs, hafter, List.append_assoc, List.append_assoc]
      rfl
    rw [hfront]
    exact ih (h.point hds) (hstop ▸ hpath)
  -- what stands behind it is neither a point nor a comma
  next hs _ c rest hafter hpoint hcomma hbracket =>
    have hreason : strayReason c = .unbalancedBracket := if_pos hbracket
    rw [← hstop, ← hreason]
    exact faultBehind_of_failsAt h (.behind hs hafter hpoint hcomma)
  next hs _ c rest hafter hpoint hcomma hbracket =>
    have hreason : strayReason c = .invalidCharacter c := if_neg hbracket
    rw [← hstop, ← hreason]
    exact faultBehind_of_failsAt h (.behind hs hafter hpoint hcomma)

theorem faultBehind_of_readPaths {front cs : List Char} (h : BeginsSegment 0 front)
    (hstop : readPaths limit cs = .error stop) : FaultBehind limit (front ++ cs) stop := by
  fun_induction readPaths limit cs generalizing front
  all_goals simp only [Except.error.injEq, reduceCtorEq] at hstop
  next hpath => exact faultBehind_of_readPath h (hstop ▸ hpath)
  next cs path rest stop' hpaths hpath ih =>
    obtain ⟨-, -, ds, hcs, hds⟩ := readPath_eq_ok_iff.mp hpath
    obtain ⟨paths, htext⟩ := h.exists_expressionText hds
    have hfront : front ++ cs = front ++ ds ++ [','] ++ rest := by
      rw [hcs, List.append_assoc, List.append_assoc]
      rfl
    rw [hfront]
    exact ih (.comma htext) (hstop ▸ hpaths)

end Locate

end Sideload.Include
