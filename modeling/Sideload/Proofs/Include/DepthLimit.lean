import Sideload.Proofs.Include.PathOrder
import Sideload.Proofs.Include.Stops

/-! # The depth limit

A limit stops a reader before what it would have reached without, or changes nothing
(`readPaths_limit`): the segment beyond the limit has been read then, and all that is left where the
reader stops otherwise is left behind that segment. In a text of the grammar a path that is too long
is stopped at its first segment beyond the limit (`readPath_tooDeep`), and the first such path stops
the expression (`readPaths_tooDeep`).

`parse_limit` says what a limit changes of what is parsed: what is accepted
(`parse_some_eq_ok_iff`), what is refused for the limit only (`parse_tooDeep`), and what is refused
anyway (`parse_some_of_eq_error`). -/

namespace Sideload.Include

/-! ### Where segments stand -/

/-- Piece `k` of a text between marks. -/
def piece (mark : Char) (k : Nat) (cs : List Char) : List Char := (cs.splitOn mark)[k]?.getD []

/-- What stands in front of piece `k`: the pieces before it, each with its mark. -/
def inFront (mark : Char) (k : Nat) (cs : List Char) : List Char :=
  ((cs.splitOn mark).take k).flatMap (· ++ [mark])

/-- What stands in front of the name of segment `k` of path `j`. -/
def segmentFront (cs : List Char) (j k : Nat) : List Char :=
  inFront ',' j cs ++ (inFront '.' k (piece ',' j cs) ++
    (piece '.' k (piece ',' j cs)).takeWhile Text.isBlank)

/-- The offset in bytes of segment `k` of path `j` of an expression. -/
def segmentOffset (e : String) (j k : Nat) : Nat := Text.byteSize (segmentFront e.toList j k)

example : segmentOffset "a, b[c] . d" 1 1 = 10 := by decide +kernel

section Pieces
variable {mark : Char} {cs : List Char} (h : mark ∉ cs)
include h

theorem piece_zero : piece mark 0 cs = cs := by
  unfold piece
  rw [splitOn_of_not_mem h]
  rfl

theorem piece_zero_append (ds : List Char) : piece mark 0 (cs ++ mark :: ds) = cs := by
  unfold piece
  rw [splitOn_append_cons h]
  rfl

theorem piece_succ_append (k : Nat) (ds : List Char) :
    piece mark (k + 1) (cs ++ mark :: ds) = piece mark k ds := by
  unfold piece
  rw [splitOn_append_cons h]
  rfl

theorem inFront_succ_append (k : Nat) (ds : List Char) :
    inFront mark (k + 1) (cs ++ mark :: ds) = cs ++ mark :: inFront mark k ds := by
  unfold inFront
  rw [splitOn_append_cons h, List.take_succ_cons, List.flatMap_cons, List.append_assoc]
  rfl

omit h in
theorem inFront_zero (mark : Char) (cs : List Char) : inFront mark 0 cs = [] := rfl

end Pieces

/-! ### What a limit changes -/

/-- **A limit stops a path** before what is reached without it, or changes nothing. -/
theorem readPath_limit (m count : Nat) (cs : List Char) :
    readPath (some m) count cs = readPath none count cs ∨
      ∃ left, readPath (some m) count cs = .error ⟨.tooDeep m, left⟩ ∧ left <:+ cs ∧
        Behind (leftBy (readPath none count cs)) left := by
  cases hs : readSegment (skipBlanks cs) with
  | error stop => exact Or.inl (by rw [readPath_of_error hs, readPath_of_error hs])
  | ok r =>
    obtain ⟨s, after⟩ := r
    have hnone : none ≠ some count := nofun
    by_cases hm : m = count
    · subst hm
      refine Or.inr ⟨_, readPath_of_limit hs, skipBlanks_suffix cs, ?_⟩
      refine (behind_of_readSegment hs).of_suffix (readPath_suffix_after hs hnone fun rest _ => ?_)
      exact readPath_suffix none (m + 1) rest
    · have hsome : some m ≠ some count := fun e => hm (Option.some.inj e)
      rw [readPath_of_readSegment hs hsome, readPath_of_readSegment hs hnone]
      cases hrest : skipBlanks after with
      | nil => exact Or.inl rfl
      | cons c rest =>
        dsimp only
        by_cases hc : c = '.'
        · have hlength : rest.length < cs.length :=
            (length_of_skipBlanks hrest).trans (length_of_readSegment hs)
          have hsuffix : rest <:+ cs := (List.suffix_cons c rest).trans
            (hrest ▸ (behind_of_readSegment hs).1.trans (skipBlanks_suffix cs))
          rw [if_pos hc, if_pos hc]
          rcases readPath_limit m (count + 1) rest with hsame | ⟨left, hleft, hin, hbehind⟩
          · exact Or.inl (by rw [hsame])
          · exact Or.inr ⟨left, by rw [hleft]; rfl, hin.trans hsuffix, by rwa [leftBy_map]⟩
        · exact Or.inl (by rw [if_neg hc, if_neg hc])
termination_by cs.length

/-- **A limit stops an expression** before what is reached without it, or changes nothing. -/
theorem readPaths_limit (m : Nat) (cs : List Char) : readPaths (some m) cs = readPaths none cs ∨
    ∃ left, readPaths (some m) cs = .error ⟨.tooDeep m, left⟩ ∧ left <:+ cs ∧
      Behind (leftBy (readPaths none cs)) left := by
  rcases readPath_limit m 0 cs with hsame | ⟨left, hleft, hin, hbehind⟩
  · cases hp : readPath none 0 cs with
    | error stop =>
      exact Or.inl ((readPaths_of_error (hsame.trans hp)).trans (readPaths_of_error hp).symm)
    | ok r =>
      obtain ⟨path, rest⟩ := r
      rw [readPaths_of_readPath (hsame.trans hp), readPaths_of_readPath hp]
      have hsuffix := readPath_suffix none 0 cs
      have hlength := length_readPath hp
      rw [hp] at hsuffix
      cases rest with
      | nil => exact Or.inl rfl
      | cons c rest =>
        have hshort : rest.length < cs.length := by
          rw [List.length_cons] at hlength
          omega
        have hrest : rest <:+ cs := (List.suffix_cons c rest).trans hsuffix
        dsimp only
        rcases readPaths_limit m rest with hsame | ⟨left, hleft, hin, hbehind⟩
        · exact Or.inl (by rw [hsame])
        · exact Or.inr ⟨left, by rw [hleft]; rfl, hin.trans hrest, by rwa [leftBy_map]⟩
  · refine Or.inr ⟨left, readPaths_of_error hleft, hin, ?_⟩
    cases hp : readPath none 0 cs with
    | error stop =>
      rw [hp] at hbehind
      rw [readPaths_of_error hp]
      exact hbehind
    | ok r =>
      obtain ⟨path, rest⟩ := r
      rw [hp] at hbehind
      rw [readPaths_of_readPath hp]
      refine hbehind.of_suffix ?_
      cases rest with
      | nil => exact List.suffix_refl []
      | cons c rest =>
        dsimp only
        rw [leftBy_map]
        exact (readPaths_suffix none rest).trans (List.suffix_cons c rest)
termination_by cs.length

/-! ### Paths that are too long -/

theorem SegmentText.not_blanks {s : Segment} {cs : List Char} (h : SegmentText s cs) :
    ¬ Blanks cs := by
  cases h with
  | bare h => simpa using h.not_blanks_append []
  | bracketed h => exact h.not_blanks_append _

/-- A segment begins behind its own blanks, whatever comes next. -/
theorem SegmentText.takeWhile_append {s : Segment} {cs : List Char} (h : SegmentText s cs)
    (rest : List Char) :
    (cs ++ rest).takeWhile Text.isBlank = cs.takeWhile Text.isBlank := by
  rw [List.takeWhile_append, if_neg]
  intro hlength
  have hall : cs.takeWhile Text.isBlank = cs := (List.takeWhile_prefix _).eq_of_length hlength
  exact h.not_blanks fun c hc => List.mem_takeWhile_imp (hall ▸ hc)

theorem SegmentText.append_eq {s : Segment} {cs : List Char} (h : SegmentText s cs)
    (rest : List Char) :
    cs ++ rest = cs.takeWhile Text.isBlank ++ skipBlanks (cs ++ rest) := by
  rw [← h.takeWhile_append rest]
  exact List.takeWhile_append_dropWhile.symm

/-- **A path that is too long** is stopped at its first segment beyond the limit. -/
theorem readPath_tooDeep {path : Path} {cs rest : List Char} (h : PathText path cs)
    (hrest : EndsPath rest) (count : Nat) {k : Nat} (hk : k < path.length) :
    ∃ left, readPath (some (count + k)) count (cs ++ rest) = .error ⟨.tooDeep (count + k), left⟩ ∧
      cs ++ rest = inFront '.' k cs ++ ((piece '.' k cs).takeWhile Text.isBlank ++ left) ∧
      ∃ after, readSegment left = .ok (path[k], after) := by
  induction h generalizing count k with
  | one h =>
    obtain rfl : k = 0 := Nat.lt_one_iff.mp hk
    obtain ⟨after, hsegment, -⟩ := readSegment_complete h hrest.endsSegment
    refine ⟨_, readPath_of_limit hsegment, ?_, after, hsegment⟩
    rw [inFront_zero, piece_zero h.point_not_mem]
    exact h.append_eq rest
  | @more s path cs ds h _ ih =>
    have hpoint : EndsSegment ('.' :: (ds ++ rest)) := by
      intro c hc
      rw [List.head?_cons, Option.mem_some] at hc
      exact Or.inl hc.symm
    obtain ⟨after, hsegment, hafter⟩ := readSegment_complete h hpoint
    rw [List.append_assoc, List.cons_append]
    cases k with
    | zero =>
      refine ⟨_, readPath_of_limit hsegment, ?_, after, hsegment⟩
      rw [inFront_zero, piece_zero_append h.point_not_mem]
      exact h.append_eq _
    | succ k =>
      have hne : some (count + (k + 1)) ≠ some count := by simp
      have hcount : count + (k + 1) = count + 1 + k := by omega
      obtain ⟨left, hleft, htext, hread⟩ := ih (count + 1) (Nat.lt_of_succ_lt_succ hk)
      refine ⟨left, ?_, ?_, hread⟩
      · rw [readPath_of_readSegment hsegment hne, hafter, hcount]
        dsimp only
        rw [if_pos rfl, hleft]
        rfl
      · rw [inFront_succ_append h.point_not_mem, piece_succ_append h.point_not_mem, htext,
          List.append_assoc, List.cons_append]

section Front
variable {cs : List Char} (h : ',' ∉ cs)
include h

theorem segmentFront_of_not_mem (k : Nat) : segmentFront cs 0 k =
    inFront '.' k cs ++ (piece '.' k cs).takeWhile Text.isBlank := by
  unfold segmentFront
  rw [piece_zero h]
  rfl

theorem segmentFront_zero_append (k : Nat) (ds : List Char) : segmentFront (cs ++ ',' :: ds) 0 k =
    inFront '.' k cs ++ (piece '.' k cs).takeWhile Text.isBlank := by
  unfold segmentFront
  rw [piece_zero_append h]
  rfl

theorem segmentFront_succ_append (j k : Nat) (ds : List Char) :
    segmentFront (cs ++ ',' :: ds) (j + 1) k = cs ++ ',' :: segmentFront ds j k := by
  unfold segmentFront
  rw [piece_succ_append h, inFront_succ_append h, List.append_assoc, List.cons_append]

end Front

/-- **The first path that is too long** stops the expression. -/
theorem readPaths_tooDeep {paths : List Path} {cs : List Char} (h : ExpressionText paths cs)
    {m j : Nat} {path : Path} (hj : paths[j]? = some path) (hm : m < path.length)
    (hbefore : ∀ p ∈ paths.take j, p.length ≤ m) :
    ∃ left, readPaths (some m) cs = .error ⟨.tooDeep m, left⟩ ∧
      cs = segmentFront cs j m ++ left ∧ ∃ after, readSegment left = .ok (path[m], after) := by
  have hfirst : ∀ {cs rest}, PathText path cs → EndsPath rest →
      ∃ left, readPaths (some m) (cs ++ rest) = .error ⟨.tooDeep m, left⟩ ∧
        cs ++ rest = (inFront '.' m cs ++ (piece '.' m cs).takeWhile Text.isBlank) ++ left ∧
        ∃ after, readSegment left = .ok (path[m], after) := by
    intro cs rest hpath hrest
    obtain ⟨left, hleft, htext, hread⟩ := readPath_tooDeep hpath hrest 0 hm
    rw [Nat.zero_add] at hleft
    exact ⟨left, readPaths_of_error hleft, by rw [htext, List.append_assoc], hread⟩
  induction h generalizing j with
  | @one p cs h =>
    obtain ⟨rfl, rfl⟩ : j = 0 ∧ p = path := by
      rw [List.getElem?_singleton] at hj
      simpa using hj
    rw [segmentFront_of_not_mem h.comma_not_mem]
    have hnil : EndsPath [] := by simp [EndsPath]
    have hstop := hfirst h hnil
    rwa [List.append_nil] at hstop
  | @more p paths cs ds h _ ih =>
    have hcomma : EndsPath (',' :: ds) := by simp [EndsPath]
    cases j with
    | zero =>
      obtain rfl : p = path := Option.some.inj hj
      rw [segmentFront_zero_append h.comma_not_mem]
      exact hfirst h hcomma
    | succ j =>
      rw [List.take_succ_cons, List.forall_mem_cons] at hbefore
      have hwithin : WithinLimit (some m) 0 p := by
        intro m' hm' _
        cases hm'
        omega
      obtain ⟨left, hleft, htext, hread⟩ := ih hj hbefore.2
      refine ⟨left, ?_, ?_, hread⟩
      · rw [readPaths_of_readPath (readPath_complete h hcomma hwithin)]
        dsimp only
        rw [hleft]
        rfl
      · rw [segmentFront_succ_append h.comma_not_mem, List.append_assoc, List.cons_append, ← htext]

/-! ### Expressions -/

section Expressions
variable {policy : ColumnPolicy} {e : String} {m : Nat} {forest : Forest}

/-- What is accepted within a limit. -/
theorem parse_some_eq_ok_iff : parse ⟨policy, some m⟩ e = .ok forest ↔
    parse ⟨policy, none⟩ e = .ok forest ∧ ∀ n ∈ forest, n.depth ≤ m := by
  simp only [parse_eq_ok_iff]
  constructor
  · rintro (⟨hblanks, rfl⟩ | ⟨paths, htext, hlength, rfl⟩)
    · exact ⟨Or.inl ⟨hblanks, rfl⟩, fun n hn => nomatch hn⟩
    · refine ⟨Or.inr ⟨paths, htext, nofun, rfl⟩, ?_⟩
      rw [← depthBelow_le_iff, depthBelow_ofPaths_le_iff]
      exact hlength m rfl
  · rintro ⟨⟨hblanks, rfl⟩ | ⟨paths, htext, -, rfl⟩, hdepth⟩
    · exact Or.inl ⟨hblanks, rfl⟩
    · rw [← depthBelow_le_iff, depthBelow_ofPaths_le_iff] at hdepth
      refine Or.inr ⟨paths, htext, fun k hk => ?_, rfl⟩
      obtain rfl := Option.some.inj hk
      exact hdepth

/-- A tree that is too deep comes from a path that is too long; one of them is the first. -/
theorem exists_first_long {paths : List Path}
    (h : ∃ n ∈ Forest.ofPaths policy paths, m < n.depth) :
    ∃ (j : Nat) (path : Path), paths[j]? = some path ∧ m < path.length ∧
      ∀ p ∈ paths.take j, p.length ≤ m := by
  have hlong : ∃ path ∈ paths, m < path.length := by
    by_contra hshort
    push Not at hshort
    have hall : ∀ n ∈ Forest.ofPaths policy paths, n.depth ≤ m :=
      depthBelow_le_iff.mp (depthBelow_ofPaths_le_iff.mpr hshort)
    obtain ⟨n, hn, hdepth⟩ := h
    exact absurd (hall n hn) (Nat.not_le.mpr hdepth)
  obtain ⟨path, hfirst⟩ := Option.isSome_iff_exists.mp
    (List.find?_isSome (p := fun path : Path => m < path.length).mpr (by simpa using hlong))
  obtain ⟨hm, before, later, rfl, hbefore⟩ := List.find?_eq_some_iff_append.mp hfirst
  refine ⟨before.length, path, by simp, of_decide_eq_true hm, fun p hp => ?_⟩
  rw [List.take_left] at hp
  simpa using hbefore p hp

/-- **The first path that is too long** is what the limit refuses, at its first segment beyond the
limit. -/
theorem parse_tooDeep {paths : List Path} (h : ExpressionText paths e.toList) {j : Nat}
    {path : Path} (hj : paths[j]? = some path) (hm : m < path.length)
    (hbefore : ∀ p ∈ paths.take j, p.length ≤ m) :
    parse ⟨policy, some m⟩ e = .error ⟨e, segmentOffset e j m, .tooDeep m⟩ ∧
      ∃ left after, e.toList = segmentFront e.toList j m ++ left ∧
        readSegment left = .ok (path[m], after) := by
  obtain ⟨left, hstop, hsplit, after, hread⟩ := readPaths_tooDeep h hj hm hbefore
  have hoffset : segmentOffset e j m = Text.byteSize e.toList - Text.byteSize left := by
    unfold segmentOffset
    conv_rhs => rw [hsplit, Text.byteSize_append, Nat.add_sub_cancel]
  rw [hoffset]
  exact ⟨parse_eq_error_iff.mpr ⟨h.not_blanks, _, hstop, rfl⟩, left, after, hsplit, hread⟩

/-- A fault stays what it is within a limit, unless the limit is met before it. -/
theorem parse_some_of_eq_error {fault : Malformed} (h : parse ⟨policy, none⟩ e = .error fault) :
    parse ⟨policy, some m⟩ e = .error fault ∨ ∃ position < fault.position,
      parse ⟨policy, some m⟩ e = .error ⟨e, position, .tooDeep m⟩ := by
  obtain ⟨hblanks, stop, hstop, rfl⟩ := parse_eq_error_iff.mp h
  rcases readPaths_limit m e.toList with hsame | ⟨left, hleft, hin, hbehind⟩
  · exact Or.inl (parse_eq_error_iff.mpr ⟨hblanks, stop, hsame.trans hstop, rfl⟩)
  · rw [show readPaths none e.toList = _ from hstop] at hbehind
    refine Or.inr ⟨Text.byteSize e.toList - Text.byteSize left, ?_,
      parse_eq_error_iff.mpr ⟨hblanks, _, hleft, rfl⟩⟩
    have hless : Text.byteSize stop.left < Text.byteSize left := hbehind.byteSize_lt
    obtain ⟨front, hfront⟩ := hin
    have htotal : Text.byteSize e.toList = Text.byteSize front + Text.byteSize left := by
      rw [← hfront, Text.byteSize_append]
    show Text.byteSize e.toList - _ < Text.byteSize e.toList - _
    omega

end Expressions

/-- **A limit is a depth, and changes nothing else.** What is accepted with a limit is what is
accepted without, as far as all trees are within it. What is only refused for the limit is refused
at the first segment beyond it of the first path that is too long. What is refused anyway is refused
for the same fault, or for the limit at an earlier place. -/
theorem parse_limit (policy : ColumnPolicy) (e : String) (m : Nat) :
    (∀ forest, parse ⟨policy, some m⟩ e = .ok forest ↔
      parse ⟨policy, none⟩ e = .ok forest ∧ ∀ n ∈ forest, n.depth ≤ m) ∧
    (∀ forest, parse ⟨policy, none⟩ e = .ok forest → (∃ n ∈ forest, m < n.depth) →
      ∃ paths j path segment left after, parsePaths none e = .ok paths ∧
        paths[j]? = some path ∧ path[m]? = some segment ∧ (∀ p ∈ paths.take j, p.length ≤ m) ∧
        e.toList = segmentFront e.toList j m ++ left ∧ readSegment left = .ok (segment, after) ∧
        parse ⟨policy, some m⟩ e = .error ⟨e, segmentOffset e j m, .tooDeep m⟩) ∧
    ∀ fault, parse ⟨policy, none⟩ e = .error fault →
      parse ⟨policy, some m⟩ e = .error fault ∨ ∃ position < fault.position,
        parse ⟨policy, some m⟩ e = .error ⟨e, position, .tooDeep m⟩ := by
  refine ⟨fun forest => parse_some_eq_ok_iff, fun forest h hdeep => ?_,
    fun fault => parse_some_of_eq_error⟩
  rcases parse_eq_ok_iff.mp h with ⟨-, rfl⟩ | ⟨paths, htext, -, rfl⟩
  · obtain ⟨n, hn, -⟩ := hdeep
    cases hn
  · obtain ⟨j, path, hj, hm, hbefore⟩ := exists_first_long hdeep
    obtain ⟨hrefused, left, after, hsplit, hread⟩ := parse_tooDeep htext hj hm hbefore
    exact ⟨paths, j, path, path[m], left, after, parsePaths_eq_ok_iff.mpr (Or.inr ⟨htext, nofun⟩),
      hj, List.getElem?_eq_getElem hm, hbefore, hsplit, hread, hrefused⟩

example : parse ⟨.union, some 1⟩ "a, b[c] . d" = .error ⟨"a, b[c] . d", 10, .tooDeep 1⟩ := by
  decide +kernel

end Sideload.Include
