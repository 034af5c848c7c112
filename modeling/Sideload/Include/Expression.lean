import Sideload.Include.Forest
import Sideload.Text.Blank
import Sideload.Text.Bytes

/-! # Include expressions

An expression is a list of paths with commas between them, such as
`users[email|name].posts, creator`. Names are made of ASCII letters, digits, `_` and `-`; blanks
may stand around every name, bracket, bar, point and comma, but not between a closing bracket and
anything else than a blank, a point, a comma or the end.

Each reader takes the text that is left and answers with what it read and what is left then. A
fault is reported with the text that is left where it stands (`Stop`); the offset is the size of
what comes before (`parse`). A bracket that is never closed is reported at the start of its
segment, every other fault where it is met. -/

namespace Sideload.Include

/-- Why a text is no include expression. -/
inductive Reason where
  | unbalancedBracket
  | emptySegment
  | emptyColumn
  | invalidCharacter (c : Char)
  | trailingInput
  | tooDeep (limit : Nat)
deriving DecidableEq, Repr

/-- The reason in words. -/
def Reason.message : Reason → String
  | .unbalancedBracket => "unbalanced bracket"
  | .emptySegment => "empty segment"
  | .emptyColumn => "empty column name"
  | .invalidCharacter c => "unexpected character '" ++ String.singleton c ++ "'"
  | .trailingInput => "unexpected input after ']'"
  | .tooDeep limit => "nesting deeper than " ++ toString limit ++ " levels"

/-- A text that is no include expression, with the offset in bytes where it goes wrong. -/
structure Malformed where
  expression : String
  position : Nat
  reason : Reason
deriving DecidableEq, Repr

/-- The fault in words. -/
def Malformed.message (m : Malformed) : String :=
  "malformed include expression at offset " ++ toString m.position ++ ": " ++ m.reason.message

/-- How deep paths may go unless another limit is given. -/
def defaultMaxDepth : Nat := 32

/-- How expressions are read. Without a limit paths may have any length. -/
structure Options where
  columnPolicy : ColumnPolicy := .union
  maxDepth : Option Nat := some defaultMaxDepth
deriving DecidableEq, Repr

/-- A fault, and the text that is left where it stands. -/
structure Stop where
  reason : Reason
  left : List Char
deriving DecidableEq, Repr

/-! ### Names and blanks -/

/-- The characters of names. -/
def isNameChar (c : Char) : Bool := c.isAlphanum || c = '_' || c = '-'

/-- The text behind the blanks at its front. -/
def skipBlanks (cs : List Char) : List Char := cs.dropWhile Text.isBlank

/-- The name at the front of a text, which may be empty. -/
def readName (cs : List Char) : List Char := cs.takeWhile isNameChar

/-- The text behind the name at its front. -/
def afterName (cs : List Char) : List Char := cs.dropWhile isNameChar

theorem length_dropWhile_le (p : Char → Bool) (cs : List Char) :
    (cs.dropWhile p).length ≤ cs.length :=
  (List.dropWhile_sublist p).length_le

theorem length_skipBlanks (cs : List Char) : (skipBlanks cs).length ≤ cs.length :=
  length_dropWhile_le _ cs

theorem length_afterName (cs : List Char) : (afterName cs).length ≤ cs.length :=
  length_dropWhile_le _ cs

theorem length_of_skipBlanks {cs rest : List Char} {c : Char} (h : skipBlanks cs = c :: rest) :
    rest.length < cs.length := by
  have := length_skipBlanks cs
  rw [h, List.length_cons] at this
  omega

theorem length_of_afterName {cs rest : List Char} {c : Char}
    (h : skipBlanks (afterName (skipBlanks cs)) = c :: rest) : rest.length < cs.length := by
  have h₁ := length_skipBlanks cs
  have h₂ := length_afterName (skipBlanks cs)
  have h₃ := length_of_skipBlanks h
  omega

theorem length_afterName_lt {cs : List Char} (h : readName cs ≠ []) :
    (afterName cs).length < cs.length := by
  unfold readName at h
  unfold afterName
  cases cs with
  | nil => simp at h
  | cons c cs =>
    rw [List.takeWhile_cons] at h
    split at h
    · rename_i hc
      rw [List.dropWhile_cons_of_pos hc]
      have := length_dropWhile_le isNameChar cs
      simp only [List.length_cons]; omega
    · simp at h

/-! ### Columns -/

/-- What may stand behind a closing bracket. -/
def endsColumns : List Char → Bool
  | [] => true
  | c :: _ => c = '.' || c = ',' || Text.isBlank c

/-- The columns behind an opening bracket, up to and with the closing one. A bracket that is not
closed is reported at `start`. -/
def readColumns (start cs : List Char) : Except Stop (List String × List Char) :=
  match _h : skipBlanks (afterName (skipBlanks cs)) with
  | [] => .error ⟨.unbalancedBracket, start⟩
  | c :: rest =>
    if c = '|' ∨ c = ']' then
      if readName (skipBlanks cs) = [] then .error ⟨.emptyColumn, c :: rest⟩
      else if c = ']' then
        if endsColumns rest then .ok ([String.ofList (readName (skipBlanks cs))], rest)
        else .error ⟨.trailingInput, rest⟩
      else
        match readColumns start rest with
        | .ok (columns, rest) => .ok (String.ofList (readName (skipBlanks cs)) :: columns, rest)
        | .error stop => .error stop
    else if c = '[' then .error ⟨.unbalancedBracket, start⟩
    else .error ⟨.invalidCharacter c, c :: rest⟩
termination_by cs.length
decreasing_by exact length_of_afterName _h

theorem length_readColumns {start cs rest : List Char} {columns : List String}
    (h : readColumns start cs = .ok (columns, rest)) : rest.length < cs.length := by
  fun_induction readColumns start cs generalizing columns rest
  all_goals simp only [Except.ok.injEq, Prod.mk.injEq, reduceCtorEq] at h
  next heq _ => exact h.2 ▸ length_of_afterName heq
  next heq _ _ _ _ _ hr ih => exact h.2 ▸ Nat.lt_trans (ih hr) (length_of_afterName heq)

/-! ### Segments and paths -/

/-- What is wrong where a name should stand. -/
def missingName : List Char → Reason
  | [] => .emptySegment
  | c :: _ =>
    if c = '.' ∨ c = ',' ∨ c = '[' then .emptySegment
    else if c = ']' then .unbalancedBracket
    else .invalidCharacter c

/-- A name, and the columns in brackets behind it if there are any. Blanks behind a name without
columns are left. -/
def readSegment (cs : List Char) : Except Stop (Segment × List Char) :=
  if readName cs = [] then .error ⟨missingName cs, cs⟩
  else match skipBlanks (afterName cs) with
    | '[' :: inside =>
      match readColumns cs inside with
      | .ok (columns, rest) => .ok (⟨String.ofList (readName cs), some columns⟩, rest)
      | .error stop => .error stop
    | _ => .ok (⟨String.ofList (readName cs), none⟩, afterName cs)

theorem length_readSegment {cs rest : List Char} {s : Segment}
    (h : readSegment cs = .ok (s, rest)) : rest.length < cs.length := by
  fun_cases readSegment cs
  all_goals
    simp only [*, if_false, if_true, Except.ok.injEq, Prod.mk.injEq, reduceCtorEq, readSegment] at h
  next hname inside heq columns rest' hr =>
    have := length_afterName_lt hname
    have := length_of_skipBlanks heq
    have := length_readColumns hr
    rw [← h.2]; omega
  next hname _ => exact h.2 ▸ length_afterName_lt hname

theorem length_of_readSegment {cs rest : List Char} {s : Segment}
    (h : readSegment (skipBlanks cs) = .ok (s, rest)) : rest.length < cs.length :=
  Nat.lt_of_lt_of_le (length_readSegment h) (length_skipBlanks cs)

/-- A path whose first segment has number `count`, up to a comma or the end of the text. The first
segment beyond the limit is reported at its name. -/
def readPath (limit : Option Nat) (count : Nat) (cs : List Char) :
    Except Stop (Path × List Char) :=
  match _h : readSegment (skipBlanks cs) with
  | .error stop => .error stop
  | .ok (s, after) =>
    if limit = some count then .error ⟨.tooDeep count, skipBlanks cs⟩
    else match _h' : skipBlanks after with
      | [] => .ok ([s], [])
      | c :: rest =>
        if c = '.' then
          match readPath limit (count + 1) rest with
          | .ok (path, rest) => .ok (s :: path, rest)
          | .error stop => .error stop
        else if c = ',' then .ok ([s], c :: rest)
        else if c = '[' ∨ c = ']' then .error ⟨.unbalancedBracket, c :: rest⟩
        else .error ⟨.invalidCharacter c, c :: rest⟩
termination_by cs.length
decreasing_by
  have h₁ := length_of_readSegment _h
  have h₂ := length_of_skipBlanks _h'
  omega

theorem length_readPath {limit : Option Nat} {count : Nat} {cs rest : List Char} {path : Path}
    (h : readPath limit count cs = .ok (path, rest)) : rest.length < cs.length := by
  fun_induction readPath limit count cs generalizing path rest
  all_goals simp only [Except.ok.injEq, Prod.mk.injEq, reduceCtorEq] at h
  all_goals
    have h₁ := length_of_readSegment ‹_›
  · rw [← h.2, List.length_nil]; omega
  next heq ih =>
    have h₃ := length_of_skipBlanks heq
    have h₄ := ih ‹_›
    rw [← h.2]; omega
  next heq _ =>
    have h₃ := length_of_skipBlanks heq
    rw [← h.2, List.length_cons]; omega

/-- Paths with commas between them, up to anything else behind a path. -/
def readPaths (limit : Option Nat) (cs : List Char) : Except Stop (List Path × List Char) :=
  match _h : readPath limit 0 cs with
  | .error stop => .error stop
  | .ok (path, []) => .ok ([path], [])
  | .ok (path, c :: rest) =>
    if c = ',' then
      match readPaths limit rest with
      | .ok (paths, rest) => .ok (path :: paths, rest)
      | .error stop => .error stop
    else .ok ([path], c :: rest)
termination_by cs.length
decreasing_by
  have := length_readPath _h
  rw [List.length_cons] at this
  omega

/-! ### Expressions -/

/-- The paths of an expression, in written order. A blank expression has none. What the paths leave
of the text is not looked at. -/
def parsePaths (limit : Option Nat) (expression : String) : Except Malformed (List Path) :=
  let cs := expression.toList
  if cs.all Text.isBlank then .ok []
  else match readPaths limit cs with
    | .ok (paths, _) => .ok paths
    | .error stop =>
      .error ⟨expression, Text.byteSize cs - Text.byteSize stop.left, stop.reason⟩

/-- The forest of an expression. -/
def parse (options : Options) (expression : String) : Except Malformed Forest :=
  (parsePaths options.maxDepth expression).map (Forest.ofPaths options.columnPolicy)

end Sideload.Include
