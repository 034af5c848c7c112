/-! # Arguments

The words of a command line, read by the options that a command has. An option is written
`--name`, or `-n` if it has a letter; letters may stand together behind one dash. The value of an
option follows in the same word (`--name=value`, `-nvalue`, `-n=value`) or is the next word, which
then must not look like an option; a lone dash does not. Every word behind `--` is plain.

A command has one plain word, and most of its options can be given once; values have a form
(`Form`). Words are read up to an option that is last, and what is read must keep to this
(`Usage.read`). Whether something is missing is another question. -/

namespace Sideload.CommandLine

/-! ### Forms of values -/

/-- What a value has to be like. -/
inductive Form where
  | any
  | nonEmpty
  | number
  | oneOf (names : List String)
deriving DecidableEq, Repr

/-- The number that a row of digits writes. -/
def natOfDigits? : List Char → Option Nat
  | [] => none
  | cs =>
    if cs.all Char.isDigit then some (cs.foldl (fun n c => n * 10 + (c.toNat - '0'.toNat)) 0)
    else none

/-- A number of 64 bits, with or without a plus in front of it. -/
def readNumber? (text : String) : Option Nat :=
  let digits := match text.toList with
    | '+' :: cs => cs
    | cs => cs
  (natOfDigits? digits).filter (· < Nat.pow 2 64)

/-- The text has the form. -/
def Form.admits : Form → String → Bool
  | any, _ => true
  | nonEmpty, text => text ≠ ""
  | number, text => (readNumber? text).isSome
  | oneOf names, text => names.contains text

/-! ### Options -/

/-- An option that a command has. -/
structure Opt where
  name : String
  letter : Option Char := none
  /-- The form of its value, if it has one. -/
  form : Option Form := none
  /-- It can be given more than once. -/
  repeats : Bool := false
  /-- What follows it is not read. -/
  isLast : Bool := false
deriving DecidableEq, Repr

/-- What can be said to a command. -/
structure Usage where
  opts : List Opt
  /-- What the plain word names. -/
  plainName : String
  plainForm : Form := .any
deriving DecidableEq, Repr

/-- What a command line is made of. -/
inductive Argument where
  | plain (text : String)
  | flag (name : String)
  | value (name text : String)
deriving DecidableEq, Repr

/-- Why a command line cannot be followed. -/
inductive UsageError where
  | nothingAsked
  | noCommand
  | unknownCommand (name : String)
  | unknownOption (word : String)
  | unexpected (word : String)
  | missing (what : String)
  | missingValue (option : String)
  | unneededValue (option : String)
  | invalidValue (what text : String)
  | repeated (option : String)
  | conflict (option other : String)
deriving DecidableEq, Repr

/-- The error in words. -/
def UsageError.message : UsageError → String
  | nothingAsked => "nothing is asked for"
  | noCommand => "a command is required"
  | unknownCommand name => "unknown command '" ++ name ++ "'"
  | unknownOption word => "unexpected argument '" ++ word ++ "'"
  | unexpected word => "unexpected argument '" ++ word ++ "'"
  | missing what => "required but not given: " ++ what
  | missingValue option => "a value is required for '" ++ option ++ "'"
  | unneededValue option => "'" ++ option ++ "' takes no value"
  | invalidValue what text => "invalid value '" ++ text ++ "' for '" ++ what ++ "'"
  | repeated option => "'" ++ option ++ "' cannot be used more than once"
  | conflict option other => "'" ++ option ++ "' cannot be used with '" ++ other ++ "'"

/-! ### One word -/

/-- What a word holds, and the option that takes the next word as its value. -/
structure Reading where
  found : List Argument
  waiting : Option String := none
deriving DecidableEq, Repr

/-- The word looks like an option. -/
def isDashed (word : String) : Bool :=
  match word.toList with
  | '-' :: _ :: _ => true
  | _ => false

/-- An option by its name. -/
def readLong (opts : List Opt) (cs : List Char) : Except UsageError Reading :=
  let name := String.ofList (cs.takeWhile (· ≠ '='))
  match opts.find? (·.name = name), cs.dropWhile (· ≠ '=') with
  | none, _ => .error (.unknownOption name)
  | some o, [] => .ok (if o.form.isSome then ⟨[], some o.name⟩ else ⟨[.flag o.name], none⟩)
  | some o, _ :: text =>
    if o.form.isSome then .ok ⟨[.value o.name (String.ofList text)], none⟩
    else .error (.unneededValue o.name)

/-- Options by their letters. The first that takes a value takes the rest of the word. -/
def readLetters (opts : List Opt) : List Char → Except UsageError Reading
  | [] => .ok ⟨[], none⟩
  | c :: cs =>
    match opts.find? (·.letter = some c) with
    | none => .error (.unknownOption (String.singleton c))
    | some o =>
      if o.form.isSome then
        match cs with
        | [] => .ok ⟨[], some o.name⟩
        | '=' :: text => .ok ⟨[.value o.name (String.ofList text)], none⟩
        | text => .ok ⟨[.value o.name (String.ofList text)], none⟩
      else if o.isLast then .ok ⟨[.flag o.name], none⟩
      else (readLetters opts cs).map fun r => { r with found := .flag o.name :: r.found }

/-- One word that is not the value of an option. -/
def readWord (opts : List Opt) (word : String) : Except UsageError Reading :=
  match word.toList with
  | '-' :: '-' :: cs => readLong opts cs
  | '-' :: c :: cs => readLetters opts (c :: cs)
  | _ => .ok ⟨[.plain word], none⟩

/-! ### All words -/

/-- What was found ends the command line. -/
def endsReading (opts : List Opt) (found : List Argument) : Bool :=
  found.any fun a =>
    match a with
    | .flag name => opts.any fun o => o.name = name && o.isLast
    | _ => false

/-- All words; the value of the option that is `waiting` comes first. -/
def readWords (opts : List Opt) (waiting : Option String) :
    List String → Except UsageError (List Argument)
  | [] =>
    match waiting with
    | none => .ok []
    | some name => .error (.missingValue name)
  | word :: words =>
    match waiting with
    | some name =>
      if isDashed word then .error (.missingValue name)
      else (readWords opts none words).map (.value name word :: ·)
    | none =>
      if word = "--" then .ok (words.map .plain)
      else
        match readWord opts word with
        | .error e => .error e
        | .ok r =>
          if endsReading opts r.found then .ok r.found
          else (readWords opts r.waiting words).map (r.found ++ ·)

/-! ### Looking up what was read -/

/-- The plain words. -/
def plains (args : List Argument) : List String :=
  args.filterMap fun a => match a with | .plain text => some text | _ => none

/-- The values of an option, in order. -/
def values (name : String) (args : List Argument) : List String :=
  args.filterMap fun a =>
    match a with
    | .value other text => if other = name then some text else none
    | _ => none

/-- The first value of an option. -/
def value? (name : String) (args : List Argument) : Option String := (values name args).head?

/-- The flag is given. -/
def hasFlag (name : String) (args : List Argument) : Bool := args.contains (.flag name)

/-! ### What a command admits -/

namespace Usage

/-- The option can be given more than once. -/
def repeats (u : Usage) (name : String) : Bool := u.opts.any fun o => o.name = name && o.repeats

/-- The text has the form that the value of an option must have. -/
def admitsValue (u : Usage) (name text : String) : Bool :=
  u.opts.any fun o => o.name = name && o.form.any (·.admits text)

/-- What is wrong with an argument behind others. -/
def fault? (u : Usage) (before : List Argument) : Argument → Option UsageError
  | .plain text =>
    if !(plains before).isEmpty then some (.unexpected text)
    else if u.plainForm.admits text then none
    else some (.invalidValue u.plainName text)
  | .flag name => if hasFlag name before && !u.repeats name then some (.repeated name) else none
  | .value name text =>
    if !(values name before).isEmpty && !u.repeats name then some (.repeated name)
    else if u.admitsValue name text then none
    else some (.invalidValue name text)

/-- The first thing that is wrong with arguments behind others. -/
def firstFault? (u : Usage) (before : List Argument) : List Argument → Option UsageError
  | [] => none
  | a :: args =>
    match u.fault? before a with
    | some e => some e
    | none => u.firstFault? (before ++ [a]) args

/-- The arguments that the words of a command hold, if nothing is wrong with them. -/
def read (u : Usage) (words : List String) : Except UsageError (List Argument) :=
  match readWords u.opts none words with
  | .error e => .error e
  | .ok args =>
    match u.firstFault? [] args with
    | some e => .error e
    | none => .ok args

/-- The plain word. -/
def plain (u : Usage) (args : List Argument) : Except UsageError String :=
  match plains args with
  | [] => .error (.missing u.plainName)
  | text :: _ => .ok text

end Usage

end Sideload.CommandLine
