/-! # Findings

What a check finds wrong: where it is, and what is wrong in words. -/

namespace Sideload

/-- Something wrong at a place. -/
structure Finding where
  path : String
  message : String
deriving DecidableEq, Repr

/-- A finding on one line. -/
def Finding.text (f : Finding) : String := f.path ++ ": " ++ f.message

/-- How many findings a check of a document had, in words. -/
def Finding.summary (fs : List Finding) : String :=
  "document check failed with " ++ toString fs.length ++ " error(s)"

end Sideload
