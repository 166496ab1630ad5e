import DocumentQuery.Json.Basic

/-!
# What is wrong with a document

Main definitions:

* `DocumentError`
* `DocumentError.message?` — the text of an error about a name
* `Flaw.met`, `Flaw.passed` — a flaw of the text where a value is wanted, and
  where one is passed over
-/

namespace DocumentQuery

inductive DocumentError where
  /-- The text ends too early. -/
  | ended
  /-- The text is not well formed. -/
  | malformed
  | missingField (name : String)
  | duplicateField (name : String)
  | unknownField (name : String) (expected : List String)
  | unknownVariant (name : String) (expected : List String)
  /-- A value of another kind, or out of range, or too many or too few of them. -/
  | invalid
deriving DecidableEq, Repr

namespace DocumentError

def quoted (name : String) : String := "`" ++ name ++ "`"

/-- The names that would have been possible. -/
def alternatives : List String → String
  | [] => "nothing"
  | [name] => quoted name
  | [first, second] => quoted first ++ " or " ++ quoted second
  | names => "one of " ++ ", ".intercalate (names.map quoted)

/-- The text of an error that is about a name. -/
def message? : DocumentError → Option String
  | .missingField name => some ("missing field " ++ quoted name)
  | .duplicateField name => some ("duplicate field " ++ quoted name)
  | .unknownField name expected =>
    some ("unknown field " ++ quoted name ++ ", expected " ++ alternatives expected)
  | .unknownVariant name expected =>
    some ("unknown variant " ++ quoted name ++ ", expected " ++ alternatives expected)
  | .ended | .malformed | .invalid => none

/-- The text of an error. -/
def message (e : DocumentError) : String :=
  match e.message?, e with
  | some text, _ => text
  | none, .ended => "unexpected end of text"
  | none, .malformed => "malformed text"
  | none, _ => "invalid value"

end DocumentError

namespace Flaw

/-- A flaw where a value is wanted. -/
def met : Flaw → DocumentError
  | .malformed | .endedInUnfit => .malformed
  | _ => .ended

/-- A flaw where a value is passed over: there a number has to be complete. -/
def passed : Flaw → DocumentError
  | .malformed | .endedInNumber => .malformed
  | _ => .ended

/-- A flaw where the name of a variant is wanted: there the first character
decides. -/
def atVariant : Flaw → DocumentError
  | .ended => .ended
  | _ => .malformed

end Flaw

/-! ## Faults of a document

The first fault in the order of the text. A part that is merely passed over may
lack a value. -/

namespace Json

/-- What is wrong where a key is wanted and none stands, given the rest of the
object. -/
def faultAtKey : Json → DocumentError
  | .broken flaw => flaw.met
  | _ => .malformed

mutual

/-- The first fault of a document that is to be read, or merely passed over. -/
def firstFault (wanted : Bool) : Json → Option DocumentError
  | .arr items => firstFaultOfItems wanted items
  | .obj members => firstFaultOfMembers wanted members
  | .torn members tail => (firstFaultOfMembers wanted members).or (tail.firstFault wanted)
  | .broken flaw => some (if wanted then flaw.met else flaw.passed)
  | .unfit => if wanted then some .malformed else none
  | .unkeyed _ rest => if wanted then some (faultAtKey rest) else rest.firstFault wanted
  | _ => none
termination_by structural j => j

def firstFaultOfItems (wanted : Bool) : List Json → Option DocumentError
  | [] => none
  | j :: js => (j.firstFault wanted).or (firstFaultOfItems wanted js)
termination_by structural js => js

def firstFaultOfMembers (wanted : Bool) : List (String × Json) → Option DocumentError
  | [] => none
  | (_, j) :: ms => (j.firstFault wanted).or (firstFaultOfMembers wanted ms)
termination_by structural ms => ms

end

/-- Passes over a document. -/
def pass (j : Json) : Except DocumentError Unit :=
  match j.firstFault false with
  | some e => .error e
  | none => .ok ()

/-- Takes in a whole document before any part of it is looked at. -/
def collect (j : Json) : Except DocumentError Unit :=
  match j.firstFault true with
  | some e => .error e
  | none => .ok ()

/-- What is wrong when a value of another kind, or a further member, was wanted. -/
def unexpected : Json → DocumentError
  | .broken flaw => flaw.met
  | .unfit => .malformed
  | .unkeyed _ rest => faultAtKey rest
  | _ => .invalid

end Json

end DocumentQuery
