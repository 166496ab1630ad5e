import DocumentQuery.Number.Finite

/-!
# JSON documents as written

`Json` is the tree of a JSON document. Objects keep their members in the order
they were written in, a repeated key included.

A tree is also what is left of a text that is not a JSON document: reading a
text never fails, and what is wrong with it stands in the tree at the place
where it was found. Whoever reads the tree from the front therefore meets what
is wrong exactly when the reading comes to it. `Json.sound` says that nothing is
wrong anywhere.

Main definitions:

* `Flaw` — why a text breaks off
* `Json`, `Json.sound`
* `Json.isNull`
-/

namespace DocumentQuery

/-- Why the text of a document breaks off. -/
inductive Flaw where
  /-- The text ends where more is needed. -/
  | ended
  /-- The text ends inside `null`. -/
  | endedInNull
  /-- The text ends inside `true` or `false`. -/
  | endedInWord
  /-- The text ends inside a number. -/
  | endedInNumber
  /-- The text ends inside a string that already has no value. -/
  | endedInUnfit
  /-- A character stands where none of its kind may stand. -/
  | malformed
deriving DecidableEq, Repr

/-- A JSON document. -/
inductive Json where
  | null
  | bool (b : Bool)
  /-- A number without point and exponent that fits into 64 bits. -/
  | int (n : Int)
  /-- Any other number. -/
  | real (x : FiniteDouble)
  | str (s : String)
  | arr (items : List Json)
  | obj (members : List (String × Json))
  /-- An object that goes wrong after some members, and what stands there:
  `broken` or `unkeyed`. -/
  | torn (members : List (String × Json)) (tail : Json)
  /-- A place where the text breaks off. -/
  | broken (flaw : Flaw)
  /-- Correctly written, but without a value: a number beyond the range of
  doubles, half of a surrogate pair, or nesting that is too deep. -/
  | unfit
  /-- What stands where a key should, and the rest of the object for whoever
  passes over it. -/
  | unkeyed (key rest : Json)
deriving Inhabited, Repr

namespace Json

mutual

/-- The document is complete, and every part of it has a value. -/
def sound : Json → Bool
  | .arr items => soundItems items
  | .obj members => soundMembers members
  | .torn _ _ | .broken _ | .unfit | .unkeyed _ _ => false
  | _ => true
termination_by structural j => j

def soundItems : List Json → Bool
  | [] => true
  | j :: js => j.sound && soundItems js
termination_by structural js => js

def soundMembers : List (String × Json) → Bool
  | [] => true
  | (_, j) :: ms => j.sound && soundMembers ms
termination_by structural ms => ms

end

/-- The document is the word `null`. -/
def isNull : Json → Bool
  | .null => true
  | _ => false

end Json

end DocumentQuery
