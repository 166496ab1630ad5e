/-!
# Types with named members

A finite type whose members are known by name, in a fixed order. Documents
write a member by its name.
-/

namespace DocumentQuery

/-- The members of a type in order, and their names. -/
class Enumerated (α : Type) where
  members : List α
  name : α → String

namespace Enumerated

variable {α : Type} [Enumerated α]

/-- The names of all members, in order. -/
def names (α : Type) [Enumerated α] : List String := (members : List α).map name

/-- The member with the given name. -/
def named? (s : String) : Option α := members.find? fun a => name a == s

/-- The member at a position, counted from zero. -/
def at? (position : Nat) : Option α := members[position]?

end Enumerated

end DocumentQuery
