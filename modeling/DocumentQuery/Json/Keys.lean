import DocumentQuery.Json.Basic

/-!
# Members in key order

Lists of keyed entries in ascending order of their keys, each key at most once.
Strings are ordered by code points, which is also the order of their UTF-8
bytes.

Main definitions:

* `Keys.insert` — adds an entry, in place of an earlier one with the same key
* `Keys.ofList` — orders entries; of a repeated key the last entry stays
* `Keys.Ascending` — what such a list satisfies
* `Json.sortKeys` — a document with the members of every object in key order
-/

namespace DocumentQuery

namespace Keys

variable {α : Type}

/-- Keys ascend strictly. -/
def Ascending (entries : List (String × α)) : Prop :=
  entries.Pairwise fun a b => a.1 < b.1

/-- Adds an entry to a list in key order. -/
def insert (key : String) (a : α) : List (String × α) → List (String × α)
  | [] => [(key, a)]
  | (k, b) :: rest =>
    if key < k then (key, a) :: (k, b) :: rest
    else if key = k then (key, a) :: rest
    else (k, b) :: insert key a rest

/-- Entries in key order; the last entry of a key wins. -/
def ofList (entries : List (String × α)) : List (String × α) :=
  entries.foldl (fun sorted (key, a) => insert key a sorted) []

end Keys

namespace Json

mutual

/-- Every object in key order, the last member of a repeated key winning. -/
def sortKeys : Json → Json
  | .arr items => .arr (sortItems items)
  | .obj members => .obj (Keys.ofList (sortMembers members))
  | j => j
termination_by structural j => j

def sortItems : List Json → List Json
  | [] => []
  | j :: js => j.sortKeys :: sortItems js
termination_by structural js => js

def sortMembers : List (String × Json) → List (String × Json)
  | [] => []
  | (key, j) :: ms => (key, j.sortKeys) :: sortMembers ms
termination_by structural ms => ms

end

end Json

end DocumentQuery
