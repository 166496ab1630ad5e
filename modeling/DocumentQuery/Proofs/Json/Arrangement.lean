import DocumentQuery.Proofs.Json.Keys
import DocumentQuery.Proofs.Json.Printer

/-!
# Documents with their members rearranged

A document says the same in whatever order the members of its objects stand. Two
orders matter: the one in which documents are written, and the order of keys, in
which documents are kept in memory.

Main definitions and results:

* `Arrangement` — an order for the members of objects.
* `Json.arranged` — a document in this order.
* `Json.arranged_written`, `Json.arranged_sorted` — the two orders that matter.
* `Json.sound_arranged` — a sound document stays sound.
* `Json.DistinctKeys` — no object has a key twice.
-/

namespace DocumentQuery

/-- An order for the members of objects: members with different keys are only
rearranged, and those in key order stay where they are. -/
structure Arrangement where
  order : List (String × Json) → List (String × Json)
  subset : ∀ ms, order ms ⊆ ms
  perm : ∀ ms, (ms.map Prod.fst).Nodup → (order ms).Perm ms
  ascending : ∀ ms, Keys.Ascending ms → order ms = ms

namespace Arrangement

/-- Members stand as they were written. -/
def written : Arrangement where
  order ms := ms
  subset _ := List.Subset.refl _
  perm _ _ := .refl _
  ascending _ _ := rfl

/-- Members stand in key order. -/
def sorted : Arrangement where
  order := Keys.ofList
  subset _ _ := Keys.mem_of_mem_ofList
  perm _ := Keys.perm_ofList
  ascending _ := Keys.ofList_of_ascending

theorem order_nil (a : Arrangement) : a.order [] = [] := a.ascending [] List.Pairwise.nil

theorem order_singleton (a : Arrangement) (m : String × Json) : a.order [m] = [m] :=
  a.ascending [m] (List.pairwise_singleton _ _)

end Arrangement

namespace Json

variable (a : Arrangement)

mutual

/-- The document with the members of every object in some order. -/
def arranged : Json → Json
  | .arr items => .arr (arrangedItems items)
  | .obj members => .obj (a.order (arrangedMembers members))
  | j => j
termination_by structural j => j

def arrangedItems : List Json → List Json
  | [] => []
  | j :: js => j.arranged :: arrangedItems js
termination_by structural js => js

def arrangedMembers : List (String × Json) → List (String × Json)
  | [] => []
  | (key, j) :: ms => (key, j.arranged) :: arrangedMembers ms
termination_by structural ms => ms

end

theorem arrangedMembers_eq (ms : List (String × Json)) :
    arrangedMembers a ms = ms.map fun m => (m.1, m.2.arranged a) := by
  induction ms with
  | nil => rfl
  | cons m ms ih => rw [arrangedMembers, ih, List.map_cons]

theorem keys_arrangedMembers (ms : List (String × Json)) :
    (arrangedMembers a ms).map Prod.fst = ms.map Prod.fst := by
  rw [arrangedMembers_eq, List.map_map]
  rfl

theorem sortMembers_eq (ms : List (String × Json)) :
    sortMembers ms = ms.map fun m => (m.1, m.2.sortKeys) := by
  induction ms with
  | nil => rfl
  | cons m ms ih => rw [sortMembers, ih, List.map_cons]

theorem keys_sortMembers (ms : List (String × Json)) :
    (sortMembers ms).map Prod.fst = ms.map Prod.fst := by
  rw [sortMembers_eq, List.map_map]
  rfl

/-! ## The two orders that matter -/

mutual

theorem arranged_written : ∀ j : Json, j.arranged .written = j
  | .arr items => congrArg arr (arrangedItems_written items)
  | .obj members => congrArg obj (arrangedMembers_written members)
  | .null | .bool _ | .int _ | .real _ | .str _ | .torn _ _ | .broken _ | .unfit | .unkeyed _ _ =>
    rfl
termination_by structural j => j

theorem arrangedItems_written : ∀ js : List Json, arrangedItems .written js = js
  | [] => rfl
  | j :: js => by rw [arrangedItems, arranged_written j, arrangedItems_written js]
termination_by structural js => js

theorem arrangedMembers_written : ∀ ms : List (String × Json), arrangedMembers .written ms = ms
  | [] => rfl
  | (key, j) :: ms => by rw [arrangedMembers, arranged_written j, arrangedMembers_written ms]
termination_by structural ms => ms

end

mutual

theorem arranged_sorted : ∀ j : Json, j.arranged .sorted = j.sortKeys
  | .arr items => congrArg arr (arrangedItems_sorted items)
  | .obj members => congrArg (fun ms => obj (Keys.ofList ms)) (arrangedMembers_sorted members)
  | .null | .bool _ | .int _ | .real _ | .str _ | .torn _ _ | .broken _ | .unfit | .unkeyed _ _ =>
    rfl
termination_by structural j => j

theorem arrangedItems_sorted : ∀ js : List Json, arrangedItems .sorted js = sortItems js
  | [] => rfl
  | j :: js => by rw [arrangedItems, sortItems, arranged_sorted j, arrangedItems_sorted js]
termination_by structural js => js

theorem arrangedMembers_sorted :
    ∀ ms : List (String × Json), arrangedMembers .sorted ms = sortMembers ms
  | [] => rfl
  | (key, j) :: ms => by
    rw [arrangedMembers, sortMembers, arranged_sorted j, arrangedMembers_sorted ms]
termination_by structural ms => ms

end

/-! ## Soundness -/

mutual

theorem sound_arranged : ∀ j : Json, j.sound = true → (j.arranged a).sound = true
  | .arr items, h => soundItems_arranged items h
  | .obj members, h => by
    -- an arrangement adds no members
    have hMembers := soundMembers_iff.mp (soundMembers_arranged members h)
    exact soundMembers_iff.mpr fun m hm => hMembers m (a.subset _ hm)
  | .null, _ | .bool _, _ | .int _, _ | .real _, _ | .str _, _ => rfl
termination_by structural j => j

theorem soundItems_arranged :
    ∀ js : List Json, soundItems js = true → soundItems (arrangedItems a js) = true
  | [], _ => rfl
  | j :: js, h => by
    rw [soundItems, Bool.and_eq_true] at h
    rw [arrangedItems, soundItems, sound_arranged j h.1, soundItems_arranged js h.2]
    rfl
termination_by structural js => js

theorem soundMembers_arranged :
    ∀ ms : List (String × Json), soundMembers ms = true → soundMembers (arrangedMembers a ms) = true
  | [], _ => rfl
  | (_, j) :: ms, h => by
    rw [soundMembers, Bool.and_eq_true] at h
    rw [arrangedMembers, soundMembers, sound_arranged j h.1, soundMembers_arranged ms h.2]
    rfl
termination_by structural ms => ms

end

/-! ## Keys -/

mutual

/-- No object has a key twice. -/
def DistinctKeys : Json → Prop
  | .arr items => DistinctKeysInItems items
  | .obj members => (members.map Prod.fst).Nodup ∧ DistinctKeysInMembers members
  | _ => True
termination_by structural j => j

def DistinctKeysInItems : List Json → Prop
  | [] => True
  | j :: js => j.DistinctKeys ∧ DistinctKeysInItems js
termination_by structural js => js

def DistinctKeysInMembers : List (String × Json) → Prop
  | [] => True
  | (_, j) :: ms => j.DistinctKeys ∧ DistinctKeysInMembers ms
termination_by structural ms => ms

end

theorem distinctKeysInMembers_iff {ms : List (String × Json)} :
    DistinctKeysInMembers ms ↔ ∀ m ∈ ms, m.2.DistinctKeys := by
  induction ms with
  | nil => simp [DistinctKeysInMembers]
  | cons m ms ih => simp [DistinctKeysInMembers, ih]

end Json

end DocumentQuery
