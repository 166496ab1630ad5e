import DocumentQuery.Proofs.Outcome
import DocumentQuery.Text.Template

/-!
# The places of a template

Whether a template can be filled depends on the numbers of its places and on how many
substitutions there are, not on the substitutions themselves.

Main results:

* `Template.places` — the numbers of the places in a template.
* `Template.fill_ok_iff` — when a template can be filled.
* `Template.fill_matches` — as many substitutions fill a template, or fail at the same place.
-/

namespace DocumentQuery.Template

/-- The numbers of the places after `skip` characters that an earlier mark accounts
for. -/
def placesFrom : Nat → List Char → List Nat
  | _, [] => []
  | skip + 1, _ :: cs => placesFrom skip cs
  | 0, c :: cs =>
    match markAt c cs with
    | .literal _ extra => placesFrom extra cs
    | .place index extra => index :: placesFrom extra cs

/-- The numbers of the places in a template, from left to right. -/
def places (template : String) : List Nat := placesFrom 0 template.toList

theorem fillFrom_ok_iff (substitutions : List String) (skip : Nat) (cs : List Char) :
    (∃ r, fillFrom substitutions skip cs = .ok r) ↔
      ∀ index ∈ placesFrom skip cs, index < substitutions.length := by
  induction cs generalizing skip with
  | nil => cases skip <;> simp [fillFrom, placesFrom]
  | cons c cs ih =>
    cases skip with
    | succ skip => exact ih skip
    | zero =>
      rw [fillFrom, placesFrom]
      cases markAt c cs with
      | literal c' extra => exact (exists_map_eq_ok _).trans (ih extra)
      | place index extra =>
        -- filling goes on behind the place if there is a substitution for it
        rw [List.forall_mem_cons, ← ih extra]
        cases hPlace : substitutions[index]? with
        | none =>
          simp only [hPlace]
          rw [List.getElem?_eq_none_iff] at hPlace
          refine iff_of_false (by simp) fun h => ?_
          omega
        | some s =>
          simp only [hPlace]
          have hIndex := (List.getElem?_eq_some_iff.mp hPlace).1
          exact (exists_map_eq_ok _).trans (and_iff_right hIndex).symm

/-- A template can be filled exactly if there is a substitution for each of its
places. -/
theorem fill_ok_iff {template : String} {substitutions : List String} :
    (∃ text, fill template substitutions = .ok text) ↔
      ∀ index ∈ places template, index < substitutions.length :=
  (exists_map_eq_ok _).trans (fillFrom_ok_iff substitutions 0 template.toList)

theorem fillFrom_matches {substitutions substitutions' : List String}
    (hLength : substitutions.length = substitutions'.length) (skip : Nat) (cs : List Char) :
    Matches (fun _ _ => True) (fillFrom substitutions skip cs)
      (fillFrom substitutions' skip cs) := by
  induction cs generalizing skip with
  | nil => cases skip <;> exact .ok trivial
  | cons c cs ih =>
    cases skip with
    | succ skip => exact ih skip
    | zero =>
      rw [fillFrom, fillFrom]
      cases markAt c cs with
      | literal c' extra => exact (ih extra).map fun _ _ _ => trivial
      | place index extra =>
        -- the place has a substitution in both lists or in neither
        by_cases hIndex : index < substitutions.length
        · have hPlace := List.getElem?_eq_getElem hIndex
          have hPlace' := List.getElem?_eq_getElem (hLength ▸ hIndex)
          simp only [hPlace, hPlace']
          exact (ih extra).map fun _ _ _ => trivial
        · have hPlace : substitutions[index]? = none := by
            rw [List.getElem?_eq_none_iff]
            omega
          have hPlace' : substitutions'[index]? = none := by
            rw [List.getElem?_eq_none_iff]
            omega
          simp only [hPlace, hPlace', hLength]
          exact .error _

/-- As many substitutions fill a template as well, or fail at the same place. -/
theorem fill_matches {substitutions substitutions' : List String}
    (hLength : substitutions.length = substitutions'.length) (template : String) :
    Matches (fun _ _ => True) (fill template substitutions) (fill template substitutions') :=
  (fillFrom_matches hLength 0 template.toList).map fun _ _ _ => trivial

end DocumentQuery.Template
