import DocumentQuery.Proofs.Number.Digits
import DocumentQuery.Query.Bindings
import Mathlib.Data.List.Dedup
import Mathlib.Order.Bounds.Defs

/-!
# Names for the arguments of raw fragments

The arguments of raw fragments go by `p0`, `p1`, …, names that are bound or
supplied being passed over. The search looks at a bounded number of candidates;
the bound is never reached, since every bound parameter and every supplied value
takes at most one candidate. So the search is no different from one that goes on
until a candidate is free.

Main definitions:

* `suppliedNames` — the names that values are supplied for.
* `Bindings.Search` — the search as a loop without a bound.

Main results:

* `argumentName_injective`, `referenceTo_injective` — different numbers make
  different names.
* `Bindings.freeIndex_free`, `Bindings.taken_of_lt_freeIndex` — the search finds
  the least free number.
* `Bindings.freeIndex_congr` — it depends on nothing but which names are taken.
* `Bindings.search_iff` — the loop ends, and it ends where the bounded search does.
* `Bindings.bindArgument_least_free` — the name of an argument and what is left
  behind.
-/

namespace DocumentQuery

theorem referenceTo_injective {name name' : String} (h : referenceTo name = referenceTo name') :
    name = name' := by
  unfold referenceTo at h
  exact String.append_right_inj "@" |>.mp h

@[simp] theorem referenceTo_inj {name name' : String} :
    referenceTo name = referenceTo name' ↔ name = name' :=
  ⟨referenceTo_injective, congrArg referenceTo⟩

/-- The names that values are supplied for, each of them once. -/
def suppliedNames (values : ParameterValues) : List String := (values.map Prod.fst).dedup

theorem mem_suppliedNames_iff {values : ParameterValues} {name : String} :
    name ∈ suppliedNames values ↔ (values.lookup name).isSome = true := by
  rw [suppliedNames, List.mem_dedup, List.mem_map, List.lookup_isSome_iff]
  exact exists_congr fun _ => and_congr_right fun _ => eq_comm.trans beq_iff_eq.symm

theorem length_suppliedNames_le (values : ParameterValues) :
    (suppliedNames values).length ≤ values.length := by
  have hLength := (List.dedup_sublist (values.map Prod.fst)).length_le
  rwa [List.length_map] at hLength

namespace Bindings

theorem argumentName_injective {m n : Nat} (h : argumentName m = argumentName n) : m = n := by
  unfold argumentName at h
  have hRepr : m.repr = n.repr := String.append_right_inj "p" |>.mp h
  exact Digits.write_injective (congrArg String.toList hRepr)

/-! ## The bounded search -/

theorem le_leastFree (taken : Nat → Bool) (steps n : Nat) : n ≤ leastFree taken steps n := by
  induction steps generalizing n with
  | zero => exact Nat.le_refl n
  | succ steps ih =>
    unfold leastFree
    split
    · have := ih (n + 1)
      omega
    · exact Nat.le_refl n

/-- Every number that is passed over is taken. -/
theorem taken_of_lt_leastFree {taken : Nat → Bool} {steps n i : Nat} (hn : n ≤ i)
    (hi : i < leastFree taken steps n) : taken i = true := by
  induction steps generalizing n with
  | zero =>
    unfold leastFree at hi
    omega
  | succ steps ih =>
    unfold leastFree at hi
    split at hi
    next hTaken =>
      -- either `i` is the candidate that was just passed over, or it lies behind it
      rcases Nat.eq_or_lt_of_le hn with rfl | hlt
      · exact hTaken
      · exact ih hlt hi
    next => omega

/-- The search ends at a free number if it can reach one. -/
theorem leastFree_free {taken : Nat → Bool} {steps n i : Nat} (hn : n ≤ i) (hi : i ≤ n + steps)
    (hFree : taken i = false) : taken (leastFree taken steps n) = false := by
  induction steps generalizing n with
  | zero =>
    have hEq : n = i := by omega
    rw [leastFree, hEq]
    exact hFree
  | succ steps ih =>
    unfold leastFree
    split
    next hTaken =>
      -- the free `i` cannot be the candidate at hand, so the remaining steps still reach it
      have hNe : n ≠ i := by
        rintro rfl
        rw [hFree] at hTaken
        cases hTaken
      exact ih (by omega) (by omega)
    next hTaken => simpa using hTaken

/-! ## Taken names -/

theorem isBound_iff {b : Bindings} {reference : String} :
    b.isBound reference = true ↔ ∃ p ∈ b.parameters, p.name = reference := by
  simp [isBound]

theorem isTaken_iff {b : Bindings} {values : ParameterValues} {n : Nat} :
    b.isTaken values n = true ↔
      b.isBound (referenceTo (argumentName n)) = true ∨
        (values.lookup (argumentName n)).isSome = true := by
  simp [isTaken]

/-- A taken number stands for a name that is bound or supplied. -/
theorem reference_mem_of_taken {b : Bindings} {values : ParameterValues} {n : Nat}
    (h : b.isTaken values n = true) :
    referenceTo (argumentName n) ∈
      b.parameters.map Parameter.name ++ (suppliedNames values).map referenceTo := by
  rw [isTaken_iff, isBound_iff] at h
  rw [List.mem_append]
  rcases h with ⟨p, hp, hName⟩ | hSupplied
  · exact Or.inl (List.mem_map.mpr ⟨p, hp, hName⟩)
  · exact Or.inr (List.mem_map_of_mem (mem_suppliedNames_iff.mpr hSupplied))

/-- Among as many candidates as there are names, and one more, one is free. -/
theorem exists_free (b : Bindings) (values : ParameterValues) (n : Nat) :
    ∃ i, n ≤ i ∧ i ≤ n + (b.parameters.length + (suppliedNames values).length) ∧
      b.isTaken values i = false := by
  -- otherwise these candidates are different names that are all bound or supplied, one more
  -- than there are such names
  by_contra hNone
  have hTaken : ∀ i, n ≤ i → i ≤ n + (b.parameters.length + (suppliedNames values).length) →
      b.isTaken values i = true := by
    intro i hn hi
    by_contra hFree
    exact hNone ⟨i, hn, hi, by simpa using hFree⟩
  let candidates :=
    (List.range' n (b.parameters.length + (suppliedNames values).length + 1)).map fun i =>
      referenceTo (argumentName i)
  have hNodup : candidates.Nodup :=
    List.Nodup.map (fun _ _ h => argumentName_injective (referenceTo_injective h))
      (List.nodup_range' ..)
  have hSubset : candidates ⊆
      b.parameters.map Parameter.name ++ (suppliedNames values).map referenceTo := by
    intro reference hMem
    obtain ⟨i, hi, rfl⟩ := List.mem_map.mp hMem
    rw [List.mem_range'_1] at hi
    exact reference_mem_of_taken (hTaken i hi.1 (by omega))
  have hLength := hNodup.length_le_of_subset hSubset
  simp only [candidates, List.length_map, List.length_range', List.length_append] at hLength
  omega

/-! ## The least free number -/

theorem next_le_freeIndex (b : Bindings) (values : ParameterValues) :
    b.next ≤ b.freeIndex values :=
  le_leastFree ..

theorem freeIndex_free (b : Bindings) (values : ParameterValues) :
    b.isTaken values (b.freeIndex values) = false := by
  obtain ⟨i, hn, hi, hFree⟩ := b.exists_free values b.next
  have hLength := length_suppliedNames_le values
  exact leastFree_free hn (by omega) hFree

theorem taken_of_lt_freeIndex {b : Bindings} {values : ParameterValues} {i : Nat}
    (hn : b.next ≤ i) (hi : i < b.freeIndex values) : b.isTaken values i = true :=
  taken_of_lt_leastFree hn hi

/-- No free number is passed over. -/
theorem freeIndex_le {b : Bindings} {values : ParameterValues} {i : Nat} (hn : b.next ≤ i)
    (hFree : b.isTaken values i = false) : b.freeIndex values ≤ i := by
  by_contra hlt
  have hTaken := taken_of_lt_freeIndex hn (by omega : i < b.freeIndex values)
  rw [hFree] at hTaken
  cases hTaken

/-- Every bound parameter and every supplied value makes the search pass over one number
at most. -/
theorem freeIndex_le_add (b : Bindings) (values : ParameterValues) :
    b.freeIndex values ≤ b.next + b.parameters.length + (suppliedNames values).length := by
  obtain ⟨i, hn, hi, hFree⟩ := b.exists_free values b.next
  have hLeast := freeIndex_le hn hFree
  omega

theorem freeIndex_congr {b b' : Bindings} {values values' : ParameterValues}
    (hNext : b.next = b'.next) (hTaken : ∀ n, b.isTaken values n = b'.isTaken values' n) :
    b.freeIndex values = b'.freeIndex values' := by
  -- each of the two is free for the other, and neither search passes over a free number
  apply Nat.le_antisymm
  · refine freeIndex_le (hNext ▸ next_le_freeIndex b' values') ?_
    rw [hTaken]
    exact freeIndex_free b' values'
  · refine freeIndex_le (hNext ▸ next_le_freeIndex b values) ?_
    rw [← hTaken]
    exact freeIndex_free b values

/-! ## The search as a loop -/

/-- The search as a loop: the name of the counter is taken up and the counter moved on, until
a name is free. Given are the counter before the search, the reference that it ends with, and
the counter behind it. -/
inductive Search (b : Bindings) (values : ParameterValues) : Nat → String → Nat → Prop where
  | found {n : Nat} (hFree : b.isTaken values n = false) :
      Search b values n (referenceTo (argumentName n)) (n + 1)
  | passed {n next : Nat} {reference : String} (hTaken : b.isTaken values n = true)
      (hRest : Search b values (n + 1) reference next) : Search b values n reference next

variable {b : Bindings} {values : ParameterValues}

/-- From one counter the loop cannot end in two ways. -/
theorem Search.unique {n next next' : Nat} {reference reference' : String}
    (h : b.Search values n reference next) (h' : b.Search values n reference' next') :
    reference = reference' ∧ next = next' := by
  -- both loops look at the same candidates, and a candidate that ends one of them is not passed
  -- over by the other
  induction h with
  | found hFree =>
    cases h' with
    | found => exact ⟨rfl, rfl⟩
    | passed hTaken => exact absurd (hFree.symm.trans hTaken) Bool.false_ne_true
  | passed hTaken _ ih =>
    cases h' with
    | found hFree => exact absurd (hFree.symm.trans hTaken) Bool.false_ne_true
    | passed _ hRest => exact ih hRest

/-- The loop comes to a free number if it has to pass over all numbers before it. -/
theorem search_of_free {n m : Nat} (hn : n ≤ m)
    (hTaken : ∀ i, n ≤ i → i < m → b.isTaken values i = true) (hFree : b.isTaken values m = false) :
    b.Search values n (referenceTo (argumentName m)) (m + 1) := by
  obtain ⟨passed, rfl⟩ := Nat.exists_eq_add_of_le hn
  -- induction on how many numbers are passed over
  induction passed generalizing n with
  | zero => exact .found hFree
  | succ passed ih =>
    have hShift : n + (passed + 1) = n + 1 + passed := by omega
    rw [hShift] at hTaken hFree ⊢
    refine .passed (hTaken n (by omega) (by omega)) ?_
    exact ih (by omega) (fun i hi => hTaken i (by omega)) hFree

/-- The loop ends, and where it ends the bounded search does. -/
theorem search_iff (b : Bindings) (values : ParameterValues) {reference : String} {next : Nat} :
    b.Search values b.next reference next ↔
      reference = referenceTo (argumentName (b.freeIndex values)) ∧
        next = b.freeIndex values + 1 := by
  have hSearch : b.Search values b.next (referenceTo (argumentName (b.freeIndex values)))
      (b.freeIndex values + 1) :=
    search_of_free (b.next_le_freeIndex values) (fun _ hn hi => taken_of_lt_freeIndex hn hi)
      (b.freeIndex_free values)
  constructor
  · intro h
    exact h.unique hSearch
  · rintro ⟨rfl, rfl⟩
    exact hSearch

/-! ## The name of an argument -/

theorem referenceTo_argumentName (n : Nat) :
    referenceTo (argumentName n) = "@p" ++ toString n := by
  unfold referenceTo argumentName
  rw [← String.append_assoc]
  rfl

/-- A number is free if neither the reference is bound nor a value supplied for the name. -/
theorem isTaken_eq_false_iff {n : Nat} :
    b.isTaken values n = false ↔
      "@p" ++ toString n ∉ b.parameters.map Parameter.name ∧
        "p" ++ toString n ∉ suppliedNames values := by
  rw [← Bool.not_eq_true, isTaken_iff, not_or, isBound_iff, ← mem_suppliedNames_iff,
    referenceTo_argumentName, List.mem_map]
  rfl

theorem isLeast_freeIndex (b : Bindings) (values : ParameterValues) :
    IsLeast {n | b.next ≤ n ∧ b.isTaken values n = false} (b.freeIndex values) :=
  ⟨⟨b.next_le_freeIndex values, b.freeIndex_free values⟩, fun _ h => freeIndex_le h.1 h.2⟩

/-- **An argument goes by the least free number.** Whatever is bound and supplied, and
wherever the counter stands, the search for a name ends: it gives `@pN` for the least number
`N` from the counter on such that `@pN` is not bound and no value is supplied for `pN`, and
leaves the counter behind `N`. It passes over no more numbers than there are bound parameters
and supplied values. This is the name that the argument is bound under. -/
theorem bindArgument_least_free (b : Bindings) (values : ParameterValues) (value : Value) :
    ∃ n, IsLeast {i | b.next ≤ i ∧ "@p" ++ toString i ∉ b.parameters.map Parameter.name ∧
          "p" ++ toString i ∉ suppliedNames values} n ∧
      n ≤ b.next + b.parameters.length + (suppliedNames values).length ∧
      (∀ reference next, b.Search values b.next reference next ↔
        reference = "@p" ++ toString n ∧ next = n + 1) ∧
      b.bindArgument values value = ("@p" ++ toString n,
        { parameters := b.parameters ++ [⟨"@p" ++ toString n, value.toJson.sortKeys⟩]
          next := n + 1 }) := by
  -- the bounded search finds the number; what is left is to spell out its name
  refine ⟨b.freeIndex values, ?_, b.freeIndex_le_add values, ?_, ?_⟩
  · simp only [← isTaken_eq_false_iff]
    exact b.isLeast_freeIndex values
  · intro reference next
    rw [search_iff, referenceTo_argumentName]
  · rw [← referenceTo_argumentName]
    rfl

/-- Whatever is bound and supplied stands in the way: the search cannot pass over more. -/
example : (Bindings.bindArgument ⟨[⟨"@p7", .null⟩, ⟨"@p5", .null⟩], 5⟩
    [("p6", .null)] (.int 1)).1 = "@p8" := by decide

end Bindings

end DocumentQuery
