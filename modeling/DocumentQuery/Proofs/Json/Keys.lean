import DocumentQuery.Json.Keys
import Mathlib.Tactic.Basic

/-!
# Entries in key order

Main results:

* `Keys.ascending_ofList` — ordered entries ascend by key.
* `Keys.mem_of_mem_ofList` — nothing is made up.
* `Keys.ofList_of_ascending`, `Keys.perm_ofList` — what is in order stays as it is, and
  nothing is lost where all keys differ.
* `Keys.ofList_eq_of_perm`, `Keys.ofList_injective` — what entries in key order tell of the
  entries.
-/

namespace DocumentQuery.Keys

variable {α β : Type} {key : String} {a : α} {entries : List (String × α)}

theorem mem_of_mem_insert {entry : String × α} (h : entry ∈ insert key a entries) :
    entry = (key, a) ∨ entry ∈ entries := by
  induction entries with
  | nil => exact Or.inl (List.mem_singleton.mp h)
  | cons first rest ih =>
    unfold insert at h
    split at h
    · exact List.mem_cons.mp h
    · split at h
      · rcases List.mem_cons.mp h with hNew | hRest
        · exact Or.inl hNew
        · exact Or.inr (List.mem_cons_of_mem _ hRest)
      · rcases List.mem_cons.mp h with hFirst | hRest
        · exact Or.inr (hFirst ▸ List.mem_cons_self)
        · rcases ih hRest with hNew | hOld
          · exact Or.inl hNew
          · exact Or.inr (List.mem_cons_of_mem _ hOld)

theorem ascending_insert (h : Ascending entries) : Ascending (insert key a entries) := by
  induction entries with
  | nil => exact List.pairwise_singleton _ _
  | cons first rest ih =>
    obtain ⟨k, b⟩ := first
    obtain ⟨hFirst, hRest⟩ := List.pairwise_cons.mp h
    unfold insert
    split
    · rename_i hLess
      refine List.pairwise_cons.mpr ⟨?_, h⟩
      intro entry hMem
      rcases List.mem_cons.mp hMem with hHead | hTail
      · exact hHead ▸ hLess
      · exact String.lt_trans hLess (hFirst entry hTail)
    · rename_i hNotLess
      split
      · rename_i hSame
        subst hSame
        exact List.pairwise_cons.mpr ⟨hFirst, hRest⟩
      · rename_i hNe
        have hGreater : k < key := Std.lt_of_le_of_ne hNotLess (Ne.symm hNe)
        refine List.pairwise_cons.mpr ⟨?_, ih hRest⟩
        intro entry hMem
        -- what stands behind the first is either new or stood there before
        rcases mem_of_mem_insert hMem with hNew | hOld
        · exact hNew ▸ hGreater
        · exact hFirst entry hOld

theorem foldl_insert (sorted : List (String × α)) (h : Ascending sorted) :
    Ascending (entries.foldl (fun sorted (key, a) => insert key a sorted) sorted) ∧
      ∀ entry ∈ entries.foldl (fun sorted (key, a) => insert key a sorted) sorted,
        entry ∈ sorted ∨ entry ∈ entries := by
  induction entries generalizing sorted with
  | nil => exact ⟨h, fun _ hMem => Or.inl hMem⟩
  | cons first rest ih =>
    obtain ⟨key, a⟩ := first
    -- the accumulator stays in order, and grows by given entries only
    obtain ⟨hAscending, hMem⟩ := ih (insert key a sorted) (ascending_insert h)
    refine ⟨hAscending, ?_⟩
    intro entry hEntry
    rcases hMem entry hEntry with hInserted | hRest
    · rcases mem_of_mem_insert hInserted with hNew | hOld
      · exact Or.inr (hNew ▸ List.mem_cons_self)
      · exact Or.inl hOld
    · exact Or.inr (List.mem_cons_of_mem _ hRest)

theorem ascending_ofList (entries : List (String × α)) : Ascending (ofList entries) :=
  (foldl_insert [] List.Pairwise.nil).1

theorem mem_of_mem_ofList {entry : String × α} (h : entry ∈ ofList entries) : entry ∈ entries := by
  rcases (foldl_insert [] List.Pairwise.nil).2 entry h with hNone | hMem
  · cases hNone
  · exact hMem

/-! ## Entries that are in order, or have different keys -/

/-- A greater key goes to the end. -/
theorem insert_of_greater (h : ∀ entry ∈ entries, entry.1 < key) :
    insert key a entries = entries ++ [(key, a)] := by
  induction entries with
  | nil => rfl
  | cons first rest ih =>
    obtain ⟨k, b⟩ := first
    obtain ⟨hFirst, hRest⟩ := List.forall_mem_cons.mp h
    have hLess : ¬ key < k := String.lt_asymm hFirst
    have hNe : key ≠ k := fun hEq => String.lt_irrefl k (hEq ▸ hFirst)
    rw [insert, if_neg hLess, if_neg hNe, ih hRest, List.cons_append]

/-- Entries in key order are left as they are. -/
theorem ofList_of_ascending (h : Ascending entries) : ofList entries = entries := by
  suffices hFold : ∀ sorted : List (String × α), Ascending (sorted ++ entries) →
      entries.foldl (fun sorted (key, a) => insert key a sorted) sorted = sorted ++ entries from
    hFold [] h
  clear h
  induction entries with
  | nil => exact fun sorted _ => (List.append_nil sorted).symm
  | cons first rest ih =>
    intro sorted h
    obtain ⟨key, a⟩ := first
    -- all that is sorted so far stands before the entry
    have hGreater : ∀ entry ∈ sorted, entry.1 < key := fun entry hEntry =>
      (List.pairwise_append.mp h).2.2 entry hEntry (key, a) List.mem_cons_self
    rw [List.append_cons] at h ⊢
    show List.foldl _ (insert key a sorted) rest = _
    rw [insert_of_greater hGreater]
    exact ih (sorted ++ [(key, a)]) h

theorem perm_insert (h : key ∉ entries.map Prod.fst) :
    (insert key a entries).Perm ((key, a) :: entries) := by
  induction entries with
  | nil => exact .refl _
  | cons first rest ih =>
    obtain ⟨k, b⟩ := first
    rw [List.map_cons, List.mem_cons, not_or] at h
    unfold insert
    split
    · exact .refl _
    · rw [if_neg h.1]
      exact ((ih h.2).cons _).trans (.swap _ _ _)

/-- Ordering entries with different keys only rearranges them. -/
theorem perm_ofList (h : (entries.map Prod.fst).Nodup) : (ofList entries).Perm entries := by
  suffices hFold : ∀ sorted : List (String × α), ((sorted ++ entries).map Prod.fst).Nodup →
      (entries.foldl (fun sorted (key, a) => insert key a sorted) sorted).Perm
        (sorted ++ entries) from hFold [] h
  clear h
  induction entries with
  | nil => exact fun sorted _ => by rw [List.append_nil]; exact .refl _
  | cons first rest ih =>
    intro sorted h
    have hMiddle : (sorted ++ first :: rest).Perm ((first :: sorted) ++ rest) := List.perm_middle
    have hNew : first.1 ∉ sorted.map Prod.fst := by
      have hNodup := (hMiddle.map Prod.fst).nodup_iff.mp h
      rw [List.cons_append, List.map_cons, List.nodup_cons, List.map_append, List.mem_append,
        not_or] at hNodup
      exact hNodup.1.1
    have hInsert : (insert first.1 first.2 sorted ++ rest).Perm (sorted ++ first :: rest) :=
      ((perm_insert hNew).append_right rest).trans hMiddle.symm
    exact (ih _ ((hInsert.map Prod.fst).nodup_iff.mpr h)).trans hInsert

theorem Ascending.nodup (h : Ascending entries) : (entries.map Prod.fst).Nodup :=
  List.pairwise_map.mpr (List.Pairwise.imp (fun hLess => String.ne_of_lt hLess) h)

/-- Lists in key order with the same entries are the same. -/
theorem Ascending.eq_of_perm {entries' : List (String × α)} (h : Ascending entries)
    (h' : Ascending entries') (hPerm : entries.Perm entries') : entries = entries' :=
  hPerm.eq_of_pairwise (fun _ _ _ _ hLess hGreater =>
    absurd (String.lt_trans hLess hGreater) (String.lt_irrefl _)) h h'

/-- The order of entries with different keys does not matter. -/
theorem ofList_eq_of_perm {entries' : List (String × α)} (hPerm : entries.Perm entries')
    (h : (entries.map Prod.fst).Nodup) : ofList entries = ofList entries' := by
  have h' : (entries'.map Prod.fst).Nodup := (hPerm.map Prod.fst).nodup_iff.mp h
  have hSorted := (perm_ofList h).trans (hPerm.trans (perm_ofList h').symm)
  exact (ascending_ofList entries).eq_of_perm (ascending_ofList entries') hSorted

theorem map_insert (f : α → β) (key : String) (a : α) (entries : List (String × α)) :
    (insert key a entries).map (fun e => (e.1, f e.2)) =
      insert key (f a) (entries.map fun e => (e.1, f e.2)) := by
  induction entries with
  | nil => rfl
  | cons entry rest ih =>
    obtain ⟨k, b⟩ := entry
    rw [insert, List.map_cons, insert]
    split
    · rfl
    · split
      · rfl
      · rw [List.map_cons, ih]

/-- Entries may be mapped before or after they are ordered. -/
theorem map_ofList (f : α → β) (entries : List (String × α)) :
    (ofList entries).map (fun e => (e.1, f e.2)) = ofList (entries.map fun e => (e.1, f e.2)) := by
  -- the induction is over the entries, from any start that has been mapped as well
  unfold ofList
  generalize hStart : ([] : List (String × α)) = start
  have hStart' : ([] : List (String × β)) = start.map fun e => (e.1, f e.2) := by
    rw [← hStart]
    rfl
  rw [hStart']
  clear hStart hStart'
  induction entries generalizing start with
  | nil => rfl
  | cons entry rest ih => rw [List.foldl_cons, ih, map_insert]; rfl

theorem ofList_ofList (entries : List (String × α)) : ofList (ofList entries) = ofList entries :=
  ofList_of_ascending (ascending_ofList entries)

theorem eq_of_subset {entries' : List (String × α)}
    (hKeys : entries.map Prod.fst = entries'.map Prod.fst) (h : (entries.map Prod.fst).Nodup)
    (hSubset : entries ⊆ entries') : entries = entries' := by
  induction entries generalizing entries' with
  | nil =>
    cases entries' with
    | nil => rfl
    | cons => cases hKeys
  | cons entry rest ih =>
    cases entries' with
    | nil => cases hKeys
    | cons entry' rest' =>
      obtain ⟨hKey, hRestKeys⟩ := List.cons.inj hKeys
      obtain ⟨hNew, hRest⟩ := List.nodup_cons.mp h
      -- an entry of one list stands in the other under its own key
      have hFirst : entry = entry' := by
        rcases List.mem_cons.mp (hSubset List.mem_cons_self) with hEq | hLater
        · exact hEq
        · refine absurd ?_ hNew
          show entry.1 ∈ rest.map Prod.fst
          have hMem := List.mem_map_of_mem (f := Prod.fst) hLater
          exact hRestKeys ▸ hMem
      subst hFirst
      refine congrArg (entry :: ·) (ih hRestKeys hRest fun e he => ?_)
      rcases List.mem_cons.mp (hSubset (List.mem_cons_of_mem _ he)) with rfl | hLater
      · exact absurd (List.mem_map_of_mem he) hNew
      · exact hLater

/-- Entries under the same keys can be told from what they are in key order. -/
theorem ofList_injective {entries' : List (String × α)}
    (hKeys : entries.map Prod.fst = entries'.map Prod.fst) (h : (entries.map Prod.fst).Nodup)
    (hEq : ofList entries = ofList entries') : entries = entries' := by
  refine eq_of_subset hKeys h fun entry hEntry => ?_
  have hMem := (perm_ofList h).symm.subset hEntry
  exact mem_of_mem_ofList (hEq ▸ hMem)

end DocumentQuery.Keys
