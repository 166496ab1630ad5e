import DocumentQuery.Text.Lines
import Mathlib.Data.List.Infix

/-!
# Names in brackets

Names that stand in quotes and brackets one behind the other are not escaped. A name may hold
what closes its own brackets and opens others, and then reads like two. Read from left to right,
every such text is that of one list of names that hold nothing of the kind; no other list can be
told from it.

Main definitions:

* `Text.bracketed` — names as they are written.
* `Text.Seamless` — names that are read back, from left to right.
* `Text.parted` — the names between all seams of a text.

Main results:

* `Text.bracketed_eq_iff` — what is left of names in brackets.
* `Text.seamless_parted`, `Text.Seamless.eq_of_intercalate` — each text has seamless names, and
  no other ones.
-/

namespace DocumentQuery.Text

/-- What stands between two names in brackets. -/
def seam : List Char := ['"', ']', '[', '"']

/-- Names in quotes and brackets, one behind the other. -/
def bracketed (names : List (List Char)) : List Char :=
  names.flatMap fun name => '[' :: '"' :: (name ++ ['"', ']'])

/-- Between the first bracket and the last one there are the names and the seams. -/
theorem bracketed_cons (name : List Char) (names : List (List Char)) :
    bracketed (name :: names) =
      '[' :: '"' :: (seam.intercalate (name :: names) ++ ['"', ']']) := by
  induction names generalizing name with
  | nil => simp [bracketed]
  | cons next names ih =>
    have hRest := ih next
    rw [bracketed, List.flatMap_cons, ← bracketed, hRest, List.intercalate_cons_cons]
    simp [seam]

/-- Names in brackets are all the same once they are joined. -/
theorem bracketed_eq_iff {names names' : List (List Char)} :
    bracketed names = bracketed names' ↔
      (names = [] ↔ names' = []) ∧ seam.intercalate names = seam.intercalate names' := by
  cases names with
  | nil =>
    cases names' with
    | nil => simp
    | cons name' names' => simp [bracketed]
  | cons name names =>
    cases names' with
    | nil => simp [bracketed]
    | cons name' names' => simp [bracketed_cons]

/-! ## Seamless names -/

/-- No seam stands in the last name, and none in another name together with the quote behind it. -/
def Seamless : List (List Char) → Prop
  | [] => True
  | [name] => ¬ seam <:+: name
  | name :: next :: names => ¬ seam <:+: name ++ ['"'] ∧ Seamless (next :: names)

/-- There are two quotes in a seam. -/
theorem two_le_count_of_seam {cs : List Char} (h : seam <:+: cs) : 2 ≤ cs.count '"' :=
  h.sublist.count_le '"'

theorem seamless_of_no_quote {names : List (List Char)} (h : ∀ name ∈ names, '"' ∉ name) :
    Seamless names := by
  induction names with
  | nil => trivial
  | cons name names ih =>
    obtain ⟨hName, hNames⟩ := List.forall_mem_cons.mp h
    have hCount : name.count '"' = 0 := List.count_eq_zero.mpr hName
    cases names with
    | nil =>
      intro hSeam
      have hTwo := two_le_count_of_seam hSeam
      omega
    | cons next names =>
      refine ⟨fun hSeam => ?_, ih hNames⟩
      have hTwo := two_le_count_of_seam hSeam
      rw [List.count_append, hCount] at hTwo
      exact absurd hTwo (by decide)

/-- A name that goes on where another one ends holds a seam, alone or with the quote behind it. -/
theorem eq_nil_of_seam {name more rest rest' : List Char}
    (hName : ¬ seam <:+: name ++ more ++ ['"'])
    (h : seam ++ rest = more ++ (seam ++ rest')) : more = [] := by
  match more, hName, h with
  | [], _, _ => rfl
  | [_], _, h => cases h
  | [_, _], _, h => cases h
  | [_, _, _], hName, h =>
    simp only [seam, List.cons_append, List.nil_append, List.cons.injEq] at h
    obtain ⟨rfl, rfl, rfl, -⟩ := h
    -- the quote behind the name is the last character of the seam
    exact absurd ⟨name, [], by simp [seam]⟩ hName
  | _ :: _ :: _ :: _ :: more, hName, h =>
    simp only [seam, List.cons_append, List.nil_append, List.cons.injEq] at h
    obtain ⟨rfl, rfl, rfl, rfl, -⟩ := h
    exact absurd ⟨name, more ++ ['"'], by simp [seam]⟩ hName

/-- Seamless names are told from each other once they are joined. -/
theorem Seamless.eq_of_intercalate {names names' : List (List Char)} (h : Seamless names)
    (h' : Seamless names') (hNil : names = [] ↔ names' = [])
    (hEq : seam.intercalate names = seam.intercalate names') : names = names' := by
  induction names generalizing names' with
  | nil => exact (hNil.mp rfl).symm
  | cons name names ih =>
    match names, names', h, h', hEq with
    | _, [], _, _, _ => exact absurd (hNil.mpr rfl) (List.cons_ne_nil _ _)
    | [], [name'], _, _, hEq =>
      rw [List.intercalate_singleton, List.intercalate_singleton] at hEq
      rw [hEq]
    | [], name' :: next' :: names', h, _, hEq =>
      -- the one name would hold the first seam between the others
      rw [List.intercalate_singleton, List.intercalate_cons_cons] at hEq
      exact absurd ⟨name', _, hEq.symm⟩ h
    | next :: names, [name'], _, h', hEq =>
      rw [List.intercalate_singleton, List.intercalate_cons_cons] at hEq
      exact absurd ⟨name, _, hEq⟩ h'
    | next :: names, name' :: next' :: names', ⟨hName, hNames⟩, ⟨hName', hNames'⟩, hEq =>
      rw [List.intercalate_cons_cons, List.intercalate_cons_cons, List.append_assoc,
        List.append_assoc] at hEq
      rcases List.append_eq_append_iff.mp hEq with ⟨more, rfl, hMore⟩ | ⟨more, rfl, hMore⟩
      · obtain rfl := eq_nil_of_seam hName' hMore
        rw [List.append_nil, ih hNames hNames' (by simp) (List.append_cancel_left hMore)]
      · obtain rfl := eq_nil_of_seam hName hMore
        rw [List.append_nil, ih hNames hNames' (by simp) (List.append_cancel_left hMore).symm]

/-! ## The names between all seams -/

/-- The parts of a text between its seams, read from left to right. -/
def parted : List Char → List (List Char)
  | '"' :: ']' :: '[' :: '"' :: cs => [] :: parted cs
  | c :: cs => extendFirst c (parted cs)
  | [] => [[]]

theorem extendFirst_of_ne_nil {c : Char} {parts : List (List Char)} (h : parts ≠ []) :
    ∃ part rest, parts = part :: rest ∧ extendFirst c parts = (c :: part) :: rest := by
  cases parts with
  | nil => exact absurd rfl h
  | cons part rest => exact ⟨part, rest, rfl, rfl⟩

theorem parted_ne_nil (cs : List Char) : parted cs ≠ [] := by
  fun_induction parted cs with
  | case1 cs ih => exact List.cons_ne_nil _ _
  | case2 c cs hOther ih =>
    obtain ⟨part, rest, -, hParts⟩ := extendFirst_of_ne_nil (c := c) ih
    rw [hParts]
    exact List.cons_ne_nil _ _
  | case3 => exact List.cons_ne_nil _ _

theorem intercalate_parted (cs : List Char) : seam.intercalate (parted cs) = cs := by
  fun_induction parted cs with
  | case1 cs ih =>
    obtain ⟨part, rest, hParts, -⟩ := extendFirst_of_ne_nil (c := ' ') (parted_ne_nil cs)
    rw [hParts] at ih ⊢
    rw [List.intercalate_cons_cons, ih]
    rfl
  | case2 c cs hOther ih =>
    obtain ⟨part, rest, hParts, hExtended⟩ := extendFirst_of_ne_nil (c := c) (parted_ne_nil cs)
    rw [hExtended]
    rw [hParts] at ih
    cases rest with
    | nil =>
      rw [List.intercalate_singleton] at ih ⊢
      rw [ih]
    | cons next rest =>
      rw [List.intercalate_cons_cons] at ih ⊢
      rw [← ih]
      rfl
  | case3 => rfl

/-- Where the whole text does not begin with a seam, no beginning of it does. -/
theorem not_seam_of_cons {c : Char} {part cs : List Char}
    (hOther : ∀ rest, c = '"' → cs = ']' :: '[' :: '"' :: rest → False) (hPart : part <+: cs) :
    ¬ seam <+: c :: part := by
  rintro ⟨rest, hSeam⟩
  obtain ⟨rfl, rfl⟩ := List.cons.inj hSeam
  obtain ⟨behind, rfl⟩ := hPart
  exact hOther (rest ++ behind) rfl rfl

/-- What is between all seams holds none. -/
theorem seamless_parted (cs : List Char) : Seamless (parted cs) := by
  fun_induction parted cs with
  | case1 cs ih =>
    obtain ⟨part, rest, hParts, -⟩ := extendFirst_of_ne_nil (c := ' ') (parted_ne_nil cs)
    rw [hParts] at ih ⊢
    exact ⟨by decide, ih⟩
  | case2 c cs hOther ih =>
    obtain ⟨part, rest, hParts, hExtended⟩ := extendFirst_of_ne_nil (c := c) (parted_ne_nil cs)
    have hWhole := intercalate_parted cs
    rw [hParts] at ih hWhole
    rw [hExtended]
    cases rest with
    | nil =>
      rw [List.intercalate_singleton] at hWhole
      have hNone := not_seam_of_cons hOther ⟨[], (List.append_nil part).trans hWhole⟩
      exact fun hSeam => (List.infix_cons_iff.mp hSeam).elim hNone ih
    | cons next rest =>
      rw [List.intercalate_cons_cons] at hWhole
      have hQuote : part ++ ['"'] <+: cs := by
        refine ⟨[']', '[', '"'] ++ seam.intercalate (next :: rest), ?_⟩
        rw [← hWhole]
        simp [seam]
      have hNone := not_seam_of_cons hOther hQuote
      exact ⟨fun hSeam => (List.infix_cons_iff.mp hSeam).elim hNone ih.1, ih.2⟩
  | case3 => exact fun hSeam => absurd (two_le_count_of_seam hSeam) (by decide)

end DocumentQuery.Text
