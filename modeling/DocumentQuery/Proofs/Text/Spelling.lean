import DocumentQuery.Proofs.Json.Reader
import DocumentQuery.Proofs.Outcome
import DocumentQuery.Text.Template

/-!
# Templates as they are spelled

A template is meant as a list of literals and places. It is spelled by doubling the braces of
the literals and putting the digits of a place in braces. Where a literal ends or begins with
braces, runs of braces come about in which those of a place have to be told from those that
are doubled.

The number of a place may be spelled with any digits, but it is a machine word: digits that
denote a number of 2^64 or more are no place, and stay in the text together with their
braces.

Main definitions:

* `Template.Item`, `Template.spell` — a template item by item, and its raw text.
* `Template.Item.filled` — what becomes of one item.

Main results:

* `Template.fill_spell` — a raw text is filled item by item.
* `Template.fill_spell_ok` — where there is a substitution for each place, the literals and
  the substitutions are put together, and nothing else is done to them.
-/

namespace DocumentQuery.Template

/-! ## Items -/

/-- A place as it is spelled: digits, at least one. -/
structure Place where
  digits : List Char
  digits_ne_nil : digits ≠ []
  allDigits : AllDigits digits

namespace Place

/-- The number that the digits denote; zeros may lead. -/
def number (p : Place) : Nat := Digits.value p.digits

def spelled (p : Place) : List Char := '{' :: (p.digits ++ ['}'])

end Place

/-- What a template consists of. -/
inductive Item where
  | literal (text : String)
  | place (p : Place)

/-- A character of a literal; braces are doubled. -/
def doubled (c : Char) : List Char := if c = '{' ∨ c = '}' then [c, c] else [c]

namespace Item

def spelled : Item → List Char
  | .literal text => text.toList.flatMap doubled
  | .place p => p.spelled

/-- What becomes of an item. A number that is no machine word makes no place. -/
def filled (substitutions : List String) : Item → Except OutOfRange String
  | .literal text => .ok text
  | .place p =>
    if p.number < twoTo 64 then
      match substitutions[p.number]? with
      | some s => .ok s
      | none => .error ⟨p.number, substitutions.length⟩
    else .ok (String.ofList p.spelled)

/-- What an item stands for. A place without a substitution stands for what it is spelled
with. -/
def meant (substitutions : List String) : Item → String
  | .literal text => text
  | .place p => substitutions.getD p.number (String.ofList p.spelled)

end Item

/-- The raw text of a template. -/
def spell (items : List Item) : String := String.ofList (items.flatMap Item.spelled)

/-! ## Marks in front of a text -/

variable {substitutions : List String} {rest : List Char}

/-- A doubled brace stands for one. -/
theorem markAt_doubled {c : Char} (h : c = '{' ∨ c = '}') (rest : List Char) :
    markAt c (c :: rest) = .literal c 1 :=
  if_pos ⟨h, rfl⟩

/-- What is no brace stands for itself, whatever follows. -/
theorem markAt_plain {c : Char} (h : ¬(c = '{' ∨ c = '}')) (rest : List Char) :
    markAt c rest = .literal c 0 := by
  rw [not_or] at h
  simp only [markAt, h.1, h.2, or_self, false_and, if_false]

/-- A closing brace that no other one follows stands for itself. -/
theorem markAt_closing (h : rest.head? ≠ some '}') : markAt '}' rest = .literal '}' 0 := by
  unfold markAt
  rw [if_neg (fun hDoubled => h hDoubled.2), if_neg (by decide)]

/-- The digits of a place end at its closing brace. -/
theorem span_spelled (p : Place) (rest : List Char) :
    Digits.span (p.digits ++ '}' :: rest) = (p.digits, '}' :: rest) := by
  refine Digits.span_append p.allDigits ?_
  rintro c ⟨⟩
  rfl

theorem word?_digits (p : Place) :
    Digits.word? p.digits = if p.number < twoTo 64 then some p.number else none := by
  have hAll : p.digits.all Char.isDigit = true := List.all_eq_true.mpr p.allDigits
  unfold Digits.word?
  by_cases hWord : p.number < twoTo 64
  · rw [if_pos ⟨p.digits_ne_nil, hAll, hWord⟩, if_pos hWord]
    rfl
  · rw [if_neg (fun h => hWord h.2.2), if_neg hWord]

/-- The opening brace of a place is not doubled, as a digit follows. -/
theorem markAt_place (p : Place) (rest : List Char) :
    markAt '{' (p.digits ++ '}' :: rest) =
      if p.number < twoTo 64 then .place p.number (p.digits.length + 1) else .literal '{' 0 := by
  have hSingle : (p.digits ++ '}' :: rest).head? ≠ some '{' := by
    obtain ⟨c, cs, hDigits⟩ := List.exists_cons_of_ne_nil p.digits_ne_nil
    have hDigit := p.allDigits c (hDigits ▸ List.mem_cons_self)
    rw [hDigits, List.cons_append, List.head?_cons, ne_eq, Option.some.injEq]
    rintro rfl
    cases hDigit
  unfold markAt place?
  rw [if_neg (fun h => hSingle h.2), if_pos rfl, span_spelled]
  by_cases hWord : p.number < twoTo 64
  · simp only [word?_digits, if_pos hWord, Option.map_some]
  · simp only [word?_digits, if_neg hWord, Option.map_none]

/-! ## Filling piece by piece -/

/-- The characters that belong to a mark are passed over. -/
theorem fillFrom_length_append (skipped rest : List Char) :
    fillFrom substitutions skipped.length (skipped ++ rest) =
      fillFrom substitutions 0 rest := by
  induction skipped with
  | nil => rfl
  | cons c skipped ih => exact ih

/-- Puts a text in front of what is filled. -/
theorem map_append_append (r : Except OutOfRange (List Char)) (front text : List Char) :
    (r.map (text ++ ·)).map (front ++ ·) = r.map (front ++ text ++ ·) := by
  cases r with
  | error e => rfl
  | ok cs => exact congrArg Except.ok (List.append_assoc ..).symm

theorem fillFrom_plain {c : Char} (h : ¬(c = '{' ∨ c = '}')) (rest : List Char) :
    fillFrom substitutions 0 (c :: rest) = (fillFrom substitutions 0 rest).map (c :: ·) := by
  rw [fillFrom, markAt_plain h]

theorem fillFrom_doubled (c : Char) (rest : List Char) :
    fillFrom substitutions 0 (doubled c ++ rest) =
      (fillFrom substitutions 0 rest).map (c :: ·) := by
  unfold doubled
  split
  · rename_i hBrace
    rw [List.cons_append, fillFrom, List.singleton_append, markAt_doubled hBrace]
    rfl
  · rename_i hPlain
    exact fillFrom_plain hPlain rest

theorem fillFrom_flatMap_doubled (text rest : List Char) :
    fillFrom substitutions 0 (text.flatMap doubled ++ rest) =
      (fillFrom substitutions 0 rest).map (text ++ ·) := by
  induction text with
  | nil => exact (congrFun Except.map_id (fillFrom substitutions 0 rest)).symm
  | cons c text ih =>
    rw [List.flatMap_cons, List.append_assoc, fillFrom_doubled, ih]
    exact map_append_append _ [c] text

/-- Digits stand for themselves. -/
theorem fillFrom_digits {digits : List Char} (h : AllDigits digits) (rest : List Char) :
    fillFrom substitutions 0 (digits ++ rest) =
      (fillFrom substitutions 0 rest).map (digits ++ ·) := by
  have hNoBrace : ∀ c ∈ digits, doubled c = [c] := by
    intro c hc
    refine if_neg ?_
    rintro (rfl | rfl) <;> cases h _ hc
  have hSpelled : digits.flatMap doubled = digits := by
    rw [List.flatMap_congr hNoBrace]
    simp
  rw [← fillFrom_flatMap_doubled digits rest, hSpelled]

/-! ### Braces that are left over -/

/-- A closing brace in front of the text stands for itself, although closing braces may
follow it. -/
def ClosesApart (substitutions : List String) (rest : List Char) : Prop :=
  fillFrom substitutions 0 ('}' :: rest) = (fillFrom substitutions 0 rest).map ('}' :: ·)

theorem closesApart_of_head (h : rest.head? ≠ some '}') : ClosesApart substitutions rest := by
  unfold ClosesApart
  rw [fillFrom, markAt_closing h]

/-- Of an odd number of closing braces it does not matter which one is left over. -/
theorem ClosesApart.doubled_append (h : ClosesApart substitutions rest) (c : Char) :
    ClosesApart substitutions (doubled c ++ rest) := by
  by_cases hClosing : c = '}'
  · subst hClosing
    have hFront : fillFrom substitutions 0 ('}' :: (doubled '}' ++ rest)) =
        (fillFrom substitutions 0 ('}' :: rest)).map ('}' :: ·) :=
      fillFrom_doubled '}' ('}' :: rest)
    unfold ClosesApart
    rw [hFront, fillFrom_doubled, h]
  · refine closesApart_of_head ?_
    unfold doubled
    split <;> simpa using hClosing

theorem closesApart_items (items : List Item) :
    ClosesApart substitutions (items.flatMap Item.spelled) := by
  induction items with
  | nil => exact closesApart_of_head nofun
  | cons item items ih =>
    rw [List.flatMap_cons]
    cases item with
    | place p => exact closesApart_of_head (by simp [Item.spelled, Place.spelled])
    | literal text =>
      rw [Item.spelled]
      induction text.toList with
      | nil => exact ih
      | cons c text ihText =>
        rw [List.flatMap_cons, List.append_assoc]
        exact ihText.doubled_append c

/-! ## Whole templates -/

theorem fillFrom_spelled (item : Item) (items : List Item) :
    fillFrom substitutions 0 (item.spelled ++ items.flatMap Item.spelled) =
      item.filled substitutions >>= fun text =>
        (fillFrom substitutions 0 (items.flatMap Item.spelled)).map (text.toList ++ ·) := by
  cases item with
  | literal text => exact fillFrom_flatMap_doubled text.toList _
  | place p =>
    have hSpelled : (Item.place p).spelled ++ items.flatMap Item.spelled =
        '{' :: (p.digits ++ '}' :: items.flatMap Item.spelled) := by
      simp [Item.spelled, Place.spelled]
    rw [hSpelled, fillFrom, markAt_place, Item.filled]
    by_cases hWord : p.number < twoTo 64
    · simp only [if_pos hWord]
      cases substitutions[p.number]? with
      | none => rfl
      | some s =>
        -- the digits and the closing brace belong to the mark
        have hSkip : fillFrom substitutions (p.digits.length + 1)
            (p.digits ++ '}' :: items.flatMap Item.spelled) =
            fillFrom substitutions 0 (items.flatMap Item.spelled) := by
          rw [List.append_cons, ← fillFrom_length_append (p.digits ++ ['}']), List.length_append]
          rfl
        exact congrArg (Except.map (s.toList ++ ·)) hSkip
    · -- all characters of the place stand for themselves
      have hClosing : fillFrom substitutions 0 ('}' :: items.flatMap Item.spelled) =
          (fillFrom substitutions 0 (items.flatMap Item.spelled)).map (['}'] ++ ·) :=
        closesApart_items items
      have hAll := map_append_append (fillFrom substitutions 0 (items.flatMap Item.spelled))
        ['{'] (p.digits ++ ['}'])
      rw [← map_append_append _ p.digits ['}'], ← hClosing, ← fillFrom_digits p.allDigits] at hAll
      simp only [if_neg hWord, ok_bind, String.toList_ofList]
      exact hAll

/-- A raw text is filled item by item, from left to right. -/
theorem fill_spell (items : List Item) (substitutions : List String) :
    fill (spell items) substitutions =
      (items.mapM (Item.filled substitutions)).map String.join := by
  have hItems : fillFrom substitutions 0 (items.flatMap Item.spelled) =
      (items.mapM (Item.filled substitutions)).map fun texts =>
        texts.flatMap String.toList := by
    induction items with
    | nil => rfl
    | cons item items ih =>
      rw [List.flatMap_cons, fillFrom_spelled, List.mapM_cons, ih]
      cases item.filled substitutions with
      | error e => rfl
      | ok text => cases items.mapM (Item.filled substitutions) <;> rfl
  unfold fill spell
  rw [String.toList_ofList, hItems]
  cases items.mapM (Item.filled substitutions) with
  | error e => rfl
  | ok texts =>
    refine congrArg Except.ok (String.toList_injective ?_)
    rw [String.toList_ofList, String.toList_join]

/-! ## Places without a substitution -/

/-- The number of some place is a machine word, but not below the number of
substitutions. -/
def Unfilled (count : Nat) (items : List Item) : Prop :=
  ∃ p, .place p ∈ items ∧ count ≤ p.number ∧ p.number < twoTo 64

namespace Item

/-- An item is refused if it is a place without a substitution. -/
theorem filled_eq_error {item : Item} {e : OutOfRange} :
    item.filled substitutions = .error e ↔
      ∃ p, item = .place p ∧ substitutions.length ≤ p.number ∧ p.number < twoTo 64 ∧
        e = ⟨p.number, substitutions.length⟩ := by
  cases item with
  | literal text => exact ⟨nofun, nofun⟩
  | place p =>
    rw [filled]
    constructor
    · intro h
      split at h
      · rename_i hWord
        split at h
        · cases h
        · rename_i hNone
          rw [List.getElem?_eq_none_iff] at hNone
          exact ⟨p, rfl, hNone, hWord, (Except.error.inj h).symm⟩
      · cases h
    · rintro ⟨p', hPlace, hCount, hWord, rfl⟩
      obtain rfl := Item.place.inj hPlace
      rw [if_pos hWord, List.getElem?_eq_none hCount]

/-- Any other item becomes what it stands for, provided that there are no more
substitutions than a machine word can count. -/
theorem filled_eq_ok (hWords : substitutions.length ≤ twoTo 64) {item : Item}
    (h : ∀ p, item = .place p → substitutions.length ≤ p.number → twoTo 64 ≤ p.number) :
    item.filled substitutions = .ok (item.meant substitutions) := by
  cases item with
  | literal text => rfl
  | place p =>
    rw [filled, meant, List.getD_eq_getElem?_getD]
    by_cases hCount : p.number < substitutions.length
    · rw [if_pos (Nat.lt_of_lt_of_le hCount hWords), List.getElem?_eq_getElem hCount]
      rfl
    · have hLarge := h p rfl (Nat.le_of_not_lt hCount)
      rw [if_neg (Nat.not_lt.mpr hLarge), List.getElem?_eq_none (Nat.le_of_not_lt hCount)]
      rfl

end Item

/-- A raw text is refused for a place without a substitution. -/
theorem unfilled_iff {items : List Item} :
    Unfilled substitutions.length items ↔
      ∃ index, substitutions.length ≤ index ∧
        fill (spell items) substitutions = .error ⟨index, substitutions.length⟩ := by
  have hFill : ∀ e, fill (spell items) substitutions = .error e ↔
      items.mapM (Item.filled substitutions) = .error e := by
    intro e
    rw [fill_spell]
    cases items.mapM (Item.filled substitutions) <;> simp [Except.map]
  have hOrigin : ∀ e, items.mapM (Item.filled substitutions) = .error e →
      ∃ p, .place p ∈ items ∧ substitutions.length ≤ p.number ∧ p.number < twoTo 64 ∧
        e = ⟨p.number, substitutions.length⟩ := by
    intro e h
    obtain ⟨item, hMem, hItem⟩ := exists_of_mapM_error h
    obtain ⟨p, rfl, hPlace⟩ := Item.filled_eq_error.mp hItem
    exact ⟨p, hMem, hPlace⟩
  constructor
  · rintro ⟨p, hMem, hCount, hWord⟩
    -- the error need not be that of this place: another one may stand before it
    obtain ⟨e, hError⟩ := exists_mapM_error hMem
      (Item.filled_eq_error.mpr ⟨p, rfl, hCount, hWord, rfl⟩)
    obtain ⟨first, -, hFirst, -, rfl⟩ := hOrigin e hError
    exact ⟨first.number, hFirst, (hFill _).mpr hError⟩
  · rintro ⟨index, -, hError⟩
    obtain ⟨p, hMem, hCount, hWord, -⟩ := hOrigin _ ((hFill _).mp hError)
    exact ⟨p, hMem, hCount, hWord⟩

/-- Any other raw text becomes what its items stand for. -/
theorem fill_of_not_unfilled (hWords : substitutions.length ≤ twoTo 64) {items : List Item}
    (h : ¬ Unfilled substitutions.length items) :
    fill (spell items) substitutions =
      .ok (String.join (items.map (Item.meant substitutions))) := by
  have hItems : ∀ item ∈ items,
      item.filled substitutions = .ok (item.meant substitutions) := by
    intro item hMem
    refine Item.filled_eq_ok hWords fun p hPlace hCount => Nat.le_of_not_lt fun hWord => ?_
    exact h ⟨p, hPlace ▸ hMem, hCount, hWord⟩
  rw [fill_spell, mapM_eq_ok_map hItems]
  rfl

/-- **Filling is exact.** Where there is a substitution for each place, a raw text becomes
its literals and the substitutions, put together as they are: braces in them are not looked
at again. (No more substitutions than a machine word can count are there in any memory.) -/
theorem fill_spell_ok {items : List Item} {substitutions : List String}
    (hWords : substitutions.length ≤ twoTo 64)
    (hPlaces : ∀ p, .place p ∈ items → p.number < substitutions.length) :
    fill (spell items) substitutions =
      .ok (String.join (items.map (Item.meant substitutions))) := by
  refine fill_of_not_unfilled hWords ?_
  rintro ⟨p, hMem, hCount, -⟩
  exact Nat.not_lt.mpr hCount (hPlaces p hMem)

/-- The place of the first substitution. -/
def Place.zero : Place := ⟨['0'], List.cons_ne_nil _ _, by decide⟩

/-- The place of the second substitution, its number with a leading zero. -/
def Place.paddedOne : Place := ⟨['0', '1'], List.cons_ne_nil _ _, by decide⟩

/-- A place between braces, and another after them. -/
def bracedPlace : List Item :=
  [.literal "\x7b", .place .paddedOne, .literal "\x7d\x7d", .place .zero]

/-- The braces around the place are told from its own, and those of the substitutions are
kept. -/
theorem bracedPlace_fill :
    spell bracedPlace = "\x7b\x7b{01}\x7d\x7d\x7d\x7d{0}" ∧
      fill (spell bracedPlace) ["{1}", "\x7d{0}"] = .ok "\x7b\x7d{0}\x7d\x7d{1}" := by
  have hPlaces : ∀ p, .place p ∈ bracedPlace → p.number < ["{1}", "\x7d{0}"].length := by
    intro p hp
    simp only [bracedPlace, List.mem_cons, List.not_mem_nil, or_false, reduceCtorEq, false_or,
      Item.place.injEq] at hp
    rcases hp with rfl | rfl <;> decide
  refine ⟨by decide, ?_⟩
  rw [fill_spell_ok (by decide) hPlaces]
  decide

end DocumentQuery.Template
