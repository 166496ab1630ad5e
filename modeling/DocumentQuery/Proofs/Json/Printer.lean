import DocumentQuery.Json.Printer
import DocumentQuery.Json.Reader
import DocumentQuery.Proofs.Json.Quoted
import DocumentQuery.Proofs.Number.Style

/-!
# Different documents have different texts

A sound document can be told from its text, and so can what follows it, as long as
no character of a number follows: the first character tells the kind of a document,
and the text of a number ends where its characters end.

Main results:

* `Json.write_append_inj` — a document and what follows it.
* `Json.compact_injective` — whole texts.
-/

namespace DocumentQuery.Json

/-! ## Numbers and what follows them -/

/-- A text that does not go on with a character of a number. -/
def Ends (rest : List Char) : Prop := ∀ c ∈ rest.head?, isNumeric c = false

theorem ends_nil : Ends [] := nofun

theorem ends_cons {c : Char} (h : isNumeric c = false) (rest : List Char) : Ends (c :: rest) := by
  rintro d ⟨⟩
  exact h

theorem numeric_append_inj {text text' rest rest' : List Char} (hText : AllNumeric text)
    (hText' : AllNumeric text') (hRest : Ends rest) (hRest' : Ends rest')
    (h : text ++ rest = text' ++ rest') : text = text' ∧ rest = rest' := by
  -- the number is all that can be taken from the whole text while it goes on numerically
  have hTake : ∀ {text rest}, AllNumeric text → Ends rest →
      (text ++ rest).takeWhile isNumeric = text := by
    intro text rest hText hRest
    rw [List.takeWhile_append_of_pos hText]
    cases rest with
    | nil => simp
    | cons c rest => rw [List.takeWhile_cons_of_neg (by rw [hRest c rfl]; decide), List.append_nil]
  have hEq : text = text' := by rw [← hTake hText hRest, h, hTake hText' hRest']
  subst hEq
  exact ⟨rfl, List.append_cancel_left h⟩

/-! ## The first character -/

/-- The kinds of documents that their first character tells apart. -/
inductive Shape where
  | null
  | bool
  | number
  | string
  | array
  | object
  | other
deriving DecidableEq

def shape : Json → Shape
  | .null => .null
  | .bool _ => .bool
  | .int _ | .real _ => .number
  | .str _ => .string
  | .arr _ => .array
  | .obj _ => .object
  | .torn _ _ | .broken _ | .unfit | .unkeyed _ _ => .other

/-- The kind of document that begins with a character. -/
def shapeAt (c : Char) : Shape :=
  if c = 'n' then .null
  else if c = 't' then .bool
  else if c = 'f' then .bool
  else if c = '"' then .string
  else if c = '[' then .array
  else if c = '{' then .object
  else if isNumeric c then .number
  else .other

theorem shapeAt_numeric {c : Char} (h : isNumeric c = true) : shapeAt c = .number := by
  have hNe : ∀ d, isNumeric d = false → c ≠ d := by
    rintro d hd rfl
    rw [h] at hd
    cases hd
  unfold shapeAt
  rw [if_neg (hNe _ rfl), if_neg (hNe _ rfl), if_neg (hNe _ rfl), if_neg (hNe _ rfl),
    if_neg (hNe _ rfl), if_neg (hNe _ rfl), if_pos h]

theorem number_head {text : List Char} (hText : AllNumeric text) (hNe : text ≠ []) :
    ∃ c rest, text = c :: rest ∧ shapeAt c = .number := by
  cases text with
  | nil => exact absurd rfl hNe
  | cons c rest => exact ⟨c, rest, rfl, shapeAt_numeric (hText c List.mem_cons_self)⟩

theorem write_head {j : Json} (h : j.sound = true) :
    ∃ c text, j.write = c :: text ∧ shapeAt c = j.shape := by
  cases j with
  | null => exact ⟨_, _, rfl, rfl⟩
  | bool b => cases b <;> exact ⟨_, _, rfl, rfl⟩
  | int n => exact number_head (Digits.allNumeric_writeInt n) (Digits.writeInt_ne_nil n)
  | real x => exact number_head (NumberStyle.allNumeric_write x) (NumberStyle.write_ne_nil x)
  | str s => exact ⟨_, _, rfl, rfl⟩
  | arr items => exact ⟨_, _, rfl, rfl⟩
  | obj members => exact ⟨_, _, rfl, rfl⟩
  | torn | broken | unfit | unkeyed => cases h

/-- Documents with the same text have the same shape. -/
theorem shape_eq_of_write {j j' : Json} (hj : j.sound = true) (hj' : j'.sound = true)
    {rest rest' : List Char} (h : j.write ++ rest = j'.write ++ rest') : j.shape = j'.shape := by
  obtain ⟨c, text, hWrite, hShape⟩ := write_head hj
  obtain ⟨c', text', hWrite', hShape'⟩ := write_head hj'
  -- both texts begin with the same character
  rw [hWrite, hWrite'] at h
  rw [← hShape, ← hShape', (List.cons.inj h).1]

/-- No sound document begins with a closing bracket. -/
theorem write_append_ne {j : Json} (hj : j.sound = true) {c : Char} (hc : shapeAt c = .other)
    (rest rest' : List Char) : j.write ++ rest ≠ c :: rest' := by
  obtain ⟨d, text, hWrite, hShape⟩ := write_head hj
  intro h
  rw [hWrite, List.cons_append] at h
  rw [(List.cons.inj h).1, hc] at hShape
  cases j <;> cases hShape
  all_goals cases hj

theorem ends_itemsTail (js : List Json) (rest : List Char) : Ends (writeItemsTail js ++ rest) := by
  cases js with
  | nil => exact ends_cons rfl rest
  | cons j js => exact ends_cons rfl _

theorem ends_membersTail (ms : List (String × Json)) (rest : List Char) :
    Ends (writeMembersTail ms ++ rest) := by
  cases ms with
  | nil => exact ends_cons rfl rest
  | cons m ms => exact ends_cons rfl _

/-! ## Whole documents -/

theorem soundItems_cons {j : Json} {js : List Json} (h : soundItems (j :: js) = true) :
    j.sound = true ∧ soundItems js = true := by
  rwa [soundItems, Bool.and_eq_true] at h

theorem soundMembers_cons {key : String} {j : Json} {ms : List (String × Json)}
    (h : soundMembers ((key, j) :: ms) = true) : j.sound = true ∧ soundMembers ms = true := by
  rwa [soundMembers, Bool.and_eq_true] at h

theorem soundItems_iff {js : List Json} : soundItems js = true ↔ ∀ j ∈ js, j.sound = true := by
  induction js with
  | nil => simp [soundItems]
  | cons j js ih => simp [soundItems, ih]

theorem soundMembers_iff {ms : List (String × Json)} :
    soundMembers ms = true ↔ ∀ m ∈ ms, m.2.sound = true := by
  induction ms with
  | nil => simp [soundMembers]
  | cons m ms ih => simp [soundMembers, ih]

theorem number_of_shape {j : Json} (h : j.shape = .number) :
    (∃ n, j = .int n) ∨ ∃ x, j = .real x := by
  cases j <;> cases h
  · exact Or.inl ⟨_, rfl⟩
  · exact Or.inr ⟨_, rfl⟩

/-- Numbers of either kind. -/
theorem number_append_inj {j j' : Json} (hj : j.shape = .number) (hj' : j'.shape = .number)
    {rest rest' : List Char} (hRest : Ends rest) (hRest' : Ends rest')
    (h : j.write ++ rest = j'.write ++ rest') : j = j' ∧ rest = rest' := by
  rcases number_of_shape hj with ⟨m, rfl⟩ | ⟨x, rfl⟩ <;>
    rcases number_of_shape hj' with ⟨n, rfl⟩ | ⟨y, rfl⟩
  · obtain ⟨hText, hTail⟩ := numeric_append_inj (Digits.allNumeric_writeInt m)
      (Digits.allNumeric_writeInt n) hRest hRest' h
    exact ⟨congrArg Json.int (Digits.writeInt_injective hText), hTail⟩
  · obtain ⟨hText, -⟩ := numeric_append_inj (Digits.allNumeric_writeInt m)
      (NumberStyle.allNumeric_write y) hRest hRest' h
    exact absurd hText.symm (NumberStyle.write_ne_writeInt y m)
  · obtain ⟨hText, -⟩ := numeric_append_inj (NumberStyle.allNumeric_write x)
      (Digits.allNumeric_writeInt n) hRest hRest' h
    exact absurd hText (NumberStyle.write_ne_writeInt x n)
  · obtain ⟨hText, hTail⟩ := numeric_append_inj (NumberStyle.allNumeric_write x)
      (NumberStyle.allNumeric_write y) hRest hRest' h
    exact ⟨congrArg Json.real (NumberStyle.write_injective hText), hTail⟩

mutual

/-- A sound document and what follows it can be told from the text. -/
theorem write_append_inj : ∀ (j j' : Json) {rest rest' : List Char}, j.sound = true →
    j'.sound = true → Ends rest → Ends rest' → j.write ++ rest = j'.write ++ rest' →
    j = j' ∧ rest = rest'
  | .null, j', rest, rest', hj, hj', _, _, h => by
    have hShape := shape_eq_of_write hj hj' h
    cases j' <;> cases hShape
    exact ⟨rfl, List.append_cancel_left h⟩
  | .bool b, j', rest, rest', hj, hj', _, _, h => by
    have hShape := shape_eq_of_write hj hj' h
    cases j' <;> cases hShape
    rename_i b'
    cases b <;> cases b'
    · exact ⟨rfl, List.append_cancel_left h⟩
    · cases h
    · cases h
    · exact ⟨rfl, List.append_cancel_left h⟩
  | .int n, j', rest, rest', hj, hj', hRest, hRest', h =>
    number_append_inj rfl (shape_eq_of_write hj hj' h).symm hRest hRest' h
  | .real x, j', rest, rest', hj, hj', hRest, hRest', h =>
    number_append_inj rfl (shape_eq_of_write hj hj' h).symm hRest hRest' h
  | .str s, j', rest, rest', hj, hj', _, _, h => by
    have hShape := shape_eq_of_write hj hj' h
    cases j' <;> cases hShape
    obtain ⟨hString, hRest⟩ := Quoted.write_append_inj h
    exact ⟨congrArg Json.str hString, hRest⟩
  | .arr items, j', rest, rest', hj, hj', _, _, h => by
    have hShape := shape_eq_of_write hj hj' h
    cases j' <;> cases hShape
    rename_i items'
    obtain ⟨hItems, hRest⟩ := writeItems_append_inj items items' hj hj' (List.cons.inj h).2
    exact ⟨congrArg Json.arr hItems, hRest⟩
  | .obj members, j', rest, rest', hj, hj', _, _, h => by
    have hShape := shape_eq_of_write hj hj' h
    cases j' <;> cases hShape
    rename_i members'
    obtain ⟨hMembers, hRest⟩ :=
      writeMembers_append_inj members members' hj hj' (List.cons.inj h).2
    exact ⟨congrArg Json.obj hMembers, hRest⟩
termination_by structural j => j

theorem writeItems_append_inj : ∀ (js js' : List Json) {rest rest' : List Char},
    soundItems js = true → soundItems js' = true →
    writeItems js ++ rest = writeItems js' ++ rest' → js = js' ∧ rest = rest'
  | [], [], _, _, _, _, h => ⟨rfl, List.append_cancel_left h⟩
  | [], j' :: js', rest, rest', _, hjs', h => by
    -- an array without items goes on with its closing bracket
    rw [writeItems, writeItems, List.append_assoc] at h
    exact absurd h.symm (write_append_ne (soundItems_cons hjs').1 rfl _ _)
  | j :: js, [], rest, rest', hjs, _, h => by
    rw [writeItems, writeItems, List.append_assoc] at h
    exact absurd h (write_append_ne (soundItems_cons hjs).1 rfl _ _)
  | j :: js, j' :: js', rest, rest', hjs, hjs', h => by
    -- a comma or a bracket follows each item, so an item that is a number ends there
    obtain ⟨hj, hSound⟩ := soundItems_cons hjs
    obtain ⟨hj', hSound'⟩ := soundItems_cons hjs'
    rw [writeItems, writeItems, List.append_assoc, List.append_assoc] at h
    obtain ⟨rfl, hTail⟩ :=
      write_append_inj j j' hj hj' (ends_itemsTail js rest) (ends_itemsTail js' rest') h
    obtain ⟨rfl, hRest⟩ := writeItemsTail_append_inj js js' hSound hSound' hTail
    exact ⟨rfl, hRest⟩
termination_by structural js => js

theorem writeItemsTail_append_inj : ∀ (js js' : List Json) {rest rest' : List Char},
    soundItems js = true → soundItems js' = true →
    writeItemsTail js ++ rest = writeItemsTail js' ++ rest' → js = js' ∧ rest = rest'
  | [], [], _, _, _, _, h => ⟨rfl, List.append_cancel_left h⟩
  | [], _ :: _, _, _, _, _, h => by cases h
  | _ :: _, [], _, _, _, _, h => by cases h
  | j :: js, j' :: js', rest, rest', hjs, hjs', h => by
    obtain ⟨hj, hSound⟩ := soundItems_cons hjs
    obtain ⟨hj', hSound'⟩ := soundItems_cons hjs'
    rw [writeItemsTail, writeItemsTail, List.append_assoc, List.append_assoc] at h
    obtain ⟨rfl, hTail⟩ := write_append_inj j j' hj hj' (ends_itemsTail js rest)
      (ends_itemsTail js' rest') (List.cons.inj h).2
    obtain ⟨rfl, hRest⟩ := writeItemsTail_append_inj js js' hSound hSound' hTail
    exact ⟨rfl, hRest⟩
termination_by structural js => js

theorem writeMembers_append_inj : ∀ (ms ms' : List (String × Json)) {rest rest' : List Char},
    soundMembers ms = true → soundMembers ms' = true →
    writeMembers ms ++ rest = writeMembers ms' ++ rest' → ms = ms' ∧ rest = rest'
  | [], [], _, _, _, _, h => ⟨rfl, List.append_cancel_left h⟩
  | [], _ :: _, _, _, _, _, h => by cases h
  | _ :: _, [], _, _, _, _, h => by cases h
  | (key, j) :: ms, (key', j') :: ms', rest, rest', hms, hms', h => by
    obtain ⟨hj, hSound⟩ := soundMembers_cons hms
    obtain ⟨hj', hSound'⟩ := soundMembers_cons hms'
    rw [writeMembers, writeMembers, List.append_assoc, List.append_assoc, List.append_assoc,
      List.append_assoc] at h
    -- the key is told from the text first, then what stands behind the colon
    obtain ⟨rfl, hMember⟩ := Quoted.write_append_inj h
    obtain ⟨rfl, hTail⟩ := write_append_inj j j' hj hj' (ends_membersTail ms rest)
      (ends_membersTail ms' rest') (List.cons.inj hMember).2
    obtain ⟨rfl, hRest⟩ := writeMembersTail_append_inj ms ms' hSound hSound' hTail
    exact ⟨rfl, hRest⟩
termination_by structural ms => ms

theorem writeMembersTail_append_inj : ∀ (ms ms' : List (String × Json)) {rest rest' : List Char},
    soundMembers ms = true → soundMembers ms' = true →
    writeMembersTail ms ++ rest = writeMembersTail ms' ++ rest' → ms = ms' ∧ rest = rest'
  | [], [], _, _, _, _, h => ⟨rfl, List.append_cancel_left h⟩
  | [], _ :: _, _, _, _, _, h => by cases h
  | _ :: _, [], _, _, _, _, h => by cases h
  | (key, j) :: ms, (key', j') :: ms', rest, rest', hms, hms', h => by
    obtain ⟨hj, hSound⟩ := soundMembers_cons hms
    obtain ⟨hj', hSound'⟩ := soundMembers_cons hms'
    rw [writeMembersTail, writeMembersTail, List.append_assoc, List.append_assoc,
      List.append_assoc, List.append_assoc] at h
    obtain ⟨rfl, hMember⟩ := Quoted.write_append_inj (List.cons.inj h).2
    obtain ⟨rfl, hTail⟩ := write_append_inj j j' hj hj' (ends_membersTail ms rest)
      (ends_membersTail ms' rest') (List.cons.inj hMember).2
    obtain ⟨rfl, hRest⟩ := writeMembersTail_append_inj ms ms' hSound hSound' hTail
    exact ⟨rfl, hRest⟩
termination_by structural ms => ms

end

/-- **Different sound documents have different texts.** -/
theorem compact_injective {j j' : Json} (hj : j.sound = true) (hj' : j'.sound = true)
    (h : j.compact = j'.compact) : j = j' := by
  have hWrite : j.write ++ [] = j'.write ++ [] := by
    rw [List.append_nil, List.append_nil]
    exact String.ofList_injective h
  exact (write_append_inj j j' hj hj' ends_nil ends_nil hWrite).1

namespace Document

/-- What has been read is sound, ends with the text, and is written like `j`. -/
def isOf (d : Document) (j : Json) : Bool :=
  d.root.sound && d.trailing.isNone && d.root.write == j.write

/-- A document that is written like `j` is `j`. -/
theorem eq_of_isOf {d : Document} {j : Json} (hj : j.sound = true) (h : d.isOf j = true) :
    d = ⟨j, none⟩ := by
  obtain ⟨root, trailing⟩ := d
  simp only [isOf, Bool.and_eq_true, Option.isNone_iff_eq_none, beq_iff_eq] at h
  obtain ⟨⟨hRoot, rfl⟩, hWrite⟩ := h
  rw [compact_injective hRoot hj (congrArg String.ofList hWrite)]

end Document

end DocumentQuery.Json
