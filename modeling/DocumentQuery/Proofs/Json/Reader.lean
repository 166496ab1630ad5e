import DocumentQuery.Document.Error
import DocumentQuery.Proofs.Json.Printer
import Mathlib.Tactic.IntervalCases

/-!
# Documents are read back as written

The text of a sound document whose numbers are integers is read as the document again,
cut where it is nested too deep.

Main definitions:

* `Json.Whole` — every number is an integer within bounds.
* `Json.depth` — how deep arrays and objects are nested.
* `Json.cut` — a document without what is nested too deep.

Main results:

* `Json.readValue_write` — a document is read back, whatever follows it.
* `Json.ofText_compact` — a whole text.
* `Json.collect_cut_iff` — what has been cut cannot be taken in.
-/

namespace DocumentQuery

/-! ## Numbers -/

namespace Digits

/-- No number but zero is written with a zero in front. -/
theorem head_write {n : Nat} (h : 0 < n) : (write n).head? ≠ some '0' := by
  rw [write_eq_toDigits]
  induction n using Nat.strongRecOn with
  | ind n ih =>
    by_cases hDigit : n < 10
    · rw [Nat.toDigits_of_lt_base hDigit]
      interval_cases n <;> decide
    · -- the first digit is that of the number without its last one
      rw [Nat.toDigits_of_base_le (by omega) (by omega),
        List.head?_append_of_ne_nil _ Nat.toDigits_ne_nil]
      exact ih (n / 10) (by omega) (by omega)

theorem span_append {digits rest : List Char} (hDigits : AllDigits digits)
    (hRest : ∀ c ∈ rest.head?, c.isDigit = false) : span (digits ++ rest) = (digits, rest) := by
  induction digits with
  | nil =>
    cases rest with
    | nil => rfl
    | cons c rest => rw [List.nil_append, span, hRest c rfl]; rfl
  | cons c digits ih =>
    obtain ⟨hFirst, hMore⟩ := List.forall_mem_cons.mp hDigits
    rw [List.cons_append, span, if_pos hFirst, ih hMore]

end Digits

namespace Json

/-- A text that goes on with a comma or a closing bracket, or not at all. -/
def Closes (rest : List Char) : Prop := ∀ c ∈ rest.head?, c = ',' ∨ c = ']' ∨ c = '}'

theorem closes_nil : Closes [] := nofun

theorem Closes.head {c : Char} {rest : List Char} (h : Closes (c :: rest)) :
    c = ',' ∨ c = ']' ∨ c = '}' := h c rfl

theorem closes_itemsTail (js : List Json) (rest : List Char) :
    Closes (writeItemsTail js ++ rest) := by
  cases js <;> rintro c ⟨⟩ <;> simp

theorem closes_membersTail (ms : List (String × Json)) (rest : List Char) :
    Closes (writeMembersTail ms ++ rest) := by
  cases ms <;> rintro c ⟨⟩ <;> simp

theorem readDigits_write (n : Nat) {rest : List Char} (h : Closes rest) :
    readDigits (Digits.write n ++ rest) = .ok (Digits.write n, rest) := by
  have hRest : ∀ c ∈ rest.head?, c.isDigit = false := by
    intro c hc
    rcases h c hc with rfl | rfl | rfl <;> rfl
  rw [readDigits, Digits.span_append (allDigits_write n) hRest]
  cases hDigits : Digits.write n with
  | nil => exact absurd hDigits (Digits.write_ne_nil n)
  | cons c digits => rfl

theorem readWhole_write (n : Nat) {rest : List Char} (h : Closes rest) :
    readWhole (Digits.write n ++ rest) = .ok (Digits.write n, rest) := by
  -- no leading zeros, unless the number is zero
  have hZero : ¬((Digits.write n).head? = some '0' ∧ Digits.write n ≠ ['0']) := by
    rintro ⟨hHead, hOther⟩
    cases n with
    | zero => exact hOther rfl
    | succ n => exact Digits.head_write n.succ_pos hHead
  rw [readWhole, readDigits_write n h]
  exact if_neg hZero

/-- The digits of a number are read as a plain numeral. -/
theorem readNumeral_write (negative : Bool) (n : Nat) {rest : List Char} (h : Closes rest) :
    readNumeral negative (Digits.write n ++ rest) =
      .ok ({ negative, whole := Digits.write n }, rest) := by
  -- what closes the number begins neither a fraction nor an exponent
  have hPlain : readFraction rest = .ok ([], rest) ∧ readExponent rest = .ok (none, rest) := by
    cases rest with
    | nil => exact ⟨rfl, rfl⟩
    | cons c rest => rcases h.head with rfl | rfl | rfl <;> exact ⟨rfl, rfl⟩
  rw [readNumeral, readWhole_write n h]
  show readFraction rest >>= _ = _
  rw [hPlain.1]
  show readExponent rest >>= _ = _
  rw [hPlain.2]
  rfl

/-! ## Depth -/

mutual

/-- How deep arrays and objects are nested in a document. -/
def depth : Json → Nat
  | .arr items => depthOfItems items + 1
  | .obj members => depthOfMembers members + 1
  | _ => 0
termination_by structural j => j

def depthOfItems : List Json → Nat
  | [] => 0
  | j :: js => max j.depth (depthOfItems js)
termination_by structural js => js

def depthOfMembers : List (String × Json) → Nat
  | [] => 0
  | (_, j) :: ms => max j.depth (depthOfMembers ms)
termination_by structural ms => ms

end

mutual

/-- A document in which arrays and objects that are nested deeper than `levels` have lost
their value. -/
def cut (levels : Nat) : Json → Json
  | .arr items => atDepth levels (.arr (cutItems (levels - 1) items))
  | .obj members => atDepth levels (.obj (cutMembers (levels - 1) members))
  | j => j
termination_by structural j => j

def cutItems (levels : Nat) : List Json → List Json
  | [] => []
  | j :: js => j.cut levels :: cutItems levels js
termination_by structural js => js

def cutMembers (levels : Nat) : List (String × Json) → List (String × Json)
  | [] => []
  | (key, j) :: ms => (key, j.cut levels) :: cutMembers levels ms
termination_by structural ms => ms

end

mutual

/-- What is not nested too deep is left as it is. -/
theorem cut_of_depth_le : ∀ (j : Json) {levels : Nat}, j.depth ≤ levels → j.cut levels = j
  | .arr items, _ + 1, h =>
    congrArg arr (cutItems_of_depth_le items (Nat.le_of_succ_le_succ h))
  | .obj members, _ + 1, h =>
    congrArg obj (cutMembers_of_depth_le members (Nat.le_of_succ_le_succ h))
  | .arr _, 0, h | .obj _, 0, h => absurd h (Nat.not_succ_le_zero _)
  | .null, _, _ | .bool _, _, _ | .int _, _, _ | .real _, _, _ | .str _, _, _ | .torn _ _, _, _
  | .broken _, _, _ | .unfit, _, _ | .unkeyed _ _, _, _ => rfl
termination_by structural j => j

theorem cutItems_of_depth_le : ∀ (js : List Json) {levels : Nat}, depthOfItems js ≤ levels →
    cutItems levels js = js
  | [], _, _ => rfl
  | j :: js, _, h => by
    obtain ⟨hFirst, hRest⟩ := max_le_iff.mp h
    rw [cutItems, cut_of_depth_le j hFirst, cutItems_of_depth_le js hRest]
termination_by structural js => js

theorem cutMembers_of_depth_le : ∀ (ms : List (String × Json)) {levels : Nat},
    depthOfMembers ms ≤ levels → cutMembers levels ms = ms
  | [], _, _ => rfl
  | (_, j) :: ms, _, h => by
    obtain ⟨hFirst, hRest⟩ := max_le_iff.mp h
    rw [cutMembers, cut_of_depth_le j hFirst, cutMembers_of_depth_le ms hRest]
termination_by structural ms => ms

end

mutual

theorem firstFault_cut : ∀ (j : Json) (levels : Nat), j.sound = true →
    ((j.cut levels).firstFault true = none ↔ j.depth ≤ levels)
  | .arr _, 0, _ | .obj _, 0, _ => iff_of_false nofun (Nat.not_succ_le_zero _)
  | .arr items, levels + 1, h =>
    (firstFaultOfItems_cut items levels h).trans Nat.succ_le_succ_iff.symm
  | .obj members, levels + 1, h =>
    (firstFaultOfMembers_cut members levels h).trans Nat.succ_le_succ_iff.symm
  | .null, _, _ | .bool _, _, _ | .int _, _, _ | .real _, _, _ | .str _, _, _ =>
    iff_of_true rfl (Nat.zero_le _)
termination_by structural j => j

theorem firstFaultOfItems_cut : ∀ (js : List Json) (levels : Nat), soundItems js = true →
    (firstFaultOfItems true (cutItems levels js) = none ↔ depthOfItems js ≤ levels)
  | [], _, _ => iff_of_true rfl (Nat.zero_le _)
  | j :: js, levels, h => by
    obtain ⟨hFirst, hRest⟩ := soundItems_cons h
    rw [cutItems, firstFaultOfItems, Option.or_eq_none_iff, firstFault_cut j levels hFirst,
      firstFaultOfItems_cut js levels hRest, depthOfItems, max_le_iff]
termination_by structural js => js

theorem firstFaultOfMembers_cut : ∀ (ms : List (String × Json)) (levels : Nat),
    soundMembers ms = true →
    (firstFaultOfMembers true (cutMembers levels ms) = none ↔ depthOfMembers ms ≤ levels)
  | [], _, _ => iff_of_true rfl (Nat.zero_le _)
  | (_, j) :: ms, levels, h => by
    obtain ⟨hFirst, hRest⟩ := soundMembers_cons h
    rw [cutMembers, firstFaultOfMembers, Option.or_eq_none_iff, firstFault_cut j levels hFirst,
      firstFaultOfMembers_cut ms levels hRest, depthOfMembers, max_le_iff]
termination_by structural ms => ms

end

/-- A document from which something has been cut cannot be taken in. -/
theorem collect_cut_iff {j : Json} {levels : Nat} (h : j.sound = true) :
    (j.cut levels).collect = .ok () ↔ j.depth ≤ levels := by
  rw [← firstFault_cut j levels h, collect]
  cases (j.cut levels).firstFault true <;> simp

/-! ## Integers -/

mutual

/-- Every number in the document is an integer that 64 bits hold, and less than `bound`. -/
def Whole (bound : Nat) : Json → Prop
  | .int n => -(twoTo 63 : Nat) ≤ n ∧ n < bound
  | .real _ => False
  | .arr items => WholeItems bound items
  | .obj members => WholeMembers bound members
  | .torn members tail => WholeMembers bound members ∧ tail.Whole bound
  | .unkeyed key rest => key.Whole bound ∧ rest.Whole bound
  | _ => True
termination_by structural j => j

def WholeItems (bound : Nat) : List Json → Prop
  | [] => True
  | j :: js => j.Whole bound ∧ WholeItems bound js
termination_by structural js => js

def WholeMembers (bound : Nat) : List (String × Json) → Prop
  | [] => True
  | (_, j) :: ms => j.Whole bound ∧ WholeMembers bound ms
termination_by structural ms => ms

end

theorem wholeItems_iff {bound : Nat} {js : List Json} :
    WholeItems bound js ↔ ∀ j ∈ js, j.Whole bound := by
  induction js with
  | nil => simp [WholeItems]
  | cons j js ih => rw [WholeItems, ih, List.forall_mem_cons]

theorem wholeMembers_iff {bound : Nat} {ms : List (String × Json)} :
    WholeMembers bound ms ↔ ∀ m ∈ ms, m.2.Whole bound := by
  induction ms with
  | nil => simp [WholeMembers]
  | cons m ms ih => rw [WholeMembers, ih, List.forall_mem_cons]

/-! ## What the reader does at a first character -/

section Characters

variable {steps levels : Nat} {rest : List Char}

theorem ofNumeral_write (n : Nat) (h : n < twoTo 64) :
    ofNumeral { negative := false, whole := Digits.write n } = .int n := by
  simp [ofNumeral, Numeral.integer?, h]

theorem ofNumeral_negative {n : Nat} (hPos : 0 < n) (h : n ≤ twoTo 63) :
    ofNumeral { negative := true, whole := Digits.write n } = .int (-n) := by
  simp [ofNumeral, Numeral.integer?, hPos, h]

theorem shape_ne_other {j : Json} (h : j.sound = true) : j.shape ≠ .other := by
  intro hOther
  cases j <;> cases hOther
  all_goals cases h

theorem skipBlank_of_shape {c : Char} (hc : shapeAt c ≠ .other) (cs : List Char) :
    skipBlank (c :: cs) = c :: cs := by
  have hNot : isBlank c = false := by
    have hNe : ∀ d, shapeAt d = .other → c ≠ d := by
      rintro d hd rfl
      exact hc hd
    simp [isBlank, hNe ' ' rfl, hNe '\t' rfl, hNe '\n' rfl, hNe '\r' rfl]
  rw [skipBlank, List.dropWhile_cons_of_neg (by simp [hNot])]

theorem readValue_digit {c : Char} {cs : List Char} (hc : c.isDigit = true) :
    readValue (steps + 1) levels (c :: cs) = leaf ofNumeral (readNumeral false (c :: cs)) := by
  have hNe : ∀ d, d.isDigit = false → c ≠ d := by
    rintro d hd rfl
    rw [hc] at hd
    cases hd
  have hShape : shapeAt c = .number := shapeAt_numeric (by simp [isNumeric, hc])
  rw [readValue, skipBlank_of_shape (by simp [hShape])]
  -- a digit is none of the characters that begin anything else
  split
  all_goals rename_i h
  all_goals try exact absurd (List.cons.inj h).1 (hNe _ rfl)
  · cases h
  · obtain ⟨rfl, rfl⟩ := List.cons.inj h
    rw [if_pos hc]

theorem readValue_int {n : Int} (hLow : -(twoTo 63 : Nat) ≤ n) (hHigh : n < (twoTo 64 : Nat))
    (h : Closes rest) :
    readValue (steps + 1) levels (Digits.writeInt n ++ rest) = (.int n, .ok rest) := by
  unfold Digits.writeInt
  split
  · -- the sign is read first
    rename_i hNegative
    show leaf ofNumeral (readNumeral true (Digits.write n.natAbs ++ rest)) = _
    rw [readNumeral_write true n.natAbs h]
    show (ofNumeral _, _) = _
    rw [ofNumeral_negative (by omega) (by omega)]
    congr 2
    omega
  · cases hDigits : Digits.write n.natAbs with
    | nil => exact absurd hDigits (Digits.write_ne_nil _)
    | cons c digits =>
      have hc : c.isDigit = true := allDigits_write n.natAbs c (hDigits ▸ List.mem_cons_self)
      rw [List.cons_append, readValue_digit hc, ← List.cons_append, ← hDigits,
        readNumeral_write false n.natAbs h]
      show (ofNumeral _, _) = _
      rw [ofNumeral_write _ (by omega)]
      congr 2
      omega

theorem readValue_str (s : String) :
    readValue (steps + 1) levels (Quoted.write s ++ rest) = (.str s, .ok rest) := by
  rw [Quoted.write_append]
  show leaf _ (Quoted.read _) = _
  rw [Quoted.read_write]
  rfl

/-- Items begin with a character that is neither blank nor a bracket. -/
theorem readItems_of_head {c : Char} {cs : List Char} (hc : shapeAt c ≠ .other) :
    readItems (steps + 1) levels (c :: cs) = readItem steps levels (c :: cs) := by
  rw [readItems, skipBlank_of_shape hc]
  split
  · rename_i h
    cases h
  · rename_i h
    rw [(List.cons.inj h).1] at hc
    exact absurd rfl hc
  · rfl

theorem readItems_write {items : List Json} (hSound : soundItems items = true)
    (h : items ≠ [] →
      readItem steps levels (writeItems items ++ rest) = (cutItems levels items, .ok rest)) :
    readItems (steps + 1) levels (writeItems items ++ rest) =
      (cutItems levels items, .ok rest) := by
  cases items with
  | nil => rfl
  | cons j js =>
    have hj := (soundItems_cons hSound).1
    obtain ⟨c, text, hWrite, hShape⟩ := write_head hj
    have hc : shapeAt c ≠ .other := hShape ▸ shape_ne_other hj
    rw [← h (List.cons_ne_nil j js), writeItems, hWrite]
    exact readItems_of_head hc

theorem readItem_last {j : Json} {cs : List Char}
    (h : readValue steps levels cs = (j, .ok (']' :: rest))) :
    readItem (steps + 1) levels cs = ([j], .ok rest) := by
  rw [readItem, h]
  rfl

theorem readItem_more {j : Json} {js : List Json} {cs cs' : List Char}
    (h : readValue steps levels cs = (j, .ok (',' :: cs')))
    (hMore : readItem steps levels cs' = (js, .ok rest)) :
    readItem (steps + 1) levels cs = (j :: js, .ok rest) := by
  rw [readItem, h]
  show (j :: (readItem steps levels cs').1, (readItem steps levels cs').2) = _
  rw [hMore]

variable {done : List (String × Json)} {key : String}

theorem readMembers_write {members : List (String × Json)}
    (h : members ≠ [] → readMember steps levels [] (writeMembers members ++ rest) =
      (.obj (cutMembers levels members), .ok rest)) :
    readMembers (steps + 1) levels (writeMembers members ++ rest) =
      (.obj (cutMembers levels members), .ok rest) := by
  cases members with
  | nil => rfl
  | cons m ms =>
    rw [← h (List.cons_ne_nil m ms)]
    rfl

theorem readMember_key (cs : List Char) :
    readMember (steps + 1) levels done (Quoted.write key ++ cs) =
      readPayload steps levels done key cs := by
  have hBlank : ∀ cs, skipBlank ('"' :: cs) = '"' :: cs := fun _ => rfl
  rw [Quoted.write_append]
  simp only [readMember, hBlank, Quoted.read_write]

theorem readPayload_last {j : Json} {cs : List Char}
    (h : readValue steps levels cs = (j, .ok ('}' :: rest))) :
    readPayload (steps + 1) levels done key (':' :: cs) =
      (.obj (done.reverse ++ [(key, j)]), .ok rest) := by
  have hBlank : ∀ c ∈ [':', '}'], ∀ cs, skipBlank (c :: cs) = c :: cs := by
    simp [skipBlank, isBlank]
  simp only [readPayload, hBlank ':' (by decide), h, hBlank '}' (by decide), List.reverse_cons]

theorem readPayload_more {j : Json} {cs cs' : List Char}
    (h : readValue steps levels cs = (j, .ok (',' :: cs'))) :
    readPayload (steps + 1) levels done key (':' :: cs) =
      readMember steps levels ((key, j) :: done) cs' := by
  have hBlank : ∀ c ∈ [':', ','], ∀ cs, skipBlank (c :: cs) = c :: cs := by
    simp [skipBlank, isBlank]
  simp only [readPayload, hBlank ':' (by decide), h, hBlank ',' (by decide)]

end Characters

/-! ## Whole documents -/

theorem length_writeItems (j : Json) (js : List Json) :
    (writeItems (j :: js)).length = j.write.length + (writeItemsTail js).length := by
  rw [writeItems, List.length_append]

theorem length_writeMembers (key : String) (j : Json) (ms : List (String × Json)) :
    (writeMembers ((key, j) :: ms)).length =
      (Quoted.write key).length + (j.write.length + 1) + (writeMembersTail ms).length := by
  rw [writeMembers, List.length_append, List.length_append, List.length_cons]

theorem writeItemsTail_cons (j : Json) (js : List Json) :
    writeItemsTail (j :: js) = ',' :: writeItems (j :: js) := rfl

theorem writeMembersTail_cons (m : String × Json) (ms : List (String × Json)) :
    writeMembersTail (m :: ms) = ',' :: writeMembers (m :: ms) := rfl

mutual

/-- A sound document without fractions is read back from its text, whatever follows it, cut
where it is nested too deep. Only a number has to be closed by what follows. Four steps a
character are enough. -/
theorem readValue_write : ∀ (j : Json) (steps levels : Nat) (rest : List Char),
    j.sound = true → j.Whole (twoTo 64) → (j.shape = .number → Closes rest) →
    4 * j.write.length ≤ steps →
    readValue steps levels (j.write ++ rest) = (j.cut levels, .ok rest)
  -- there is no document without a character
  | j, 0, _, _, hSound, _, _, hSteps => by
    obtain ⟨c, text, hWrite, -⟩ := write_head hSound
    rw [hWrite, List.length_cons] at hSteps
    omega
  | .null, steps + 1, _, _, _, _, _, _ => rfl
  | .bool b, steps + 1, _, _, _, _, _, _ => by cases b <;> rfl
  | .int n, steps + 1, _, _, _, hWhole, hRest, _ => readValue_int hWhole.1 hWhole.2 (hRest rfl)
  | .str s, steps + 1, _, _, _, _, _, _ => readValue_str s
  | .arr items, steps + 1, levels, rest, hSound, hWhole, _, hSteps => by
    -- the opening bracket pays for the steps on the way to the first item
    have hLength : 4 * ((writeItems items).length + 1) ≤ steps + 1 := hSteps
    obtain ⟨steps, rfl⟩ : ∃ n, steps = n + 1 := ⟨steps - 1, by omega⟩
    have hItem (hNe : items ≠ []) :=
      readItem_write items hNe steps (levels - 1) rest hSound hWhole (by omega)
    show (atDepth levels (.arr (readItems (steps + 1) (levels - 1) (writeItems items ++ rest)).1),
      (readItems (steps + 1) (levels - 1) (writeItems items ++ rest)).2) = _
    rw [readItems_write hSound hItem]
    rfl
  | .obj members, steps + 1, levels, rest, hSound, hWhole, _, hSteps => by
    have hLength : 4 * ((writeMembers members).length + 1) ≤ steps + 1 := hSteps
    obtain ⟨steps, rfl⟩ : ∃ n, steps = n + 1 := ⟨steps - 1, by omega⟩
    have hMember (hNe : members ≠ []) :=
      readMember_write members hNe steps (levels - 1) [] rest hSound hWhole (by omega)
    show (atDepth levels (readMembers (steps + 1) (levels - 1) (writeMembers members ++ rest)).1,
      (readMembers (steps + 1) (levels - 1) (writeMembers members ++ rest)).2) = _
    rw [readMembers_write hMember]
    rfl
termination_by structural j => j

theorem readItem_write : ∀ items : List Json, items ≠ [] → ∀ (steps levels : Nat)
    (rest : List Char), soundItems items = true → WholeItems (twoTo 64) items →
    4 * (writeItems items).length ≤ steps →
    readItem steps levels (writeItems items ++ rest) = (cutItems levels items, .ok rest)
  | [], hNe, _, _, _, _, _, _ => absurd rfl hNe
  | j :: js, _, 0, _, _, hSound, _, hSteps => by
    obtain ⟨c, text, hWrite, -⟩ := write_head (soundItems_cons hSound).1
    rw [writeItems, hWrite, List.cons_append, List.length_cons] at hSteps
    omega
  -- the last item is followed by the closing bracket
  | [j], _, steps + 1, levels, rest, hSound, ⟨hWhole, _⟩, hSteps => by
    rw [length_writeItems, writeItemsTail, List.length_singleton] at hSteps
    rw [writeItems, writeItemsTail, List.append_assoc]
    exact readItem_last (readValue_write j steps levels (']' :: rest) (soundItems_cons hSound).1
      hWhole (fun _ => closes_itemsTail [] rest) (by omega))
  | j :: j' :: js, _, steps + 1, levels, rest, hSound, ⟨hWhole, hMore⟩, hSteps => by
    rw [length_writeItems, writeItemsTail_cons, List.length_cons] at hSteps
    obtain ⟨hFirst, hRest⟩ := soundItems_cons hSound
    rw [writeItems, List.append_assoc]
    exact readItem_more (readValue_write j steps levels (writeItemsTail (j' :: js) ++ rest) hFirst
        hWhole (fun _ => closes_itemsTail (j' :: js) rest) (by omega))
      (readItem_write (j' :: js) (List.cons_ne_nil j' js) steps levels rest hRest hMore (by omega))
termination_by structural items => items

theorem readMember_write : ∀ members : List (String × Json), members ≠ [] →
    ∀ (steps levels : Nat) (done : List (String × Json)) (rest : List Char),
    soundMembers members = true → WholeMembers (twoTo 64) members →
    4 * (writeMembers members).length ≤ steps →
    readMember steps levels done (writeMembers members ++ rest) =
      (.obj (done.reverse ++ cutMembers levels members), .ok rest)
  | [], hNe, _, _, _, _, _, _, _ => absurd rfl hNe
  | [(key, j)], _, steps, levels, done, rest, hSound, ⟨hWhole, _⟩, hSteps => by
    -- a member takes a step for its key and one for its payload
    rw [length_writeMembers, writeMembersTail, List.length_singleton] at hSteps
    obtain ⟨steps, rfl⟩ : ∃ n, steps = n + 1 + 1 := ⟨steps - 2, by omega⟩
    rw [writeMembers, writeMembersTail, List.append_assoc, List.append_assoc, readMember_key]
    exact readPayload_last (readValue_write j steps levels ('}' :: rest)
      (soundMembers_cons hSound).1 hWhole (fun _ => closes_membersTail [] rest) (by omega))
  | (key, j) :: m :: ms, _, steps, levels, done, rest, hSound, ⟨hWhole, hMore⟩, hSteps => by
    rw [length_writeMembers, writeMembersTail_cons, List.length_cons] at hSteps
    obtain ⟨steps, rfl⟩ : ∃ n, steps = n + 1 + 1 := ⟨steps - 2, by omega⟩
    obtain ⟨hFirst, hRest⟩ := soundMembers_cons hSound
    have hValue := readValue_write j steps levels (writeMembersTail (m :: ms) ++ rest) hFirst
      hWhole (fun _ => closes_membersTail (m :: ms) rest) (by omega)
    -- what has been read so far is kept in reverse
    have hMembers := readMember_write (m :: ms) (List.cons_ne_nil m ms) steps levels
      ((key, j.cut levels) :: done) rest hRest hMore (by omega)
    rw [writeMembers, List.append_assoc, List.append_assoc, readMember_key]
    rw [List.reverse_cons, List.append_assoc] at hMembers
    exact (readPayload_more hValue).trans hMembers
termination_by structural members => members

end

/-- The text of a sound document without fractions, read again. -/
theorem ofText_compact {j : Json} (hSound : j.sound = true) (hWhole : j.Whole (twoTo 64)) :
    Document.ofText j.compact = ⟨j.cut greatestDepth, none⟩ := by
  -- nothing follows the document
  have hRead := readValue_write j (4 * j.write.length + 4) greatestDepth [] hSound hWhole
    (fun _ => closes_nil) (by omega)
  rw [List.append_nil] at hRead
  rw [Document.ofText, compact, String.toList_ofList, Document.ofChars, hRead]
  rfl

end Json

end DocumentQuery
