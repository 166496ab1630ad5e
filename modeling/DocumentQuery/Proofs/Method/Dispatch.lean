import DocumentQuery.Method.VectorDistance
import Mathlib.Data.List.Induction
import Mathlib.Logic.Basic

/-!
# Which translator answers a call

Translators are asked from the one that was added last to the one that is built in, up to the
first that has an answer. An error is an answer as well as an expression: it is not passed over
in the hope that an older translator knows the method too. So a translator hides all that were
added before it from the calls that it decides, and makes no difference to all other calls.

Main definitions:

* `Translator.Decides` — the translator has an answer to a call.
* `Translators.ofAdded` — the built-in translator with others added to it.
* `Translators.Decisive` — the last of some translators that decides a call.

Main results:

* `Translators.firstAnswer_reverse_eq_iff` — who gives the answer of some translators.
* `Translators.translate_last_decisive` — the same for every sequence of added translators, and
  what it takes to change an answer.
-/

namespace DocumentQuery

/-- The translator has an answer to the call, an expression or an error. -/
def Translator.Decides (t : Translator) (call : Call) : Prop := t call ≠ .ok none

namespace Translators

/-- The translators after others have been added one after the other. -/
def ofAdded (registry : Registry) (added : List Translator) : Translators :=
  added.foldl add (builtin registry)

/-- All that are asked, in the order in which they came: the built-in translator is as one that
was added before all others. -/
def consulted (registry : Registry) (added : List Translator) : List Translator :=
  VectorDistance.translator registry :: added

/-- The translator decides the call, and none of those that came after it does. -/
structure Decisive (call : Call) (ts : List Translator) (t : Translator) : Prop where
  decides : t.Decides call
  last : ∃ earlier later, ts = earlier ++ t :: later ∧ ∀ t' ∈ later, ¬ t'.Decides call

variable {call : Call} {t : Translator} {ts : List Translator}

/-! ## The order in which translators are asked -/

theorem inOrder_foldl_add (ts : Translators) (added : List Translator) :
    (added.foldl add ts).inOrder = added.reverse ++ ts.inOrder := by
  induction added generalizing ts with
  | nil => rfl
  | cons t added ih =>
    rw [List.foldl_cons, ih, List.reverse_cons, List.append_assoc]
    rfl

/-- The one that came last is asked first. -/
theorem translate_ofAdded (registry : Registry) (added : List Translator) (call : Call) :
    (ofAdded registry added).translate call =
      firstAnswer call (consulted registry added).reverse := by
  rw [translate, ofAdded, inOrder_foldl_add, consulted, List.reverse_cons]
  rfl

/-! ## The first answer -/

theorem firstAnswer_cons_of_decides (h : t.Decides call) (ts : List Translator) :
    firstAnswer call (t :: ts) = t call := by
  rw [firstAnswer]
  split
  · rename_i hNone
    exact absurd hNone h
  · rfl

theorem firstAnswer_cons_of_undecided (h : ¬ t.Decides call) (ts : List Translator) :
    firstAnswer call (t :: ts) = firstAnswer call ts := by
  rw [firstAnswer, not_not.mp h]

/-- A translator without an answer is passed over wherever it stands. -/
theorem firstAnswer_insert (h : ¬ t.Decides call) (ts ts' : List Translator) :
    firstAnswer call (ts ++ t :: ts') = firstAnswer call (ts ++ ts') := by
  induction ts with
  | nil => exact firstAnswer_cons_of_undecided h ts'
  | cons first ts ih => rw [List.cons_append, List.cons_append, firstAnswer, firstAnswer, ih]

theorem firstAnswer_append (h : ∀ t ∈ ts, ¬ t.Decides call) (ts' : List Translator) :
    firstAnswer call (ts ++ ts') = firstAnswer call ts' := by
  induction ts with
  | nil => rfl
  | cons t ts ih =>
    obtain ⟨hFirst, hRest⟩ := List.forall_mem_cons.mp h
    rw [List.cons_append, firstAnswer_cons_of_undecided hFirst, ih hRest]

theorem firstAnswer_reverse_of_undecided (h : ∀ t ∈ ts, ¬ t.Decides call) :
    firstAnswer call ts.reverse = .ok none := by
  have hNone := firstAnswer_append (fun t hMem => h t (List.mem_reverse.mp hMem)) []
  rwa [List.append_nil] at hNone

/-- What came before a translator that decides the call does not matter. -/
theorem firstAnswer_reverse_append (h : t.Decides call) (earlier later : List Translator) :
    firstAnswer call (earlier ++ t :: later).reverse = firstAnswer call (t :: later).reverse := by
  rw [List.reverse_append, List.reverse_cons, List.append_assoc, List.singleton_append]
  -- whoever came later is asked first, on both sides
  induction later.reverse with
  | nil => rw [List.nil_append, List.nil_append, firstAnswer_cons_of_decides h,
      firstAnswer_cons_of_decides h]
  | cons t' rest ih =>
    rw [List.cons_append, List.cons_append, firstAnswer, firstAnswer, ih]

theorem firstAnswer_of_decisive (h : Decisive call ts t) :
    firstAnswer call ts.reverse = t call := by
  obtain ⟨hDecides, earlier, later, rfl, hLater⟩ := h
  rw [firstAnswer_reverse_append hDecides, List.reverse_cons,
    firstAnswer_append fun t' hMem => hLater t' (List.mem_reverse.mp hMem),
    firstAnswer_cons_of_decides hDecides]

/-- Some translator is the last that decides the call, unless none does. -/
theorem exists_decisive (h : ∃ t ∈ ts, t.Decides call) : ∃ t, Decisive call ts t := by
  induction ts using List.reverseRecOn with
  | nil => obtain ⟨t, hMem, -⟩ := h; cases hMem
  | append_singleton ts last ih =>
    by_cases hLast : last.Decides call
    · exact ⟨last, hLast, ts, [], rfl, List.forall_mem_nil _⟩
    · obtain ⟨t, hMem, hDecides⟩ := h
      rcases List.mem_append.mp hMem with hMem | hMem
      · -- the last one is one more that has no answer
        obtain ⟨t, hDecides, earlier, later, rfl, hLater⟩ := ih ⟨t, hMem, hDecides⟩
        refine ⟨t, hDecides, earlier, later ++ [last], by simp, fun t' hMem => ?_⟩
        rcases List.mem_append.mp hMem with hMem | hMem
        · exact hLater t' hMem
        · rwa [List.mem_singleton.mp hMem]
      · rw [List.mem_singleton.mp hMem] at hDecides
        exact absurd hDecides hLast

/-- The answer is that of the last translator that decides the call, and there is none if no
translator does. -/
theorem firstAnswer_reverse_eq_iff {answer : Except QueryError (Option Expression)} :
    firstAnswer call ts.reverse = answer ↔
      (∃ t, Decisive call ts t ∧ t call = answer) ∨
        (∀ t ∈ ts, ¬ t.Decides call) ∧ answer = .ok none := by
  by_cases h : ∃ t ∈ ts, t.Decides call
  · constructor
    · rintro rfl
      obtain ⟨t, hDecisive⟩ := exists_decisive h
      exact .inl ⟨t, hDecisive, (firstAnswer_of_decisive hDecisive).symm⟩
    · rintro (⟨t, hDecisive, rfl⟩ | ⟨hNone, -⟩)
      · exact firstAnswer_of_decisive hDecisive
      · obtain ⟨t, hMem, hDecides⟩ := h
        exact absurd hDecides (hNone t hMem)
  · have hNone : ∀ t ∈ ts, ¬ t.Decides call := fun t hMem hDecides => h ⟨t, hMem, hDecides⟩
    rw [firstAnswer_reverse_of_undecided hNone]
    constructor
    · rintro rfl
      exact .inr ⟨hNone, rfl⟩
    · rintro (⟨t, ⟨hDecides, earlier, later, rfl, -⟩, -⟩ | ⟨-, rfl⟩)
      · exact absurd hDecides (hNone t (by simp))
      · rfl

/-! ## Added translators -/

/-- **The last translator that decides a call answers it.** After any translators have been
added, a call gets the expression or the error of the one that was added last among those that
decide it, of the built-in one if no other does, and nothing if none does. So one more translator
that does not decide the call makes no difference wherever it is added, and none of those that
were added before one that decides it makes any. -/
theorem translate_last_decisive (registry : Registry) (added : List Translator) (call : Call) :
    (∀ answer, (ofAdded registry added).translate call = answer ↔
      (∃ t, Decisive call (consulted registry added) t ∧ t call = answer) ∨
        (∀ t ∈ consulted registry added, ¬ t.Decides call) ∧ answer = .ok none) ∧
    (∀ earlier t later, added = earlier ++ later → ¬ t.Decides call →
      (ofAdded registry (earlier ++ t :: later)).translate call =
        (ofAdded registry added).translate call) ∧
    ∀ earlier earlier' t later, t.Decides call →
      (ofAdded registry (earlier ++ t :: later)).translate call =
        (ofAdded registry (earlier' ++ t :: later)).translate call := by
  refine ⟨fun answer => ?_, fun earlier t later hAdded hUndecided => ?_,
    fun earlier earlier' t later hDecides => ?_⟩
  · rw [translate_ofAdded]
    exact firstAnswer_reverse_eq_iff
  · rw [hAdded, translate_ofAdded, translate_ofAdded, consulted, consulted, ← List.cons_append,
      ← List.cons_append, List.reverse_append, List.reverse_append, List.reverse_cons,
      List.append_assoc]
    exact firstAnswer_insert hUndecided _ _
  · simp only [translate_ofAdded, consulted, ← List.cons_append, firstAnswer_reverse_append hDecides]

/-- The error of an older translator is hidden, and a younger one without an answer is passed
over. -/
example (registry : Registry) (call : Call) (e : QueryError) (x y : Expression) :
    (ofAdded registry [fun _ => .ok (some x), fun _ => .error e, fun _ => .ok (some y),
      fun _ => .ok none]).translate call = .ok (some y) := rfl

end Translators

end DocumentQuery
