import DocumentQuery.Proofs.Query.Composition

/-!
# What a visit leaves as it was

A tree is visited with a text under construction and with what has been bound so far. Both
are only added to, whatever they are: the text goes on where it has ended, and what is bound
stays bound in its place. Levels are changed on the way, but each that is closed has been
opened by the visit itself, so that the text comes back to the level it had and no level is
closed on the outermost one.

Main definitions:

* `Lowering.IsVisit` — lowering an expression or a select.
* `Lowering.Framed` — what is left as it was.

Main result:

* `visit_framed` — a visit that succeeds, on any text and with any bindings.
-/

namespace DocumentQuery

open Lowering Layout

namespace Lowering

/-- Lowering an expression or a select. -/
inductive IsVisit (ctx : Context) : Lowering Layout → Prop where
  | expression (e : Expression) : IsVisit ctx (e.lower ctx)
  | select (s : Select) : IsVisit ctx (s.lower ctx)

/-- A visit that starts on the text `t` with the bindings `b`, writes the layout `l` and ends
with the bindings `b'`, adds to both and comes back to the level of `t`. -/
structure Framed (t : IndentedText) (b : Bindings) (l : Layout) (b' : Bindings) : Prop where
  text : t.text.toList <+: (l.writeOn t).text.toList
  /-- Neither the names nor the payloads of what was bound have changed. -/
  parameters : b.parameters <+: b'.parameters
  /-- The counter for the names of arguments has not gone back. -/
  next : b.next ≤ b'.next
  level : (l.writeOn t).level = t.level
  /-- Where a level is closed, the visit has opened it and has closed all others that were
  opened since, so that the text stands one level deeper than where it was opened. -/
  closed : ∀ done rest : Layout, l = done ++ .dedent :: rest →
    ∃ before body : Layout, done = before ++ .indent :: body ∧ Leveled body ∧
      (done.writeOn t).level = (before.writeOn t).level + 1

/-! ## Levels -/

/-- Any texts will do where levels alone matter. -/
theorem any_wording : Wording (fun _ => True) (fun _ => True) fun _ _ => True where
  word _ _ := trivial
  bracket _ _ := trivial
  literal _ _ _ _ := trivial
  name _ _ := trivial
  property _ _ := trivial
  label _ _ := trivial
  reference _ _ := trivial

/-- Nor do the lines of raw fragments matter. -/
theorem sets_leveled (ctx : Context) (step : Step) : step.Sets ctx Leveled := by
  cases step with
  | raw sql arguments => exact composed_fragment trivial fun _ _ _ _ _ _ _ _ => trivial
  | _ => exact trivial

variable {ctx : Context} {m : Lowering Layout}

theorem IsVisit.leveled (h : IsVisit ctx m) : Yields Leveled m := by
  cases h with
  | expression e =>
    exact e.lower_composed any_wording ctx (fun _ _ => trivial) fun step _ => sets_leveled ctx step
  | select s =>
    exact s.lower_composed any_wording ctx (fun _ _ => trivial) fun step _ => sets_leveled ctx step

/-! ## Bindings -/

/-- A visit does to the bindings what its steps do, and they only extend them. -/
theorem IsVisit.extends (h : IsVisit ctx m) {b : Bindings} {r : Layout × Bindings}
    (hRun : m.run b = .ok r) : b.Extends r.2 := by
  -- lowering and running the steps of the tree end with the same bindings
  obtain ⟨steps, hSteps⟩ : ∃ steps, (m.run b).map Prod.snd = runSteps ctx b steps := by
    cases h with
    | expression e => exact ⟨e.steps, e.lower_stepwise (stepRelation_bindings ctx) b⟩
    | select s => exact ⟨s.steps, s.lower_bindings ctx b⟩
  rw [hRun] at hSteps
  exact runSteps_extends hSteps.symm

end Lowering

/-! ## Visits -/

/-- **A visit only adds, and comes back to its level.** Whatever has been written and bound
before an expression or a select is visited, and on whatever level the text stands: if the
visit succeeds, text and bindings go on from there, no number for arguments is taken back, the
level is the same as before, and every level that is closed on the way is one that the visit
has opened. -/
theorem visit_framed {ctx : Context} {m : Lowering Layout} (hVisit : IsVisit ctx m)
    {b b' : Bindings} {l : Layout} (hRun : m.run b = .ok (l, b')) (t : IndentedText) :
    Framed t b l b' := by
  -- levels are told from how the layout is put together, bindings from the steps of the tree
  have hLeveled : Leveled l := hVisit.leveled b _ hRun
  have hExtends : b.Extends b' := hVisit.extends hRun
  exact {
    text := ⟨_, (text_writeOn l t).symm⟩
    parameters := hExtends.kept
    next := hExtends.next_le
    level := hLeveled.level_writeOn t
    closed := fun _ _ hl => hLeveled.level_closed hl t }

/-- An object that is projected from a select over a raw fragment. -/
def Select.nestedLevels : Select :=
  { Select.empty with
    projection := [⟨.parameter "k" .int64 (some (.json .int64)), "x", ""⟩,
      ⟨.objectReference "c", "y", ""⟩]
    sources := [⟨.select { Select.empty with
      sources := [⟨.fromSql "{0}\n{1}" (.parameter "args"), some "d", false⟩] }, some "c", false⟩] }

/-- What is supplied to the select. -/
def nestedValues : ParameterValues :=
  [("args", .array [.int 7, .int 8]), ("p2", .null), ("k", .int 1)]

/-- Four levels are opened and closed on top of the first one; of the names for arguments `p1`
is bound and `p2` supplied. -/
theorem nestedLevels_framed :
    ∃ l b', ((Expression.exists .nestedLevels).lower ⟨.builtin, nestedValues⟩).run
        ⟨[⟨"@p1", .null⟩], 1⟩ = .ok (l, b') ∧
      b' = ⟨[⟨"@p1", .null⟩, ⟨"@k", .int 1⟩, ⟨"@p3", .int 7⟩, ⟨"@p4", .int 8⟩], 5⟩ ∧
      l.count .dedent = 4 ∧
      Framed { text := "WHERE\n", width := 2, level := 1, fresh := true } ⟨[⟨"@p1", .null⟩], 1⟩
        l b' := by
  obtain ⟨l, b', hRun⟩ : ∃ l b', ((Expression.exists .nestedLevels).lower
      ⟨.builtin, nestedValues⟩).run ⟨[⟨"@p1", .null⟩], 1⟩ = .ok (l, b') := ⟨_, _, rfl⟩
  have hFramed := visit_framed (.expression (.exists .nestedLevels)) hRun
    { text := "WHERE\n", width := 2, level := 1, fresh := true }
  refine ⟨l, b', hRun, ?_, ?_, hFramed⟩
  · cases hRun
    rfl
  · cases hRun
    rfl

end DocumentQuery
