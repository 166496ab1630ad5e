import DocumentQuery.Proofs.Expression.Untyped
import DocumentQuery.Proofs.Query.Outline

/-!
# Which select a clause belongs to

A select that stands bare in a clause of another one is not set in parentheses, so that
the clauses behind it can be its own or those of the select around it: the text does
not tell. Where all selects inside a select are delimited, as those that are read from
always are, the text determines the select up to types, mappings and names of
attributes, even among selects with bare ones inside.

Main definitions and results:

* `Select.Delimited` — no select stands bare in a clause.
* `Select.Parts.cancel` — outlines with no bare selects are cut into the same clauses.
* `Select.untyped_eq` — what the outline of a delimited select says.
* `generate_text_determines` — when two selects share a text.
* `not_generate_text_determines` — a clause that can belong to two selects.
-/

namespace DocumentQuery

open Outliner

/-! ## Delimited selects -/

def Expression.isSelect : Expression → Bool
  | .select _ => true
  | _ => false

mutual

/-- The selects in the expression are delimited, as far as single values go. -/
def Expression.Delimited : Expression → Prop
  | .select select => select.Delimited
  | .exists subquery => subquery.Delimited
  | .array subquery => subquery.Delimited
  | .scalarSubquery subquery => subquery.Delimited
  | _ => True
termination_by structural e => e

def DelimitedOptional : Option Expression → Prop
  | none => True
  | some e => e.isSelect = false ∧ e.Delimited
termination_by structural e => e

/-- No select stands bare as the value, the predicate or a key to sort by, neither of this
select nor of one inside it. -/
def Select.Delimited : Select → Prop
  | ⟨_, projection, _, sources, predicate, orderings, _, _⟩ =>
    DelimitedProjections projection ∧ DelimitedSources sources ∧ DelimitedOptional predicate ∧
      DelimitedSortKeys orderings
termination_by structural s => s

def DelimitedProjections : List Projection → Prop
  | [] => True
  | ⟨expression, _, _⟩ :: ps =>
    (expression.isSelect = false ∧ expression.Delimited) ∧ DelimitedProjections ps
termination_by structural ps => ps

/-- A source sets its select in parentheses. -/
def DelimitedSources : List Source → Prop
  | [] => True
  | ⟨container, _, _⟩ :: ss => container.Delimited ∧ DelimitedSources ss
termination_by structural ss => ss

def DelimitedSortKeys : List SortKey → Prop
  | [] => True
  | ⟨expression, _⟩ :: ks =>
    (expression.isSelect = false ∧ expression.Delimited) ∧ DelimitedSortKeys ks
termination_by structural ks => ks

end

/-! ## Lists cut where a clause begins -/

/-- Two lists that are the same are cut at the same place, if both are cut before the
first item of some kind or not at all. -/
theorem append_inj_of_head {α : Type} {p : α → Bool} {x x' y y' : List α}
    (hx : ∀ a ∈ x, p a = false) (hx' : ∀ a ∈ x', p a = false) (hy : ∀ a ∈ y.head?, p a = true)
    (hy' : ∀ a ∈ y'.head?, p a = true) (h : x ++ y = x' ++ y') : x = x' ∧ y = y' := by
  induction x generalizing x' with
  | nil =>
    cases x' with
    | nil => exact ⟨rfl, h⟩
    -- cut on one side only, the next item would be of the kind and not of the kind
    | cons a x' =>
      have hTrue : p a = true := hy a (by rw [← List.nil_append y, h]; rfl)
      rw [hx' a List.mem_cons_self] at hTrue
      cases hTrue
  | cons a x ih =>
    cases x' with
    | nil =>
      have hTrue : p a = true := hy' a (by rw [← List.nil_append y', ← h]; rfl)
      rw [hx a List.mem_cons_self] at hTrue
      cases hTrue
    | cons a' x' =>
      obtain ⟨rfl, hRest⟩ := List.cons.inj h
      obtain ⟨rfl, rfl⟩ := ih (fun b hb => hx b (List.mem_cons_of_mem _ hb))
        (fun b hb => hx' b (List.mem_cons_of_mem _ hb)) hRest
      exact ⟨rfl, rfl⟩

/-- The item begins a select or a clause of one. -/
def Item.begins : Item → Bool
  | .select | .source | .condition | .ordering => true
  | _ => false

/-- A clause that begins with an item, or nothing. -/
inductive ClauseOf (first : Item) : List Item → Prop where
  | nil : ClauseOf first []
  | cons {body : List Item} (h : ∀ item ∈ body, item.begins = false) :
      ClauseOf first (first :: body)

/-- Clauses of the kinds that follow. -/
def ClausesBut (first : Item) (items : List Item) : Prop :=
  ∀ item ∈ items.head?, item.begins = true ∧ item ≠ first

variable {first : Item} {c c' r r' : List Item}

theorem ClauseOf.cancel (hc : ClauseOf first c) (hc' : ClauseOf first c')
    (hr : ClausesBut first r) (hr' : ClausesBut first r') (h : c ++ r = c' ++ r') :
    c = c' ∧ r = r' := by
  cases hc with
  | nil =>
    cases hc' with
    | nil => exact ⟨rfl, h⟩
    -- the clause is there on one side only, but what follows on the other is of another kind
    | cons hBody' => exact absurd rfl (hr first (by rw [← List.nil_append r, h]; rfl)).2
  | cons hBody =>
    cases hc' with
    | nil => exact absurd rfl (hr' first (by rw [← List.nil_append r', ← h]; rfl)).2
    | cons hBody' =>
      obtain ⟨hBodies, hRest⟩ := append_inj_of_head hBody hBody'
        (fun item hItem => (hr item hItem).1) (fun item hItem => (hr' item hItem).1)
        (List.cons.inj h).2
      exact ⟨by rw [hBodies], hRest⟩

theorem ClauseOf.head {second : Item} (hc : ClauseOf second c) (hSecond : second.begins = true)
    (hNe : second ≠ first) (hr : ClausesBut first r) : ClausesBut first (c ++ r) := by
  cases hc with
  | nil => exact hr
  | cons _ =>
    rintro item ⟨⟩
    exact ⟨hSecond, hNe⟩

theorem clausesBut_nil : ClausesBut first [] := nofun

/-! ## Operands that are no bare selects -/

/-- The outline of the expression is one term. -/
def Expression.IsTerm (e : Expression) : Prop := ∃ item, e.outline = [item] ∧ isTerm item = true

theorem Expression.SingleValued.isTerm {e : Expression} (h : e.SingleValued)
    (hBare : e.isSelect = false) : e.IsTerm := by
  cases e with
  | select s => cases hBare
  | objectReference name => exact ⟨_, rfl, rfl⟩
  | constant value type mapping =>
    cases value with
    | int n => exact ⟨_, rfl, rfl⟩
    | _ => exact h.elim
  | «exists» subquery => exact ⟨_, rfl, rfl⟩
  | array subquery => exact ⟨_, rfl, rfl⟩
  | scalarSubquery subquery => exact ⟨_, rfl, rfl⟩
  | isIn item values _ => cases values <;> exact h.elim
  | _ => exact h.elim

theorem Select.outline_head (s : Select) : ∃ rest, s.outline = .select :: rest := by
  obtain ⟨_, _, _, _, _, _, _, _⟩ := s
  exact ⟨_, rfl⟩

/-- A bare select shows in the outline. -/
theorem Expression.SingleValued.isTerm_of_notMem {e : Expression} (h : e.SingleValued)
    (hSelect : Item.select ∉ e.outline) : e.IsTerm := by
  refine h.isTerm ?_
  cases e with
  | select s =>
    obtain ⟨rest, hRest⟩ := s.outline_head
    rw [Expression.outline, hRest] at hSelect
    exact absurd List.mem_cons_self hSelect
  | _ => rfl

/-- The value, the predicate and the keys to sort by. -/
def Select.operands (s : Select) : List Expression :=
  s.projection.map Projection.expression ++ s.predicate.toList ++
    s.orderings.map SortKey.expression

/-- No bare select is among the operands. -/
def Select.Delimits (s : Select) : Prop := ∀ e ∈ s.operands, e.IsTerm

theorem Item.begins_of_isTerm {item : Item} (h : isTerm item = true) : item.begins = false := by
  cases item <;> first
    | rfl
    | cases h

/-- What is true of terms is true of all that the outline shows. -/
theorem Expression.IsTerm.forall {e : Expression} (h : e.IsTerm) {P : Item → Prop}
    (hTerm : ∀ item, isTerm item = true → P item) : ∀ item ∈ e.outline, P item := by
  obtain ⟨item, hOutline, hItem⟩ := h
  rw [hOutline]
  exact List.forall_mem_singleton.mpr (hTerm item hItem)

theorem not_begins_of_isTerm {e : Expression} (h : e.IsTerm) :
    ∀ item ∈ e.outline, item.begins = false :=
  h.forall fun _ => Item.begins_of_isTerm

/-- The keys behind one another begin no clause of their own. -/
theorem not_begins_of_listed {os : List (List Item)}
    (h : ∀ o ∈ os, ∀ item ∈ o, item.begins = false) :
    ∀ item ∈ Item.listed .further os, item.begins = false := by
  induction os with
  | nil => nofun
  | cons o os ih =>
    obtain ⟨hFirst, hRest⟩ := List.forall_mem_cons.mp h
    rw [Item.listed, List.cons_append, List.forall_mem_cons, List.forall_mem_append]
    exact ⟨rfl, hFirst, ih hRest⟩

theorem clauseOf_listed {os : List (List Item)}
    (h : ∀ o ∈ os, ∀ item ∈ o, item.begins = false) :
    ClauseOf .ordering (Item.listed .ordering os) := by
  cases os with
  | nil => exact .nil
  | cons o os =>
    obtain ⟨hFirst, hRest⟩ := List.forall_mem_cons.mp h
    exact .cons (List.forall_mem_append.mpr ⟨hFirst, not_begins_of_listed hRest⟩)

theorem clauseOf_sourced {item : Item} (h : isTerm item = true) (eachItem : Bool)
    (aliasName : Option String) : ClauseOf .source (Item.sourced [item] eachItem aliasName) := by
  have hItem : ∀ i ∈ [item], i.begins = false := by
    simpa using Item.begins_of_isTerm h
  have hOther : ∀ {i : Item} {is : List Item}, i.begins = false →
      (∀ i ∈ is, i.begins = false) → ∀ j ∈ i :: is, j.begins = false :=
    fun hi his => List.forall_mem_cons.mpr ⟨hi, his⟩
  cases aliasName with
  | none =>
    cases eachItem with
    | false => exact .cons hItem
    | true => exact .cons (hOther rfl hItem)
  | some aliasName =>
    cases eachItem with
    | false => exact .cons (List.forall_mem_append.mpr ⟨hItem, hOther rfl nofun⟩)
    | true => exact .cons (hOther rfl (hOther rfl hItem))

/-- The parts of an outline among whose operands there are no bare selects. -/
structure Select.Parts (s : Select) : Prop where
  projections : ∀ item ∈ outlineOfProjections s.projection, item.begins = false
  sources : ClauseOf .source (outlineOfSources s.sources)
  predicate : ClauseOf .condition (outlineOfPredicate s.predicate)
  orderings : ClauseOf .ordering (Item.listed .ordering (outlinesOfSortKeys s.orderings))

/-- The container of a source is one term. -/
theorem Expression.SingleValued.contained {container : Expression} (h : container.SingleValued)
    (hContainer : container.IsContainer) :
    ∃ item, Item.contained container.outline container = [item] ∧ Outliner.isTerm item = true := by
  cases container with
  | objectReference name => exact ⟨_, rfl, rfl⟩
  | select s => exact ⟨_, rfl, rfl⟩
  | _ => exact hContainer.elim

theorem SingleValuedSources.clauseOf {sources : List Source} (h : SingleValuedSources sources) :
    ClauseOf .source (outlineOfSources sources) := by
  match sources, h with
  | [], _ => exact .nil
  | [⟨container, aliasName, eachItem⟩], ⟨hContainer, hSingle, _⟩ =>
    obtain ⟨item, hItem, hTerm⟩ := hSingle.contained hContainer
    rw [outlineOfSources, hItem]
    exact clauseOf_sourced hTerm eachItem aliasName

/-- The outlines of keys hold nothing but what their expressions show and the word for a
descending order. -/
theorem forall_outlinesOfSortKeys {P : Item → Prop} {orderings : List SortKey}
    (h : ∀ k ∈ orderings, ∀ item ∈ k.expression.outline, P item) (hDescending : P .descending) :
    ∀ o ∈ outlinesOfSortKeys orderings, ∀ item ∈ o, P item := by
  induction orderings with
  | nil => nofun
  | cons k ks ih =>
    obtain ⟨expression, isAscending⟩ := k
    obtain ⟨hFirst, hRest⟩ := List.forall_mem_cons.mp h
    rw [outlinesOfSortKeys, List.forall_mem_cons, List.forall_mem_append]
    refine ⟨⟨hFirst, ?_⟩, ih hRest⟩
    cases isAscending with
    | true => exact nofun
    | false => exact List.forall_mem_singleton.mpr hDescending

theorem not_begins_of_keys {orderings : List SortKey}
    (h : ∀ k ∈ orderings, k.expression.IsTerm) :
    ∀ o ∈ outlinesOfSortKeys orderings, ∀ item ∈ o, item.begins = false :=
  forall_outlinesOfSortKeys (fun k hk => not_begins_of_isTerm (h k hk)) rfl

theorem Select.SingleValued.parts {s : Select} (h : s.SingleValued) (hDelimits : s.Delimits) :
    s.Parts := by
  obtain ⟨isDistinct, projection, singleValue, sources, predicate, orderings, offset, limit⟩ := s
  obtain ⟨-, -, hSources, -, -, -, -⟩ := h
  obtain ⟨hRest, hOrderings⟩ := List.forall_mem_append.mp hDelimits
  obtain ⟨hProjection, hPredicate⟩ := List.forall_mem_append.mp hRest
  refine ⟨?_, hSources.clauseOf, ?_, ?_⟩
  · cases projection with
    | nil => simp [outlineOfProjections, Item.begins]
    | cons p ps =>
      obtain ⟨expression, aliasName, name⟩ := p
      rw [outlineOfProjections, List.forall_mem_cons]
      exact ⟨rfl, not_begins_of_isTerm (hProjection _ List.mem_cons_self)⟩
  · cases predicate with
    | none => exact .nil
    | some e => exact .cons (not_begins_of_isTerm (hPredicate e (by simp)))
  · exact clauseOf_listed (not_begins_of_keys (List.forall_mem_map.mp hOrderings))

/-- What stands before the clauses of a select. -/
theorem Select.outline_eq (s : Select) : s.outline =
    .select :: (((if s.isDistinct then [.distinct] else []) ++ outlineOfProjections s.projection) ++
      (outlineOfSources s.sources ++ (outlineOfPredicate s.predicate ++
        Item.listed .ordering (outlinesOfSortKeys s.orderings)))) := by
  obtain ⟨_, _, _, _, _, _, _, _⟩ := s
  simp [Select.outline]

namespace Select.Parts

variable {s t : Select}

theorem not_begins_head (h : s.Parts) : ∀ item ∈
    (if s.isDistinct then [Item.distinct] else []) ++ outlineOfProjections s.projection,
    item.begins = false := by
  refine List.forall_mem_append.mpr ⟨?_, h.projections⟩
  cases s.isDistinct <;> simp [Item.begins]

theorem behind_predicate (h : s.Parts) (hOrdering : first ≠ .ordering) :
    ClausesBut first (Item.listed .ordering (outlinesOfSortKeys s.orderings)) := by
  have hClauses := h.orderings.head rfl hOrdering.symm clausesBut_nil
  rwa [List.append_nil] at hClauses

theorem behind_sources (h : s.Parts) (hCondition : first ≠ .condition)
    (hOrdering : first ≠ .ordering) :
    ClausesBut first (outlineOfPredicate s.predicate ++
      Item.listed .ordering (outlinesOfSortKeys s.orderings)) :=
  h.predicate.head rfl hCondition.symm (h.behind_predicate hOrdering)

/-- No clause begins with the word of a select. -/
theorem behind_projections (h : s.Parts) :
    ClausesBut .select (outlineOfSources s.sources ++ (outlineOfPredicate s.predicate ++
      Item.listed .ordering (outlinesOfSortKeys s.orderings))) :=
  h.sources.head rfl nofun (h.behind_sources nofun nofun)

/-- The same outline is made of the same parts. -/
theorem cancel (hs : s.Parts) (ht : t.Parts) (h : s.outline = t.outline) :
    (if s.isDistinct then [Item.distinct] else []) ++ outlineOfProjections s.projection =
        (if t.isDistinct then [Item.distinct] else []) ++ outlineOfProjections t.projection ∧
      outlineOfSources s.sources = outlineOfSources t.sources ∧
      outlineOfPredicate s.predicate = outlineOfPredicate t.predicate ∧
      Item.listed .ordering (outlinesOfSortKeys s.orderings) =
        Item.listed .ordering (outlinesOfSortKeys t.orderings) := by
  rw [Select.outline_eq, Select.outline_eq t, List.cons_eq_cons] at h
  -- from the front to the back, one clause at a time
  obtain ⟨hHeads, hClauses⟩ := append_inj_of_head hs.not_begins_head ht.not_begins_head
    (fun item hItem => (hs.behind_projections item hItem).1)
    (fun item hItem => (ht.behind_projections item hItem).1) h.2
  obtain ⟨hFrom, hClauses⟩ := hs.sources.cancel ht.sources (hs.behind_sources nofun nofun)
    (ht.behind_sources nofun nofun) hClauses
  obtain ⟨hWhere, hOrder⟩ := hs.predicate.cancel ht.predicate (hs.behind_predicate nofun)
    (ht.behind_predicate nofun) hClauses
  exact ⟨hHeads, hFrom, hWhere, hOrder⟩

end Select.Parts

/-! ## Bare selects show in the outline -/

theorem ClauseOf.select_notMem (hc : ClauseOf first c) (hFirst : first ≠ .select) :
    Item.select ∉ c := by
  cases hc with
  | nil => exact List.not_mem_nil
  | cons hBody =>
    rintro (_ | ⟨_, hMem⟩)
    · exact hFirst rfl
    · cases hBody _ hMem

theorem mem_listed {os : List (List Item)} {o : List Item} (ho : o ∈ os) {item : Item}
    (hItem : item ∈ o) (first : Item) : item ∈ Item.listed first os := by
  induction os generalizing first with
  | nil => cases ho
  | cons o' os ih =>
    rw [Item.listed, List.cons_append, List.mem_cons, List.mem_append]
    rcases List.mem_cons.mp ho with rfl | hRest
    · exact .inr (.inl hItem)
    · exact .inr (.inr (ih hRest _))

/-- The outlines of the keys are parts of the outline. -/
theorem SingleValuedSortKeys.mem {orderings : List SortKey} (h : SingleValuedSortKeys orderings)
    {k : SortKey} (hk : k ∈ orderings) : k.expression.SingleValued ∧
      ∃ o ∈ outlinesOfSortKeys orderings, ∀ item ∈ k.expression.outline, item ∈ o := by
  induction orderings with
  | nil => cases hk
  | cons k' ks ih =>
    obtain ⟨expression, isAscending⟩ := k'
    obtain ⟨hFirst, hRest⟩ := h
    rcases List.mem_cons.mp hk with rfl | hk
    · exact ⟨hFirst, _, List.mem_cons_self, fun item hItem => List.mem_append_left _ hItem⟩
    · obtain ⟨hSingle, o, ho, hMem⟩ := ih hRest hk
      exact ⟨hSingle, o, List.mem_cons_of_mem _ ho, hMem⟩

/-- The outlines of the operands are parts of the outline. -/
theorem Select.SingleValued.operand {s : Select} (h : s.SingleValued) {e : Expression}
    (he : e ∈ s.operands) :
    e.SingleValued ∧ ∀ item ∈ e.outline, item ∈ s.outline.tail := by
  rw [Select.outline_eq, List.tail_cons]
  obtain ⟨isDistinct, projection, singleValue, sources, predicate, orderings, offset, limit⟩ := s
  obtain ⟨-, hProjection, -, hPredicate, hOrderings, -, -⟩ := h
  simp only [List.mem_append]
  rcases List.mem_append.mp he with he | he
  · rcases List.mem_append.mp he with he | he
    · match projection, hProjection, he with
      | [⟨expression, _, _⟩], ⟨_, hExpression⟩, he =>
        obtain rfl := List.mem_singleton.mp he
        exact ⟨hExpression, fun item hItem => .inl (.inr (List.mem_cons_of_mem _ hItem))⟩
    · match predicate, hPredicate, he with
      | some expression, hExpression, he =>
        obtain rfl := List.mem_singleton.mp he
        exact ⟨hExpression, fun item hItem =>
          .inr (.inr (.inl (List.mem_cons_of_mem _ hItem)))⟩
  · obtain ⟨k, hk, rfl⟩ := List.mem_map.mp he
    obtain ⟨hSingle, o, ho, hMem⟩ := hOrderings.mem hk
    exact ⟨hSingle, fun item hItem => .inr (.inr (.inr (mem_listed ho (hMem item hItem) _)))⟩

/-- Whether there are bare selects among the operands can be told from the outline. -/
theorem Select.SingleValued.delimits_iff {s : Select} (h : s.SingleValued) :
    s.Delimits ↔ Item.select ∉ s.outline.tail := by
  constructor
  · intro hDelimits
    have hParts := h.parts hDelimits
    rw [Select.outline_eq, List.tail_cons]
    simp only [List.mem_append, not_or]
    refine ⟨⟨?_, fun hMem => ?_⟩, hParts.sources.select_notMem nofun,
      hParts.predicate.select_notMem nofun, hParts.orderings.select_notMem nofun⟩
    · cases s.isDistinct <;> simp
    · cases hParts.projections _ hMem
  · intro hSelect e he
    -- a bare select would begin with an item that the outline does not hold
    obtain ⟨hSingle, hMem⟩ := h.operand he
    exact hSingle.isTerm_of_notMem fun hItem => hSelect (hMem _ hItem)

theorem DelimitedSortKeys.mem {orderings : List SortKey} (h : DelimitedSortKeys orderings)
    {k : SortKey} (hk : k ∈ orderings) : k.expression.isSelect = false := by
  induction orderings with
  | nil => cases hk
  | cons k' ks ih =>
    obtain ⟨expression, isAscending⟩ := k'
    obtain ⟨hFirst, hRest⟩ := h
    rcases List.mem_cons.mp hk with rfl | hk
    · exact hFirst.1
    · exact ih hRest hk

theorem DelimitedProjections.mem {projection : List Projection}
    (h : DelimitedProjections projection) {p : Projection} (hp : p ∈ projection) :
    p.expression.isSelect = false := by
  induction projection with
  | nil => cases hp
  | cons p' ps ih =>
    obtain ⟨expression, aliasName, name⟩ := p'
    obtain ⟨hFirst, hRest⟩ := h
    rcases List.mem_cons.mp hp with rfl | hp
    · exact hFirst.1
    · exact ih hRest hp

theorem Select.SingleValued.delimits {s : Select} (h : s.SingleValued) (hDelimited : s.Delimited) :
    s.Delimits := by
  intro e he
  refine (h.operand he).1.isTerm ?_
  obtain ⟨isDistinct, projection, singleValue, sources, predicate, orderings, offset, limit⟩ := s
  obtain ⟨hProjection, -, hPredicate, hOrderings⟩ := hDelimited
  rcases List.mem_append.mp he with he | he
  · rcases List.mem_append.mp he with he | he
    · obtain ⟨p, hp, rfl⟩ := List.mem_map.mp he
      exact hProjection.mem hp
    · match predicate, hPredicate, he with
      | some expression, hExpression, he =>
        obtain rfl := List.mem_singleton.mp he
        exact hExpression.1
  · obtain ⟨k, hk, rfl⟩ := List.mem_map.mp he
    exact hOrderings.mem hk

/-! ## Trees from outlines -/

/-- Neither an integer nor the word before a value is `DISTINCT`. -/
theorem distinct_inj {isDistinct isDistinct' : Bool} {projection projection' : List Projection}
    (h : (if isDistinct then [Item.distinct] else []) ++ outlineOfProjections projection =
      (if isDistinct' then [Item.distinct] else []) ++ outlineOfProjections projection') :
    isDistinct = isDistinct' ∧
      outlineOfProjections projection = outlineOfProjections projection' := by
  have hNe : ∀ ps is, outlineOfProjections ps ≠ Item.distinct :: is := by
    intro ps is
    cases ps with
    | nil => nofun
    | cons p ps =>
      obtain ⟨expression, aliasName, name⟩ := p
      nofun
  cases isDistinct <;> cases isDistinct'
  · exact ⟨rfl, h⟩
  · exact absurd h (hNe _ _)
  · exact absurd h.symm (hNe _ _)
  · exact ⟨rfl, (List.cons.inj h).2⟩

theorem Item.sourced_ne_nil (container : List Item) (eachItem : Bool) (aliasName : Option String) :
    Item.sourced container eachItem aliasName ≠ [] := by
  cases aliasName <;> cases eachItem <;> exact nofun

/-- A source shows its container, its alias and what the alias stands for. -/
theorem Item.sourced_inj {item item' : Item} (h : isTerm item = true)
    {eachItem eachItem' : Bool} {aliasName aliasName' : Option String}
    (hSourced : Item.sourced [item] eachItem aliasName =
      Item.sourced [item'] eachItem' aliasName') :
    item = item' ∧ eachItem = eachItem' ∧ aliasName = aliasName' := by
  cases aliasName <;> cases aliasName' <;> cases eachItem <;> cases eachItem' <;>
    simp_all [Item.sourced]
  -- neither an alias nor the word behind a name is a container
  all_goals cases h

def Item.isFurther : Item → Bool
  | .further => true
  | _ => false

/-- The keys of an ordering can be told from each other by the commas between them. -/
theorem Item.listed_inj {os os' : List (List Item)}
    (h : ∀ o ∈ os, ∀ item ∈ o, item.isFurther = false)
    (h' : ∀ o ∈ os', ∀ item ∈ o, item.isFurther = false) {first : Item}
    (hListed : Item.listed first os = Item.listed first os') : os = os' := by
  have hHead : ∀ os, ∀ item ∈ (Item.listed .further os).head?, item.isFurther = true := by
    intro os
    cases os with
    | nil => nofun
    | cons o os =>
      rintro item ⟨⟩
      rfl
  induction os generalizing first os' with
  | nil =>
    cases os' with
    | nil => rfl
    | cons o' os' => cases hListed
  | cons o os ih =>
    cases os' with
    | nil => cases hListed
    | cons o' os' =>
      obtain ⟨hFirst, hRest⟩ := List.forall_mem_cons.mp h
      obtain ⟨hFirst', hRest'⟩ := List.forall_mem_cons.mp h'
      -- the first key ends where the first comma stands
      obtain ⟨rfl, hTail⟩ := append_inj_of_head hFirst hFirst' (hHead os) (hHead os')
        (List.cons.inj hListed).2
      rw [ih hRest hRest' hTail]

/-- A key shows its expression and its direction. -/
theorem key_inj {e e' : Expression} (h : e.IsTerm) (h' : e'.IsTerm)
    {isAscending isAscending' : Bool}
    (hKey : (e.outline ++ if isAscending then [] else [.descending]) =
      e'.outline ++ if isAscending' then [] else [.descending]) :
    e.outline = e'.outline ∧ isAscending = isAscending' := by
  obtain ⟨item, hItem, -⟩ := h
  obtain ⟨item', hItem', -⟩ := h'
  rw [hItem, hItem'] at hKey ⊢
  cases isAscending <;> cases isAscending' <;> simp_all

theorem Item.isFurther_of_isTerm {item : Item} (h : isTerm item = true) :
    item.isFurther = false := by
  cases item <;> first
    | rfl
    | cases h

theorem not_further_of_keys {orderings : List SortKey}
    (h : ∀ k ∈ orderings, k.expression.IsTerm) :
    ∀ o ∈ outlinesOfSortKeys orderings, ∀ item ∈ o, item.isFurther = false :=
  forall_outlinesOfSortKeys (fun k hk => (h k hk).forall fun _ => Item.isFurther_of_isTerm) rfl

/-- A term is no bare select. -/
theorem Expression.IsTerm.isSelect {e : Expression} (h : e.IsTerm) : e.isSelect = false := by
  cases e with
  | select s =>
    obtain ⟨item, hItem, hTerm⟩ := h
    obtain ⟨rest, hRest⟩ := s.outline_head
    rw [Expression.outline, hRest] at hItem
    obtain ⟨rfl, -⟩ := List.cons.inj hItem
    cases hTerm
  | _ => rfl

/-- Containers show whether they are selects. -/
theorem contained_inj {e e' : Expression} (h : e.IsContainer) (h' : e'.IsContainer)
    (hOutline : Item.contained e.outline e = Item.contained e'.outline e') :
    e.isSelect = e'.isSelect ∧ e.outline = e'.outline := by
  cases e with
  | objectReference name =>
    cases e' with
    | objectReference name' => exact ⟨rfl, hOutline⟩
    | select s' => cases hOutline
    | _ => exact h'.elim
  | select s =>
    cases e' with
    | objectReference name' => cases hOutline
    | select s' => exact ⟨rfl, (Item.enclosed.inj (List.cons.inj hOutline).1).2⟩
    | _ => exact h'.elim
  | _ => exact h.elim

/-- What an expression that is no bare select is, told by its term. -/
theorem Expression.SingleValued.of_outline {e : Expression} (h : e.SingleValued)
    (hBare : e.isSelect = false) {item : Item} (hOutline : e.outline = [item]) :
    match item with
    | .name name => e = .objectReference name
    | .integer n => ∃ type mapping, e = .constant (.int n) type mapping
    | .enclosed .exists o => ∃ s : Select, s.SingleValued ∧ s.outline = o ∧ e = .exists s
    | .enclosed .array o => ∃ s : Select, s.SingleValued ∧ s.outline = o ∧ e = .array s
    | .enclosed .block o => ∃ s : Select, s.SingleValued ∧ s.outline = o ∧ e = .scalarSubquery s
    | _ => False := by
  cases e with
  | select s => cases hBare
  | objectReference name =>
    obtain rfl := (List.cons.inj hOutline).1
    rfl
  | constant value type mapping =>
    cases value with
    | int n =>
      obtain rfl := (List.cons.inj hOutline).1
      exact ⟨type, mapping, rfl⟩
    | _ => exact h.elim
  | «exists» s =>
    obtain rfl := (List.cons.inj hOutline).1
    exact ⟨s, h, rfl, rfl⟩
  | array s =>
    obtain rfl := (List.cons.inj hOutline).1
    exact ⟨s, h, rfl, rfl⟩
  | scalarSubquery s =>
    obtain rfl := (List.cons.inj hOutline).1
    exact ⟨s, h, rfl, rfl⟩
  | isIn item values _ => cases values <;> exact h.elim
  | _ => exact h.elim

mutual

/-- An expression with delimited selects can be told from its outline, given whether it is
a bare select. -/
theorem Expression.untyped_eq : ∀ e : Expression, e.SingleValued → e.Delimited →
    ∀ e' : Expression, e'.SingleValued → e.isSelect = e'.isSelect → e.outline = e'.outline →
    e.untyped = e'.untyped
  | .select s, hs, hDelimited, e', he', hSelect, h => by
    cases e' with
    | select s' => exact congrArg Expression.select (s.untyped_eq hs hDelimited s' he' h)
    | _ => cases hSelect
  | .objectReference name, _, _, e', he', hSelect, h => by
    have hName : e' = .objectReference name := he'.of_outline hSelect.symm h.symm
    rw [hName]
  | .constant (.int n) _ (some mapping), _, _, e', he', hSelect, h => by
    obtain ⟨type', mapping', hConstant⟩ := he'.of_outline hSelect.symm h.symm
    rw [hConstant]
    rfl
  | .exists s, hs, hDelimited, e', he', hSelect, h => by
    obtain ⟨s', hs', hOutline, rfl⟩ := he'.of_outline hSelect.symm h.symm
    exact congrArg Expression.exists (s.untyped_eq hs hDelimited s' hs' hOutline.symm)
  | .array s, hs, hDelimited, e', he', hSelect, h => by
    obtain ⟨s', hs', hOutline, rfl⟩ := he'.of_outline hSelect.symm h.symm
    exact congrArg Expression.array (s.untyped_eq hs hDelimited s' hs' hOutline.symm)
  | .scalarSubquery s, hs, hDelimited, e', he', hSelect, h => by
    obtain ⟨s', hs', hOutline, rfl⟩ := he'.of_outline hSelect.symm h.symm
    exact congrArg Expression.scalarSubquery (s.untyped_eq hs hDelimited s' hs' hOutline.symm)
termination_by structural e => e

theorem untypedOptional_eq : ∀ e : Option Expression, SingleValuedOptional e →
    DelimitedOptional e → ∀ e' : Option Expression, SingleValuedOptional e' →
    (∀ x ∈ e'.toList, x.IsTerm) → outlineOfPredicate e = outlineOfPredicate e' →
    untypedOptional e = untypedOptional e'
  | none, _, _, none, _, _, _ => rfl
  | some e, he, ⟨hBare, hDelimited⟩, some e', he', hTerm', h =>
    congrArg some (e.untyped_eq he hDelimited e' he'
      (hBare.trans (hTerm' e' (List.mem_singleton_self _)).isSelect.symm) (List.cons.inj h).2)
termination_by structural e => e

/-- A select without bare ones in it can be told from its outline. -/
theorem Select.untyped_eq : ∀ s : Select, s.SingleValued → s.Delimited →
    ∀ t : Select, t.SingleValued → s.outline = t.outline → s.untyped = t.untyped
  | ⟨isDistinct, projection, singleValue, sources, predicate, orderings, offset, limit⟩,
      hs, hDelimited, t, ht, h => by
    have hDelimits := hs.delimits hDelimited
    -- the outline shows that no select stands bare in the other one either
    have hDelimits' : t.Delimits := by
      rw [ht.delimits_iff, ← h]
      exact hs.delimits_iff.mp hDelimits
    obtain ⟨hHeads, hFrom, hWhere, hOrder⟩ := (hs.parts hDelimits).cancel (ht.parts hDelimits') h
    obtain ⟨isDistinct', projection', singleValue', sources', predicate', orderings', offset',
      limit'⟩ := t
    obtain ⟨rfl, hValue⟩ := distinct_inj hHeads
    obtain ⟨rfl, sProjection, sSources, sPredicate, sOrderings, rfl, rfl⟩ := hs
    obtain ⟨rfl, tProjection, tSources, tPredicate, tOrderings, rfl, rfl⟩ := ht
    obtain ⟨dProjection, dSources, dPredicate, dOrderings⟩ := hDelimited
    obtain ⟨hRest, hKeys⟩ := List.forall_mem_append.mp hDelimits
    obtain ⟨hRest', hKeys'⟩ := List.forall_mem_append.mp hDelimits'
    obtain ⟨hProjection', hPredicate'⟩ := List.forall_mem_append.mp hRest'
    have hOutlines := Item.listed_inj (not_further_of_keys (List.forall_mem_map.mp hKeys))
      (not_further_of_keys (List.forall_mem_map.mp hKeys')) hOrder
    rw [Select.untyped, Select.untyped,
      untypedProjections_eq projection sProjection dProjection projection' tProjection
        (List.forall_mem_map.mp hProjection') hValue,
      untypedSources_eq sources sSources dSources sources' tSources hFrom,
      untypedOptional_eq predicate sPredicate dPredicate predicate' tPredicate hPredicate' hWhere,
      untypedSortKeys_eq orderings sOrderings dOrderings orderings' tOrderings
        (List.forall_mem_map.mp hKeys') hOutlines]
termination_by structural s => s

theorem untypedProjections_eq : ∀ ps : List Projection, SingleValuedProjections ps →
    DelimitedProjections ps → ∀ ps' : List Projection, SingleValuedProjections ps' →
    (∀ p ∈ ps', p.expression.IsTerm) → outlineOfProjections ps = outlineOfProjections ps' →
    untypedProjections ps = untypedProjections ps'
  | [], _, _, [], _, _, _ => rfl
  | [], _, _, [⟨_, _, _⟩], _, _, h => by cases h
  | [⟨_, _, _⟩], _, _, [], _, _, h => by cases h
  | [⟨expression, _, _⟩], ⟨rfl, hExpression⟩, ⟨⟨hBare, hDelimited⟩, _⟩, [⟨expression', _, _⟩],
      ⟨rfl, hExpression'⟩, hTerm', h => by
    have hSelect := (hTerm' _ List.mem_cons_self).isSelect
    have hUntyped := expression.untyped_eq hExpression hDelimited expression' hExpression'
      (hBare.trans hSelect.symm) (List.cons.inj h).2
    simp only [untypedProjections, hUntyped]
termination_by structural ps => ps

theorem untypedSources_eq : ∀ ss : List Source, SingleValuedSources ss → DelimitedSources ss →
    ∀ ss' : List Source, SingleValuedSources ss' → outlineOfSources ss = outlineOfSources ss' →
    untypedSources ss = untypedSources ss'
  | [], _, _, [], _, _ => rfl
  | [], _, _, [⟨_, _, _⟩], _, h => absurd h.symm (Item.sourced_ne_nil _ _ _)
  | [⟨_, _, _⟩], _, _, [], _, h => absurd h (Item.sourced_ne_nil _ _ _)
  | [⟨container, _, _⟩], ⟨hContainer, hSingle, _⟩, ⟨hDelimited, _⟩, [⟨container', _, _⟩],
      ⟨hContainer', hSingle', _⟩, h => by
    obtain ⟨item, hItem, hTerm⟩ := hSingle.contained hContainer
    obtain ⟨item', hItem', -⟩ := hSingle'.contained hContainer'
    rw [outlineOfSources, outlineOfSources, hItem, hItem'] at h
    obtain ⟨rfl, rfl, rfl⟩ := Item.sourced_inj hTerm h
    obtain ⟨hSelect, hOutline⟩ := contained_inj hContainer hContainer' (hItem.trans hItem'.symm)
    have hUntyped := container.untyped_eq hSingle hDelimited container' hSingle' hSelect hOutline
    simp only [untypedSources, hUntyped]
termination_by structural ss => ss

theorem untypedSortKeys_eq : ∀ ks : List SortKey, SingleValuedSortKeys ks →
    DelimitedSortKeys ks → ∀ ks' : List SortKey, SingleValuedSortKeys ks' →
    (∀ k ∈ ks', k.expression.IsTerm) → outlinesOfSortKeys ks = outlinesOfSortKeys ks' →
    untypedSortKeys ks = untypedSortKeys ks'
  | [], _, _, [], _, _, _ => rfl
  | [], _, _, ⟨_, _⟩ :: _, _, _, h => by cases h
  | ⟨_, _⟩ :: _, _, _, [], _, _, h => by cases h
  | ⟨expression, isAscending⟩ :: ks, ⟨hFirst, hRest⟩, ⟨⟨hBare, hDelimited⟩, dRest⟩,
      ⟨expression', isAscending'⟩ :: ks', ⟨hFirst', hRest'⟩, hTerm', h => by
    obtain ⟨hKey, hKeys⟩ := List.cons.inj h
    have hTerm := hTerm' _ List.mem_cons_self
    obtain ⟨hOutline, rfl⟩ := key_inj (hFirst.isTerm hBare) hTerm hKey
    have hUntyped := expression.untyped_eq hFirst hDelimited expression' hFirst'
      (hBare.trans hTerm.isSelect.symm) hOutline
    have hOthers := untypedSortKeys_eq ks hRest dRest ks' hRest'
      (fun k hk => hTerm' k (List.mem_cons_of_mem _ hk)) hKeys
    simp only [untypedSortKeys, hUntyped, hOthers]
termination_by structural ks => ks

end

/-! ## Queries -/

/-- **What the text tells about nested selects.** Two selects of single values are written
alike exactly if their outlines are the same, in which the clauses of bare selects have no
owner. If all selects inside one of them are delimited, the other one differs from it in
types, mappings and names of attributes at most. -/
theorem generate_text_determines {s t : Select} (hs : s.SingleValued) (ht : t.SingleValued)
    {registry registry' : Registry} {values values' : ParameterValues}
    {options : GeneratorOptions} {q q' : Query}
    (hQuery : s.generate registry values options = .ok q)
    (hQuery' : t.generate registry' values' options = .ok q') :
    (q.text = q'.text ↔ s.outline = t.outline) ∧
      (s.Delimited → q.text = q'.text → s.untyped = t.untyped) := by
  have hOutline := Select.outline_eq_of_text_eq hs ht hQuery hQuery'
  exact ⟨⟨hOutline, Select.text_eq_of_outline_eq hs ht hQuery hQuery'⟩,
    fun hDelimited hText => s.untyped_eq hs hDelimited t ht (hOutline hText)⟩

/-- A list of sorted items beside a source of its own. -/
def Select.delimitedSelects (type : DataType) : Select :=
  { Select.empty with
    singleValue := true
    projection := [⟨.array { Select.empty with
      singleValue := true
      projection := [⟨.objectReference "x", "", "x"⟩]
      sources := [⟨.objectReference "c", some "x", true⟩]
      orderings := [⟨.objectReference "b", false⟩] }, "", ""⟩]
    sources := [⟨.select { Select.empty with
      singleValue := true
      projection := [⟨.constant (.int (-1)) type (some (.json type)), "", ""⟩] },
      some "y", false⟩] }

/-- The same select under two types. -/
theorem delimitedSelects_determined :
    ∃ q, (Select.delimitedSelects .int32).generate .builtin [] = .ok q ∧
      (Select.delimitedSelects .object).generate .builtin [] = .ok q ∧
      (Select.delimitedSelects .int32).untyped = (Select.delimitedSelects .object).untyped := by
  have hSingle : ∀ type, (Select.delimitedSelects type).SingleValued := by
    intro type
    have hB : IsFreeName "b" := by decide
    have hC : IsFreeName "c" := by decide
    have hX : IsFreeName "x" := by decide
    have hY : IsFreeName "y" := by decide
    have hAlias : ∀ {name : String}, IsFreeName name → ∀ a ∈ some name, IsFreeName a := by
      rintro name h _ ⟨⟩
      exact h
    refine ⟨rfl, ⟨rfl, ?_⟩, ⟨trivial, ?_, hAlias hY⟩, trivial, trivial, rfl, rfl⟩
    · exact ⟨rfl, ⟨rfl, hX⟩, ⟨trivial, hC, hAlias hX⟩, trivial, ⟨hB, trivial⟩, rfl, rfl⟩
    · exact ⟨rfl, ⟨rfl, rfl⟩, trivial, trivial, trivial, rfl, rfl⟩
  have hDelimited : (Select.delimitedSelects .int32).Delimited := by
    refine ⟨⟨⟨rfl, ?_⟩, trivial⟩, ⟨?_, trivial⟩, trivial, trivial⟩
    · exact ⟨⟨⟨rfl, trivial⟩, trivial⟩, ⟨trivial, trivial⟩, trivial, ⟨rfl, trivial⟩, trivial⟩
    · exact ⟨⟨⟨rfl, trivial⟩, trivial⟩, trivial, trivial, trivial⟩
  let q : Query :=
    { text := "SELECT VALUE ARRAY(\n  SELECT VALUE x\n  FROM x IN c\n  ORDER BY b DESC)\n" ++
        "FROM (SELECT VALUE -1) y"
      parameters := [] }
  have hQuery : (Select.delimitedSelects .int32).generate .builtin [] = .ok q := rfl
  have hQuery' : (Select.delimitedSelects .object).generate .builtin [] = .ok q := rfl
  exact ⟨q, hQuery, hQuery',
    (generate_text_determines (hSingle _) (hSingle _) hQuery hQuery').2 hDelimited rfl⟩

/-- A select inside another one, either of which can own the source. -/
def Select.nestedSource (ofOuter : Bool) : Select :=
  let source : List Source := [⟨.objectReference "c", none, false⟩]
  { Select.empty with
    singleValue := true
    projection := [⟨.select { Select.empty with
      singleValue := true
      projection := [⟨.objectReference "a", "", ""⟩]
      sources := if ofOuter then [] else source }, "", ""⟩]
    sources := if ofOuter then source else [] }

/-- The source of a bare select is written as that of the select around it would be. -/
theorem not_generate_text_determines :
    ¬ ∀ s t : Select, s.SingleValued → t.SingleValued → ∀ q q',
      s.generate .builtin [] = .ok q → t.generate .builtin [] = .ok q' → q.text = q'.text →
        s.untyped = t.untyped := by
  intro h
  have hA : IsFreeName "a" := by decide
  have hC : IsFreeName "c" := by decide
  have hOuter : (Select.nestedSource true).SingleValued :=
    ⟨rfl, ⟨rfl, rfl, ⟨rfl, hA⟩, trivial, trivial, trivial, rfl, rfl⟩, ⟨trivial, hC, nofun⟩,
      trivial, trivial, rfl, rfl⟩
  have hInner : (Select.nestedSource false).SingleValued :=
    ⟨rfl, ⟨rfl, rfl, ⟨rfl, hA⟩, ⟨trivial, hC, nofun⟩, trivial, trivial, rfl, rfl⟩, trivial,
      trivial, trivial, rfl, rfl⟩
  have hUntyped := h (.nestedSource true) (.nestedSource false) hOuter hInner
    ⟨"SELECT VALUE SELECT VALUE a\nFROM c", []⟩ ⟨"SELECT VALUE SELECT VALUE a\nFROM c", []⟩
    rfl rfl rfl
  have hLength := congrArg (fun s : Select => s.sources.length) hUntyped
  cases hLength

end DocumentQuery
