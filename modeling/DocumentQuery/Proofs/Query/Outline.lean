import DocumentQuery.Proofs.Query.Placeholders
import DocumentQuery.Proofs.Text.Tokens

/-!
# Outlines of nested selects

A select that stands as an expression of its own is written without parentheses around
it, so that its clauses run into those of the select around it. The outline of a select
lists the clauses as they follow on each other; only what stands in parentheses is
nested.

The outline is all that the text shows: the text is the layout of the outline, and a
reader with a stack finds the outline again.

Main definitions and results:

* `Select.SingleValued` — selects of single values with names, integers and further such
  selects as expressions.
* `Select.outline` — the clauses of a select with those of bare selects among them.
* `Select.lower_outlines` — the layout of a select is that of its outline and is read as
  its outline.
* `Select.outline_eq_of_text_eq`, `Select.text_eq_of_outline_eq` — texts are equal exactly if
  outlines are.
-/

namespace DocumentQuery

open Text Layout

/-! ## Selects of single values -/

/-- The words that clauses are made with. -/
def clauseWords : List String :=
  ["SELECT", "DISTINCT", "VALUE", "FROM", "IN", "WHERE", "ORDER", "BY", "DESC", "EXISTS", "ARRAY"]

/-- A name that no clause is made with. -/
def IsFreeName (name : String) : Prop := IsIdentifier name ∧ name ∉ clauseWords

instance (name : String) : Decidable (IsFreeName name) :=
  inferInstanceAs (Decidable (IsIdentifier name ∧ name ∉ clauseWords))

/-- What a source reads from: a name or a select. -/
def Expression.IsContainer : Expression → Prop
  | .objectReference _ | .select _ => True
  | _ => False

mutual

/-- The expression is a name, an integer or a select of single values. -/
def Expression.SingleValued : Expression → Prop
  | .select select => select.SingleValued
  | .objectReference name => IsFreeName name
  | .constant (.int _) _ (some mapping) => mapping.rendering = .json
  | .exists subquery => subquery.SingleValued
  | .array subquery => subquery.SingleValued
  | .scalarSubquery subquery => subquery.SingleValued
  | _ => False
termination_by structural e => e

def SingleValuedOptional : Option Expression → Prop
  | none => True
  | some e => e.SingleValued
termination_by structural e => e

/-- The select gives single values, reads from a name or another such select if from
anything, and leaves out no rows. -/
def Select.SingleValued : Select → Prop
  | ⟨_, projection, singleValue, sources, predicate, orderings, offset, limit⟩ =>
    singleValue = true ∧ SingleValuedProjections projection ∧ SingleValuedSources sources ∧
      SingleValuedOptional predicate ∧ SingleValuedSortKeys orderings ∧ offset = none ∧
      limit = none
termination_by structural s => s

/-- Several values at once cannot be written. -/
def SingleValuedProjections : List Projection → Prop
  | [] => True
  | [⟨expression, aliasName, _⟩] => aliasName = "" ∧ expression.SingleValued
  | _ :: _ :: _ => False
termination_by structural ps => ps

def SingleValuedSources : List Source → Prop
  | [] => True
  | [⟨container, aliasName, _⟩] =>
    container.IsContainer ∧ container.SingleValued ∧ ∀ a ∈ aliasName, IsFreeName a
  | _ :: _ :: _ => False
termination_by structural ss => ss

def SingleValuedSortKeys : List SortKey → Prop
  | [] => True
  | ⟨expression, _⟩ :: ks => expression.SingleValued ∧ SingleValuedSortKeys ks
termination_by structural ks => ks

end

/-! ## Outlines -/

/-- How the parentheses around a select are written. -/
inductive Enclosure where
  /-- On one line with the select. -/
  | inline
  | block
  | exists
  | array
deriving DecidableEq

/-- A part of an outline. -/
inductive Item where
  | name (name : String)
  | integer (n : Int64)
  | enclosed (enclosure : Enclosure) (items : List Item)
  | select
  | distinct
  | value
  /-- The source comes next. -/
  | source
  /-- The alias of the source before it. -/
  | alias (name : String)
  /-- The name before it stands for the items of what comes next. -/
  | each
  | condition
  | ordering
  /-- One more key to sort by. -/
  | further
  | descending

/-- Items one after the other, the first behind `first`, the others behind commas. -/
def Item.listed (first : Item) : List (List Item) → List Item
  | [] => []
  | items :: rest => first :: items ++ listed .further rest

/-- A select that is read from is set in parentheses. -/
def Item.contained (outline : List Item) : Expression → List Item
  | .select s => [.enclosed (if s.isSimpleValue then .inline else .block) outline]
  | _ => outline

/-- What a source stands under together with its container. -/
def Item.sourced (container : List Item) (eachItem : Bool) : Option String → List Item
  | none => if eachItem then .source :: .each :: container else .source :: container
  | some aliasName =>
    if eachItem then .source :: .name aliasName :: .each :: container
    else .source :: container ++ [.alias aliasName]

mutual

def Expression.outline : Expression → List Item
  | .select select => select.outline
  | .objectReference name => [.name name]
  | .constant (.int n) _ _ => [.integer n]
  | .exists subquery => [.enclosed .exists subquery.outline]
  | .array subquery => [.enclosed .array subquery.outline]
  | .scalarSubquery subquery => [.enclosed .block subquery.outline]
  | _ => []
termination_by structural e => e

/-- The clauses of a select. Those of a bare select in one of them follow in its place. -/
def Select.outline : Select → List Item
  | ⟨isDistinct, projection, _, sources, predicate, orderings, _, _⟩ =>
    .select :: (if isDistinct then [.distinct] else []) ++ outlineOfProjections projection ++
      outlineOfSources sources ++ outlineOfPredicate predicate ++
      Item.listed .ordering (outlinesOfSortKeys orderings)
termination_by structural s => s

def outlineOfProjections : List Projection → List Item
  | [] => [.integer 1]
  | ⟨expression, _, _⟩ :: _ => .value :: expression.outline
termination_by structural ps => ps

def outlineOfSources : List Source → List Item
  | [] => []
  | ⟨container, aliasName, eachItem⟩ :: _ =>
    Item.sourced (Item.contained container.outline container) eachItem aliasName
termination_by structural ss => ss

def outlineOfPredicate : Option Expression → List Item
  | none => []
  | some e => .condition :: e.outline
termination_by structural e => e

def outlinesOfSortKeys : List SortKey → List (List Item)
  | [] => []
  | ⟨expression, isAscending⟩ :: ks =>
    (expression.outline ++ if isAscending then [] else [.descending]) :: outlinesOfSortKeys ks
termination_by structural ks => ks

end

/-! ## Layouts of outlines -/

def Enclosure.layout (l : Layout) : Enclosure → Layout
  | .inline => .text "(" :: l ++ [.text ")"]
  | .block => Layout.block "(" l ")"
  | .exists => Layout.block "EXISTS (" l ")"
  | .array => Layout.block "ARRAY(" l ")"

mutual

def Item.layout : Item → Layout
  | .name name => [.text name]
  | .integer n => [.text (String.ofList (Digits.writeInt n.toInt))]
  | .enclosed enclosure items => enclosure.layout (layoutOfItems items)
  | .select => [.text "SELECT "]
  | .distinct => [.text "DISTINCT "]
  | .value => [.text "VALUE "]
  | .source => [.newline, .text "FROM "]
  | .alias name => [.text " ", .text name]
  | .each => [.text " IN "]
  | .condition => [.newline, .text "WHERE "]
  | .ordering => [.newline, .text "ORDER BY "]
  | .further => [.text ", "]
  | .descending => [.text " DESC"]
termination_by structural i => i

def layoutOfItems : List Item → Layout
  | [] => []
  | item :: items => item.layout ++ layoutOfItems items
termination_by structural is => is

end

theorem layoutOfItems_append (items items' : List Item) :
    layoutOfItems (items ++ items') = layoutOfItems items ++ layoutOfItems items' := by
  induction items with
  | nil => rfl
  | cons item items ih =>
    rw [List.cons_append, layoutOfItems, layoutOfItems, ih, List.append_assoc]

/-! ## The reader -/

namespace Outliner

structure State where
  /-- What has been read between the parentheses that are open. -/
  items : List Item
  /-- What the next parenthesis is written as, unless a line ends behind it. -/
  enclosure : Enclosure
  /-- What has been read around each parenthesis that is open. -/
  frames : List (Enclosure × List Item)

def State.add (state : State) (item : Item) : State := { state with items := state.items ++ [item] }

/-- A select follows on a line of its own. -/
def opened : List (Enclosure × List Item) → List (Enclosure × List Item)
  | (.inline, items) :: frames => (.block, items) :: frames
  | frames => frames

def isTerm : Item → Bool
  | .name _ | .integer _ | .enclosed _ _ => true
  | _ => false

/-- A name behind a term is the alias of a source. -/
def behindTerm (items : List Item) : Bool := items.getLast?.any isTerm

/-- What a word of clauses does. -/
def clauseWord? : String → Option (State → State)
  | "SELECT" => some (·.add .select)
  | "DISTINCT" => some (·.add .distinct)
  | "VALUE" => some (·.add .value)
  | "FROM" => some (·.add .source)
  | "IN" => some (·.add .each)
  | "WHERE" => some (·.add .condition)
  | "ORDER" => some (·.add .ordering)
  | "BY" => some id
  | "DESC" => some (·.add .descending)
  | "EXISTS" => some ({ · with enclosure := .exists })
  | "ARRAY" => some ({ · with enclosure := .array })
  | _ => none

/-- A word that no clause is made with. -/
def freeWord (state : State) (s : String) : Item :=
  if behindTerm state.items then .alias s
  else
    match integer? s with
    | some n => .integer (Int64.ofInt n)
    | none => .name s

/-- One token more. -/
def step (state : State) : Token → State
  | .word s =>
    match clauseWord? s with
    | some change => change state
    | none => state.add (freeWord state s)
  | .comma => state.add .further
  | .opening _ => ⟨[], .inline, (state.enclosure, state.items) :: state.frames⟩
  | .closing _ =>
    match state.frames with
    | (enclosure, items) :: frames =>
      ⟨items ++ [.enclosed enclosure state.items], .inline, frames⟩
    | [] => state
  -- a line that ends elsewhere than behind a parenthesis makes no difference
  | .lineEnd => if state.items.isEmpty then { state with frames := opened state.frames } else state
  | .quoted _ => state

end Outliner

open Outliner

theorem behindTerm_concat (items : List Item) (item : Item) :
    behindTerm (items ++ [item]) = isTerm item := by
  simp [behindTerm]

theorem clauseWord?_eq_none {s : String} (h : s ∉ clauseWords) : clauseWord? s = none := by
  unfold clauseWord?
  split <;> first
    | rfl
    | exact absurd (by decide) h

/-! ## Layouts before the reader -/

/-- An operand may follow. -/
abbrev Ready (items : List Item) : Prop := behindTerm items = false

namespace Layout

/-- The layout is that of the outline and, behind items of some kind, is read as the
outline. -/
structure Outlines (before : List Item → Prop) (l : Layout) (o : List Item) : Prop where
  eq : l = layoutOfItems o
  takes : ∀ items frames, before items →
    Takes step ⟨items, .inline, frames⟩ ⟨items ++ o, .inline, frames⟩ l

/-- A clause, which begins on a line of its own if it is there at all. -/
structure OutlinesClause (l : Layout) (o : List Item) : Prop where
  outlines : Outlines (· ≠ []) l o
  stops : Stops l

/-- The layouts are those of the outlines one after the other. -/
inductive OutlinesAll : List Layout → List (List Item) → Prop where
  | nil : OutlinesAll [] []
  | cons {l : Layout} {ls : List Layout} {o : List Item} {os : List (List Item)}
      (h : Outlines Ready l o) (hRest : OutlinesAll ls os) : OutlinesAll (l :: ls) (o :: os)

variable {p p' : List Item → Prop} {l l' : Layout} {ls : List Layout} {o o' : List Item}
  {os : List (List Item)}

theorem Outlines.mono (h : Outlines p l o) (hp : ∀ items, p' items → p items) :
    Outlines p' l o :=
  ⟨h.eq, fun items frames hItems => h.takes items frames (hp items hItems)⟩

theorem Outlines.append (h : Outlines p l o) (h' : Outlines p' l' o')
    (hBetween : ∀ items, p items → p' (items ++ o)) (hStops : Stops l') :
    Outlines p (l ++ l') (o ++ o') := by
  refine ⟨by rw [h.eq, h'.eq, layoutOfItems_append], fun items frames hItems => ?_⟩
  have hSecond := h'.takes (items ++ o) frames (hBetween items hItems)
  rw [List.append_assoc] at hSecond
  exact (h.takes items frames hItems).append hSecond hStops

theorem outlinesClause_nil : OutlinesClause [] [] :=
  ⟨⟨rfl, fun items frames _ => by rw [List.append_nil]; exact takes_nil⟩, stops_nil⟩

/-- A text that stands for one item. -/
theorem Outlines.text_cons (h : Outlines p l o) (item : Item) {s : String} {ts : List Token}
    (hLayout : item.layout = [.text s]) (hs : Spells s ts)
    (hStep : ∀ state, ts.foldl step state = state.add item)
    (hBetween : ∀ items, p' items → p (items ++ [item])) :
    Outlines p' (.text s :: l) (item :: o) := by
  refine ⟨by rw [layoutOfItems, hLayout, h.eq]; rfl, fun items frames hItems => ?_⟩
  have hRest := h.takes (items ++ [item]) frames (hBetween items hItems)
  rw [← List.append_cons] at hRest
  exact hRest.text_cons hs (hStep _)

/-- An operand behind a word of clauses. -/
theorem Outlines.text_cons_operand (h : Outlines Ready l o) (item : Item) {s : String}
    {ts : List Token} (hLayout : item.layout = [.text s]) (hs : Spells s ts)
    (hStep : ∀ state, ts.foldl step state = state.add item) (hItem : isTerm item = false) :
    Outlines p (.text s :: l) (item :: o) :=
  h.text_cons item hLayout hs hStep fun items _ => (behindTerm_concat items item).trans hItem

/-- The line end before a clause changes nothing, since the clause is not the first of
its select. -/
theorem Outlines.clause (h : Outlines Ready l o) (item : Item) {s : String} {ts : List Token}
    (hLayout : item.layout = [.newline, .text s]) (hs : Spells s ts)
    (hStep : ∀ state, ts.foldl step state = state.add item) (hItem : isTerm item = false) :
    OutlinesClause (.newline :: .text s :: l) (item :: o) := by
  refine ⟨⟨by rw [layoutOfItems, hLayout, h.eq]; rfl, fun items frames hItems => ?_⟩,
    stops_newline _⟩
  have hRest := h.takes (items ++ [item]) frames ((behindTerm_concat items item).trans hItem)
  rw [← List.append_cons] at hRest
  have hLine : step ⟨items, .inline, frames⟩ .lineEnd = ⟨items, .inline, frames⟩ := by
    rw [step, if_neg (by rwa [List.isEmpty_iff])]
  exact (hRest.text_cons hs (hStep ⟨items, .inline, frames⟩)).newline_cons hLine

/-! ### Operands -/

theorem outlines_name {name : String} (h : IsFreeName name) :
    Outlines Ready [.text name] [.name name] := by
  refine ⟨rfl, fun items frames hItems => ?_⟩
  have hStep : step ⟨items, .inline, frames⟩ (.word name) =
      ⟨items ++ [.name name], .inline, frames⟩ := by
    simp only [step, clauseWord?_eq_none h.2, freeWord, hItems, h.1.integer?_eq_none]
    rfl
  exact takes_nil.word_cons h.1.isName.isToken.spells hStep stops_nil

/-- Behind a term a name is read as an alias. -/
theorem outlines_alias {name : String} (h : IsFreeName name) :
    Outlines (behindTerm · = true) [.text " ", .text name] [.alias name] := by
  refine ⟨rfl, fun items frames hItems => ?_⟩
  have hStep : [Token.word name].foldl step ⟨items, .inline, frames⟩ =
      ⟨items ++ [.alias name], .inline, frames⟩ := by
    simp only [List.foldl_cons, step, clauseWord?_eq_none h.2, freeWord, hItems]
    rfl
  have hBlank : Spells " " [] := fun _ => rfl
  exact (takes_nil.word_cons h.1.isName.isToken.spells hStep stops_nil).text_cons hBlank rfl

theorem outlines_integer (n : Int64) :
    Outlines Ready [.text (String.ofList (Digits.writeInt n.toInt))] [.integer n] := by
  refine ⟨rfl, fun items frames hItems => ?_⟩
  have hFree : String.ofList (Digits.writeInt n.toInt) ∉ clauseWords := by
    intro hMem
    -- no word of clauses denotes an integer
    have hNone : ∀ w ∈ clauseWords, integer? w = none := by decide
    have hSome := integer?_writeInt n
    rw [hNone _ hMem] at hSome
    cases hSome
  have hStep : step ⟨items, .inline, frames⟩ (.word (String.ofList (Digits.writeInt n.toInt))) =
      ⟨items ++ [.integer n], .inline, frames⟩ := by
    simp only [step, clauseWord?_eq_none hFree, freeWord, hItems, integer?_writeInt,
      Int64.ofInt_toInt]
    rfl
  exact takes_nil.word_cons (isToken_writeInt _).spells hStep stops_nil

theorem Outlines.enclosed (h : Outlines Ready l o) (enclosure : Enclosure) :
    Outlines Ready (enclosure.layout l) [.enclosed enclosure o] := by
  refine ⟨by rw [layoutOfItems, Item.layout, ← h.eq]; exact (List.append_nil _).symm,
    fun items frames _ => ?_⟩
  -- behind the parenthesis nothing has been read, so that an operand may follow
  have hInside := fun enclosure => h.takes [] ((enclosure, items) :: frames) rfl
  cases enclosure with
  | inline =>
    exact ((hInside .inline).text_cons spells_opening rfl).concat_text spells_closing rfl rfl rfl
  | block => exact (hInside .block).block spells_opening rfl spells_closing rfl rfl rfl
  | «exists» =>
    have hOpening : Spells "EXISTS (" [.word "EXISTS", .opening false] := fun _ => rfl
    exact (hInside .exists).block hOpening rfl spells_closing rfl rfl rfl
  | array =>
    have hOpening : Spells "ARRAY(" [.word "ARRAY", .opening false] := fun _ => rfl
    exact (hInside .array).block hOpening rfl spells_closing rfl rfl rfl

/-! ### Clauses -/

theorem spells_descending : SpellsIfStopped " DESC" [.word "DESC"] := by
  intro rest hRest
  have hWord : IsToken "DESC" := IsName.isToken (by decide)
  exact tokens_word hWord hRest

/-- A key to sort by. -/
theorem Outlines.key (h : Outlines Ready l o) (isAscending : Bool) :
    Outlines Ready (if isAscending then l else l ++ [.text " DESC"])
      (o ++ if isAscending then [] else [.descending]) := by
  cases isAscending with
  | true =>
    rw [if_pos rfl, if_pos rfl, List.append_nil]
    exact h
  | false =>
    have hWord : Outlines (fun _ => True) [.text " DESC"] [.descending] :=
      ⟨rfl, fun _ _ _ => takes_nil.word_cons spells_descending rfl stops_nil⟩
    exact h.append hWord (fun _ _ => trivial) (stops_text rfl rfl _)

/-- The keys behind the first one follow commas. -/
theorem OutlinesAll.listed (h : OutlinesAll ls os) : ∀ l o, Outlines Ready l o →
    Outlines Ready (separated [.text ", "] (l :: ls)) (o ++ Item.listed .further os) := by
  induction h with
  | nil =>
    intro l o hFirst
    rw [Item.listed, List.append_nil]
    exact hFirst
  | cons hSecond _ ih =>
    intro l o hFirst
    have hRest := (ih _ _ hSecond).text_cons_operand (p := fun _ => True) .further rfl
      spells_comma (fun _ => rfl) rfl
    have hAll := hFirst.append hRest (fun _ _ => trivial) (stops_text rfl rfl _)
    rw [separated_cons, List.append_assoc]
    exact hAll

theorem OutlinesAll.orderings (h : OutlinesAll ls os) :
    OutlinesClause
      (if ls.isEmpty then [] else Lowering.clause "ORDER BY " (separated [.text ", "] ls))
      (Item.listed .ordering os) := by
  have hKeyword : Spells "ORDER BY " [.word "ORDER", .word "BY"] := fun _ => rfl
  cases h with
  | nil => exact outlinesClause_nil
  | cons hFirst hRest =>
    exact (hRest.listed _ _ hFirst).clause .ordering rfl hKeyword (fun _ => rfl) rfl

/-- The clauses of a select after each other. -/
theorem outlines_select (isDistinct : Bool) {lp ls lw lo : Layout} {op os ow oo : List Item}
    (hp : Outlines Ready lp op) (hs : OutlinesClause ls os) (hw : OutlinesClause lw ow)
    (ho : OutlinesClause lo oo) :
    Outlines Ready
      (.text "SELECT " :: (if isDistinct then [.text "DISTINCT "] else []) ++ lp ++ ls ++ lw ++ lo)
      (.select :: (if isDistinct then [.distinct] else []) ++ op ++ os ++ ow ++ oo) := by
  have hBehind : ∀ {o : List Item} (items : List Item), items ≠ [] → items ++ o ≠ [] := by
    intro o items hItems hNil
    exact hItems (List.append_eq_nil_iff.mp hNil).1
  -- behind the first word of the select there is always something that has been read
  have hProjections : Outlines (fun items => Ready items ∧ items ≠ []) lp op :=
    hp.mono fun _ => And.left
  have hClauses := ((hProjections.append hs.outlines (fun items h => hBehind items h.2)
    hs.stops).append hw.outlines (fun items h => hBehind items h.2) hw.stops).append ho.outlines
    (fun items h => hBehind items h.2) ho.stops
  have hReady : ∀ (item : Item), isTerm item = false → ∀ items : List Item,
      Ready (items ++ [item]) ∧ items ++ [item] ≠ [] :=
    fun item hItem items => ⟨(behindTerm_concat items item).trans hItem, by simp⟩
  have hSelect : Spells "SELECT " [.word "SELECT"] := fun _ => rfl
  have hDistinct : Spells "DISTINCT " [.word "DISTINCT"] := fun _ => rfl
  simp only [List.cons_append, List.append_assoc] at hClauses ⊢
  cases isDistinct with
  | false => exact hClauses.text_cons .select rfl hSelect (fun _ => rfl) fun _ _ => hReady _ rfl _
  | true =>
    have hWord : Outlines (fun _ => True) _ _ :=
      hClauses.text_cons .distinct rfl hDistinct (fun _ => rfl) fun _ _ => hReady _ rfl _
    exact hWord.text_cons .select rfl hSelect (fun _ => rfl) fun _ _ => trivial

end Layout

open Lowering

/-! ## Trees -/

namespace Lowering

/-- The source of a select, whose container an alias may follow. -/
theorem outlines_source {container : Lowering Layout} {o : List Item}
    (h : Yields (Layout.Outlines Ready · o) container)
    (hTerm : ∀ items, behindTerm (items ++ o) = true) (eachItem : Bool)
    {aliasName : Option String} (hAlias : ∀ a ∈ aliasName, IsFreeName a) :
    Yields (Layout.OutlinesClause · (Item.sourced o eachItem aliasName)) (do
      return clause "FROM " (← source aliasName eachItem container)) := by
  have hKeyword : Spells "FROM " [.word "FROM"] := fun _ => rfl
  have hClause : ∀ {l : Layout} {o : List Item}, Layout.Outlines Ready l o →
      Layout.OutlinesClause (clause "FROM " l) (.source :: o) :=
    fun h => h.clause .source rfl hKeyword (fun _ => rfl) rfl
  cases aliasName with
  | none =>
    cases eachItem with
    -- items without a name cannot be written
    | true => exact (yields_throw (P := fun _ => False) _).bind fun _ h => h.elim
    | false => exact h.bind fun _ hl => yields_pure (hClause hl)
  | some aliasName =>
    have hName := hAlias aliasName rfl
    cases eachItem with
    | true =>
      have hIn : Spells " IN " [.word "IN"] := fun _ => rfl
      refine (h.bind fun l hl => yields_pure ?_).bind fun l hl => yields_pure (hClause hl)
      have hEach := hl.text_cons_operand (p := fun _ => True) .each rfl hIn (fun _ => rfl) rfl
      exact (outlines_name hName).append hEach (fun _ _ => trivial) (stops_text rfl rfl _)
    | false =>
      refine (h.bind fun l hl => yields_pure ?_).bind fun l hl => yields_pure (hClause hl)
      exact hl.append (outlines_alias hName) (fun items _ => hTerm items) (stops_text rfl rfl _)

/-- A source has brackets of its own around a select. -/
theorem outlines_derivedSource {select : Lowering Layout} {o : List Item}
    (h : Yields (Layout.Outlines Ready · o) select) (isSimple : Bool) :
    Yields (Layout.Outlines Ready · [.enclosed (if isSimple then .inline else .block) o])
      (derivedSource isSimple select) := by
  cases isSimple with
  | true => exact h.bind fun _ hl => yields_pure (hl.enclosed .inline)
  | false => exact h.bind fun _ hl => yields_pure (hl.enclosed .block)

/-- What follows the projections of a select. -/
theorem outlines_clauses (isDistinct : Bool) {projections : Layout} {op os ow : List Item}
    {oks : List (List Item)} (hp : Layout.Outlines Ready projections op) {source : Lowering Layout}
    (hs : Yields (Layout.OutlinesClause · os) source) {predicate : Lowering (Option Layout)}
    (hw : Yields (fun l => Layout.OutlinesClause
      (match l with
        | some l => clause "WHERE " l
        | none => []) ow) predicate)
    {orderings : Lowering (List Layout)} (ho : Yields (Layout.OutlinesAll · oks) orderings)
    {paging : Lowering Layout} (hPaging : Yields (· = []) paging) :
    Yields (Layout.Outlines Ready · (.select :: (if isDistinct then [.distinct] else []) ++ op ++
        os ++ ow ++ Item.listed .ordering oks)) (do
      let source ← source
      let predicate ← predicate
      let orderings ← orderings
      let paging ← paging
      return .text "SELECT " :: (if isDistinct then [.text "DISTINCT "] else []) ++ projections ++
        source ++
        (match predicate with
          | some predicate => clause "WHERE " predicate
          | none => []) ++
        (if orderings.isEmpty then []
          else clause "ORDER BY " (Layout.separated [.text ", "] orderings)) ++
        paging) := by
  refine hs.bind fun ls hs => hw.bind fun lw hw => ho.bind fun lo ho => hPaging.bind ?_
  rintro _ rfl
  rw [List.append_nil]
  exact yields_pure (outlines_select isDistinct hp hs hw ho.orderings)

end Lowering

section Trees

variable (ctx : Context)

mutual

/-- The layout of an expression is that of its outline and is read as its outline. -/
theorem Expression.lower_outlines : ∀ e : Expression, e.SingleValued →
    Yields (Layout.Outlines Ready · e.outline) (e.lower ctx)
  | .select select, h => select.lower_outlines h
  | .objectReference _, h => yields_pure (outlines_name h)
  | .constant (.int n) _ (some ⟨type, rendering⟩), h => by
    obtain rfl : rendering = .json := h
    exact yields_pure (outlines_integer n)
  | .exists subquery, h => (subquery.lower_outlines h).bind fun _ hl =>
    yields_pure (hl.enclosed .exists)
  | .array subquery, h => (subquery.lower_outlines h).bind fun _ hl =>
    yields_pure (hl.enclosed .array)
  | .scalarSubquery subquery, h => (subquery.lower_outlines h).bind fun _ hl =>
    yields_pure (hl.enclosed .block)
termination_by structural e => e

/-- The layout of a select is that of its outline and is read as its outline. -/
theorem Select.lower_outlines : ∀ s : Select, s.SingleValued →
    Yields (Layout.Outlines Ready · s.outline) (s.lower ctx)
  | ⟨isDistinct, projection, singleValue, sources, predicate, orderings, offset, limit⟩,
      ⟨hSingle, hProjection, hSources, hPredicate, hOrderings, hOffset, hLimit⟩ => by
    subst hSingle hOffset hLimit
    -- what follows is the same whether there is a projection or not
    have hRest := fun (lp : Layout)
        (hp : Layout.Outlines Ready lp (outlineOfProjections projection)) =>
      outlines_clauses isDistinct hp (lowerSources_outlines sources hSources)
        (lowerPredicate_outlines predicate hPredicate)
        (lowerSortKeys_outlines orderings hOrderings)
        (yields_pure rfl : Yields (· = [])
          (paging (lowerOptional ctx none) (lowerOptional ctx none)))
    match projection, hProjection with
    | [], _ => exact hRest _ (outlines_integer 1)
    | [⟨expression, _, name⟩], ⟨rfl, hExpression⟩ =>
      -- the one value is written without the name of its attribute
      have hKeyword : Spells "VALUE " [.word "VALUE"] := fun _ => rfl
      have hProjections : Yields (fun ls => ∃ l, ls = [l] ∧ Layout.Outlines Ready l
          expression.outline) (lowerProjections ctx .value [⟨expression, "", name⟩]) :=
        (expression.lower_outlines hExpression).bind fun l hl => yields_pure ⟨l, rfl, hl⟩
      refine hProjections.bind ?_
      rintro _ ⟨l, rfl, hl⟩
      exact hRest _ (hl.text_cons_operand .value rfl hKeyword (fun _ => rfl) rfl)
termination_by structural s => s

theorem lowerSources_outlines : ∀ ss : List Source, SingleValuedSources ss →
    Yields (Layout.OutlinesClause · (outlineOfSources ss)) (lowerSources ctx ss)
  | [], _ => yields_pure outlinesClause_nil
  | [⟨container, _, eachItem⟩], ⟨hContainer, hSingle, hAlias⟩ => by
    have ih := container.lower_outlines hSingle
    cases container with
    | objectReference name =>
      exact outlines_source ih (fun items => behindTerm_concat items _) eachItem hAlias
    | select select =>
      exact outlines_source (outlines_derivedSource ih select.isSimpleValue)
        (fun items => behindTerm_concat items _) eachItem hAlias
    | _ => exact hContainer.elim
termination_by structural ss => ss

theorem lowerPredicate_outlines : ∀ e : Option Expression, SingleValuedOptional e →
    Yields (fun l => Layout.OutlinesClause
      (match l with
        | some l => Lowering.clause "WHERE " l
        | none => []) (outlineOfPredicate e)) (lowerOptional ctx e)
  | none, _ => yields_pure outlinesClause_nil
  | some e, h =>
    have hKeyword : Spells "WHERE " [.word "WHERE"] := fun _ => rfl
    (e.lower_outlines h).bind fun _ hl =>
      yields_pure (hl.clause .condition rfl hKeyword (fun _ => rfl) rfl)
termination_by structural e => e

theorem lowerSortKeys_outlines : ∀ ks : List SortKey, SingleValuedSortKeys ks →
    Yields (Layout.OutlinesAll · (outlinesOfSortKeys ks)) (lowerSortKeys ctx ks)
  | [], _ => yields_pure .nil
  | ⟨expression, isAscending⟩ :: ks, ⟨hFirst, hRest⟩ =>
    (expression.lower_outlines hFirst).bind fun _ hl =>
      (lowerSortKeys_outlines ks hRest).bind fun _ hls =>
        yields_pure (.cons (hl.key isAscending) hls)
termination_by structural ks => ks

end

end Trees

/-! ## Queries -/

section Queries

variable {s t : Select} {registry registry' : Registry} {values values' : ParameterValues}
  {options options' : GeneratorOptions} {q q' : Query}

theorem Select.exists_outlines (hs : s.SingleValued)
    (hQuery : s.generate registry values options = .ok q) :
    ∃ l : Layout, l.Outlines Ready s.outline ∧ q.text = l.render options.indentSize := by
  rw [Select.generate_eq, map_eq_ok] at hQuery
  obtain ⟨r, hLower, rfl⟩ := hQuery
  exact ⟨r.1, s.lower_outlines _ hs {} r hLower, rfl⟩

/-- The text shows the outline. -/
theorem Select.outline_eq_of_text_eq (hs : s.SingleValued) (ht : t.SingleValued)
    (hQuery : s.generate registry values options = .ok q)
    (hQuery' : t.generate registry' values' options' = .ok q') (hText : q.text = q'.text) :
    s.outline = t.outline := by
  obtain ⟨l, hl, hRender⟩ := Select.exists_outlines hs hQuery
  obtain ⟨l', hl', hRender'⟩ := Select.exists_outlines ht hQuery'
  have hRead := (hl.takes [] [] rfl).render options.indentSize
  have hRead' := (hl'.takes [] [] rfl).render options'.indentSize
  rw [← hRender, hText, hRender', hRead'] at hRead
  exact (State.mk.inj hRead).1.symm

/-- The text shows nothing but the outline. -/
theorem Select.text_eq_of_outline_eq (hs : s.SingleValued) (ht : t.SingleValued)
    (hQuery : s.generate registry values options = .ok q)
    (hQuery' : t.generate registry' values' options = .ok q') (h : s.outline = t.outline) :
    q.text = q'.text := by
  obtain ⟨l, hl, hRender⟩ := Select.exists_outlines hs hQuery
  obtain ⟨l', hl', hRender'⟩ := Select.exists_outlines ht hQuery'
  rw [hRender, hRender', hl.eq, hl'.eq, h]

end Queries

end DocumentQuery
