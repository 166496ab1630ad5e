import DocumentQuery.Proofs.Query.SideBySide
import DocumentQuery.Proofs.Query.Placeholders
import DocumentQuery.Proofs.Text.Composition

/-!
# What the layouts of trees are put together from

The layout of a tree is composed of a fixed list of words, the names of the tree, literals,
and what its raw fragments bring in; every bracket that a node opens it closes behind its
parts. Which of these texts are plain is left open, so that one induction over trees serves
every property of layouts that composition preserves.

Main definitions:

* `Select.names` — the names of a tree.
* `Wording` — the words and names that trees are written with are plain.

Main result:

* `Select.lower_composed` — the layout of a tree is composed of plain texts.
-/

namespace DocumentQuery

open Lowering Layout

/-! ## Names of a tree -/

mutual

/-- The names in an expression: of references, properties, functions and parameters, and the
aliases of projections and sources. -/
def Expression.names : Expression → List String
  | .select select => select.names
  | .objectReference name => [name]
  | .scalarReference name _ => [name]
  | .keyAccess object property _ _ => property :: object.names
  | .objectAccess object property => property :: object.names
  | .entityProjection access => access.names
  | .objectArrayProjection access => access.names
  | .binary _ left right _ _ => left.names ++ right.names
  | .unary _ operand _ _ => operand.names
  | .conditional test ifTrue ifFalse _ _ => test.names ++ (ifTrue.names ++ ifFalse.names)
  | .function name arguments _ _ => name :: namesOfAll arguments
  | .constant _ _ _ => []
  | .parameter name _ _ => [name]
  | .isIn item none _ => item.names
  | .isIn item (some values) _ => item.names ++ namesOfAll values
  | .arrayConstant items => namesOfAll items
  | .exists subquery => subquery.names
  | .array subquery => subquery.names
  | .scalarSubquery subquery => subquery.names
  | .fromSql _ _ => []
termination_by structural e => e

def namesOfAll : List Expression → List String
  | [] => []
  | e :: es => e.names ++ namesOfAll es
termination_by structural es => es

def namesOfOptional : Option Expression → List String
  | none => []
  | some e => e.names
termination_by structural e => e

/-- The names in a select. -/
def Select.names : Select → List String
  | ⟨_, projection, _, sources, predicate, orderings, offset, limit⟩ =>
    namesOfProjections projection ++ (namesOfSources sources ++ (namesOfOptional predicate ++
      (namesOfSortKeys orderings ++ (namesOfOptional offset ++ namesOfOptional limit))))
termination_by structural s => s

def namesOfProjections : List Projection → List String
  | [] => []
  | ⟨expression, aliasName, _⟩ :: ps =>
    aliasName :: (expression.names ++ namesOfProjections ps)
termination_by structural ps => ps

def namesOfSources : List Source → List String
  | [] => []
  | ⟨container, aliasName, _⟩ :: ss => aliasName.toList ++ (container.names ++ namesOfSources ss)
termination_by structural ss => ss

def namesOfSortKeys : List SortKey → List String
  | [] => []
  | ⟨expression, _⟩ :: ks => expression.names ++ namesOfSortKeys ks
termination_by structural ks => ks

end

/-! ## Texts of nodes -/

namespace Layout

/-- The texts that nodes are written with, apart from brackets. -/
def words : List String :=
  ["SELECT ", "DISTINCT ", "VALUE", "VALUE ", "1", "FROM ", "WHERE ", "ORDER BY ", "OFFSET ", "0",
    " LIMIT ", " DESC", ", ", ",", " AS ", " IN ", " ", " ? ", " : ", " + ", " - ", " * ", " / ",
    " % ", " | ", " & ", " ^ ", " << ", " >> ", " AND ", " OR ", " = ", " != ", " > ", " >= ",
    " < ", " <= ", " ?? ", " || ", "+", "-", "NOT", "~"]

/-- The brackets that nodes are written with. -/
def brackets : List (String × String) :=
  [("(", ")"), ("[", "]"), ("\x7b", "\x7d"), (" IN (", ")"), (" NOT IN (", ")"),
    ("EXISTS (", ")"), ("ARRAY(", ")")]

end Layout

theorem BinaryOperator.tokenFor?_mem_words {operator : BinaryOperator} {left : DataType}
    {token : String} (h : operator.tokenFor? left = some token) : token ∈ Layout.words := by
  unfold tokenFor? at h
  split at h
  · obtain rfl := Option.some.inj h
    decide
  · cases operator <;> cases h <;> decide

theorem UnaryOperator.token?_mem_words {operator : UnaryOperator} {operand : DataType}
    {token : String} (h : operator.token? operand = some token) : token ∈ Layout.words := by
  cases operator with
  | plus | negate =>
    cases h
    decide
  | not =>
    obtain rfl := Option.some.inj h
    split <;> decide
  | convert => cases h

/-- The texts that nodes are written with are plain, as are literals, and names wherever they
stand. -/
structure Wording (Name Plain : String → Prop) (Pair : String → String → Prop) : Prop where
  word : ∀ word ∈ Layout.words, Plain word
  bracket : ∀ bracket ∈ Layout.brackets, Pair bracket.1 bracket.2
  literal : ∀ mapping value literal, TypeMapping.literal mapping value = .ok literal →
    Plain literal
  name : ∀ name, Name name → Plain name
  property : ∀ name, Name name → Plain ("[\"" ++ name ++ "\"]")
  label : ∀ name, Name name → Plain ("\"" ++ name ++ "\" : ")
  reference : ∀ name, Name name → Plain (referenceTo name)

/-- A raw fragment is set in as a layout with some property. -/
def Step.Sets (ctx : Context) (P : Layout → Prop) : Step → Prop
  | .raw sql arguments => Yields P (fromSql ctx sql arguments)
  | _ => True

section

variable {Name Plain : String → Prop} {Pair : String → String → Prop}

/-- A raw fragment is composed if every line that becomes of it is plain. -/
theorem Lowering.composed_fragment {ctx : Context} {sql : String} {arguments : RawArguments}
    (hPair : Pair "(" ")")
    (hLines : ∀ b c xs text, (substitutions ctx arguments).run b = .ok (xs, c) →
      Template.fill sql xs = .ok text → ∀ line ∈ Text.linesOf text, Plain line) :
    Yields (Composed Plain Pair) (fromSql ctx sql arguments) := by
  intro b r hr
  obtain ⟨xs, text, hSubstitutions, hText, hLayout⟩ := fromSql_eq_ok hr
  rw [hLayout]
  exact (composed_ofLines (hLines b r.2 xs text hSubstitutions hText)).block hPair

namespace Wording

variable (w : Wording Name Plain Pair)
include w

theorem composed_word {word : String} {l : Layout} (h : Composed Plain Pair l)
    (hWord : word ∈ Layout.words) : Composed Plain Pair (.text word :: l) :=
  h.text_cons (w.word word hWord)

theorem composed_commas {items : List Layout} (h : ∀ l ∈ items, Composed Plain Pair l) :
    Composed Plain Pair (Layout.separated [.text ", "] items) :=
  .separated (.text (w.word ", " (by decide))) h

/-- Layouts between commas, in brackets. -/
theorem composed_list {items : List Layout} (h : ∀ l ∈ items, Composed Plain Pair l)
    {opening closing : String} (hBracket : (opening, closing) ∈ Layout.brackets) :
    Composed Plain Pair
      (.text opening :: Layout.separated [.text ", "] items ++ [.text closing]) :=
  .enclosed (w.bracket _ hBracket) (w.composed_commas h)

/-! ### Parts of selects and expressions -/

theorem composed_constant (value : Value) (mapping : Option TypeMapping) :
    Yields (Composed Plain Pair) (constant value mapping) := by
  cases mapping with
  | none => exact yields_throw _
  | some mapping =>
    cases hLiteral : mapping.literal value with
    | error e =>
      simp only [constant, hLiteral]
      exact yields_throw _
    | ok literal =>
      simp only [constant, hLiteral]
      exact yields_pure (.text (w.literal mapping value literal hLiteral))

theorem composed_parameter (values : ParameterValues) {name : String} (hName : Name name)
    (mapping : Option TypeMapping) :
    Yields (Composed Plain Pair) (parameter values name mapping) := by
  intro b r hr
  rw [run_parameter, map_eq_ok] at hr
  obtain ⟨c, -, rfl⟩ := hr
  exact .text (w.reference name hName)

theorem composed_binary (operator : BinaryOperator) (leftType : DataType)
    {left right : Lowering Layout} (hl : Yields (Composed Plain Pair) left)
    (hr : Yields (Composed Plain Pair) right) :
    Yields (Composed Plain Pair) (Lowering.binary operator leftType left right) := by
  unfold Lowering.binary
  by_cases hIndex : operator = .arrayIndex
  · rw [if_pos hIndex]
    refine hl.bind fun l hl => hr.bind fun r hr => yields_pure ?_
    -- only the index is enclosed; the array stands in front of it
    rw [List.append_assoc]
    exact hl.append (.enclosed (w.bracket ("[", "]") (by decide)) hr)
  · rw [if_neg hIndex]
    cases hToken : operator.tokenFor? leftType with
    | none => exact yields_throw _
    | some token =>
      -- the operands with the operator between them stand in one pair of parentheses
      refine hl.bind fun l hl => hr.bind fun r hr => yields_pure ?_
      have hOperands : Composed Plain Pair (l ++ .text token :: r) :=
        hl.append (w.composed_word hr (BinaryOperator.tokenFor?_mem_words hToken))
      exact .enclosed (w.bracket ("(", ")") (by decide)) hOperands

theorem composed_unary (operator : UnaryOperator) (operandType : DataType)
    {operand : Lowering Layout} (h : Yields (Composed Plain Pair) operand) :
    Yields (Composed Plain Pair) (Lowering.unary operator operandType operand) := by
  unfold Lowering.unary
  cases hToken : operator.token? operandType with
  | none => exact yields_throw _
  | some token =>
    refine h.bind fun l hl => yields_pure ?_
    have hOperand : Composed Plain Pair (.text "(" :: l ++ [.text ")"]) :=
      .enclosed (w.bracket ("(", ")") (by decide)) hl
    exact w.composed_word hOperand (UnaryOperator.token?_mem_words hToken)

theorem composed_membership (negated : Bool) (valuesParameter : Option String)
    {item : Lowering Layout} {values : Lowering (List Layout)}
    (hi : Yields (Composed Plain Pair) item)
    (hv : Yields (fun ls => ∀ l ∈ ls, Composed Plain Pair l) values) :
    Yields (Composed Plain Pair) (membership negated valuesParameter item (some values)) := by
  cases valuesParameter with
  | some name => exact yields_throw _
  | none =>
    refine hi.bind fun l hl => hv.bind fun ls hls => yields_pure ?_
    rw [List.append_assoc]
    cases negated with
    | true => exact hl.append (w.composed_list hls (by decide))
    | false => exact hl.append (w.composed_list hls (by decide))

theorem composed_subquery {opening : String} (hBracket : (opening, ")") ∈ Layout.brackets)
    {select : Lowering Layout} (h : Yields (Composed Plain Pair) select) :
    Yields (Composed Plain Pair) (subquery opening select) :=
  h.bind fun _ hl => yields_pure (hl.block (w.bracket _ hBracket))

theorem composed_derivedSource (isSimple : Bool) {select : Lowering Layout}
    (h : Yields (Composed Plain Pair) select) :
    Yields (Composed Plain Pair) (derivedSource isSimple select) := by
  cases isSimple with
  | false => exact w.composed_subquery (by decide) h
  | true =>
    exact h.bind fun _ hl => yields_pure (.enclosed (w.bracket ("(", ")") (by decide)) hl)

theorem composed_source {aliasName : Option String} (hAlias : ∀ n ∈ aliasName.toList, Name n)
    (eachItem : Bool) {container : Lowering Layout} (h : Yields (Composed Plain Pair) container) :
    Yields (Composed Plain Pair) (source aliasName eachItem container) := by
  cases aliasName with
  | none =>
    cases eachItem with
    | true => exact yields_throw _
    | false => exact h
  | some aliasName =>
    have hPlain : Plain aliasName := w.name aliasName (hAlias aliasName (by simp))
    cases eachItem with
    | true =>
      exact h.bind fun _ hl => yields_pure ((w.composed_word hl (by decide)).text_cons hPlain)
    | false =>
      exact h.bind fun _ hl =>
        yields_pure (hl.append (w.composed_word (.text hPlain) (by decide)))

theorem composed_clause {keyword : String} (hKeyword : keyword ∈ Layout.words) {body : Layout}
    (h : Composed Plain Pair body) : Composed Plain Pair (clause keyword body) :=
  (w.composed_word h hKeyword).newline_cons

theorem composed_paging {offset limit : Lowering (Option Layout)}
    (ho : Yields (fun o => ∀ l ∈ o, Composed Plain Pair l) offset)
    (hl : Yields (fun o => ∀ l ∈ o, Composed Plain Pair l) limit) :
    Yields (Composed Plain Pair) (paging offset limit) := by
  refine ho.bind fun offset ho => hl.bind fun limit hl => ?_
  -- an offset that is not there is written as zero
  have hOffset : Composed Plain Pair (offset.getD [.text "0"]) := by
    cases offset with
    | none => exact .text (w.word "0" (by decide))
    | some offset => exact ho offset rfl
  cases limit with
  | none =>
    cases offset with
    | none => exact yields_pure .nil
    | some offset => exact yields_throw _
  | some limit =>
    have hClause := w.composed_clause (by decide : "OFFSET " ∈ Layout.words)
      (hOffset.append (w.composed_word (hl limit rfl) (by decide : " LIMIT " ∈ Layout.words)))
    cases offset <;> exact yields_pure hClause

theorem composed_item (style : ProjectionStyle) {p : Projection} {l : Layout}
    (hName : Name p.aliasName) (h : Composed Plain Pair l) :
    Composed Plain Pair (style.item p l) := by
  cases style with
  | value => exact h
  | object => exact h.text_cons (w.label _ hName)
  | columns =>
    have hAlias : Composed Plain Pair [.text " AS ", .text p.aliasName] :=
      w.composed_word (.text (w.name _ hName)) (by decide)
    show Composed Plain Pair
      (if p.hasCustomAlias then l ++ [.text " AS ", .text p.aliasName] else l)
    split
    · exact h.append hAlias
    · exact h

theorem composed_projections (style : ProjectionStyle) {items : List Layout}
    (h : ∀ l ∈ items, Composed Plain Pair l) : Composed Plain Pair (style.clause items) := by
  cases style with
  | value => exact w.composed_word (w.composed_commas h) (by decide)
  | object =>
    -- the braces enclose a level, on which each item has a line of its own
    have hComma : Composed Plain Pair [.text ",", .newline] :=
      w.composed_word .newline (by decide)
    have hLines : Composed Plain Pair
        (Layout.nested (Layout.separated [.text ",", .newline] items ++ [.newline])) :=
      .nested ((Composed.separated hComma h).append .newline)
    have hBraces := Composed.enclosed (w.bracket ("\x7b", "\x7d") (by decide)) hLines.newline_cons
    exact w.composed_word hBraces.newline_cons (by decide)
  | columns => exact w.composed_commas h

/-- The clauses of a select, its projections first. -/
theorem composed_clauses (isDistinct : Bool) {projections : Layout}
    {sources paging : Lowering Layout} {predicate : Lowering (Option Layout)}
    {orderings : Lowering (List Layout)} (hp : Composed Plain Pair projections)
    (hs : Yields (Composed Plain Pair) sources)
    (hw : Yields (fun o => ∀ l ∈ o, Composed Plain Pair l) predicate)
    (ho : Yields (fun ls => ∀ l ∈ ls, Composed Plain Pair l) orderings)
    (hl : Yields (Composed Plain Pair) paging) :
    Yields (Composed Plain Pair) (do
      let source ← sources
      let predicate ← predicate
      let orderings ← orderings
      let paging ← paging
      return ofClauses isDistinct projections source predicate orderings paging) := by
  refine hs.bind fun source hs => hw.bind fun predicate hw => ho.bind fun orderings ho =>
    hl.bind fun paging hl => yields_pure ?_
  have hHead : Composed Plain Pair
      (.text "SELECT " :: if isDistinct then [.text "DISTINCT "] else []) := by
    refine w.composed_word ?_ (by decide)
    split
    · exact .text (w.word "DISTINCT " (by decide))
    · exact .nil
  have hWhere : Composed Plain Pair (ofPredicate predicate) := by
    cases predicate with
    | none => exact .nil
    | some predicate => exact w.composed_clause (by decide) (hw predicate rfl)
  have hOrder : Composed Plain Pair (ofOrderings orderings) := by
    unfold ofOrderings
    split
    · exact .nil
    · exact w.composed_clause (by decide) (w.composed_commas ho)
  exact ((((hHead.append hp).append hs).append hWhere).append hOrder).append hl

end Wording

/-! ## Trees -/

section Trees

-- lists of expressions use the wording through their items alone
set_option linter.unusedSectionVars false

variable (w : Wording Name Plain Pair) (ctx : Context)
include w

mutual

/-- The layout of an expression is composed of plain texts. -/
theorem Expression.lower_composed : ∀ e : Expression, (∀ n ∈ e.names, Name n) →
    (∀ step ∈ e.steps, step.Sets ctx (Composed Plain Pair)) →
    Yields (Composed Plain Pair) (e.lower ctx)
  | .select select, hNames, hSteps => select.lower_composed hNames hSteps
  | .objectReference name, hNames, _ =>
    yields_pure (.text (w.name name (hNames name (List.mem_singleton_self _))))
  | .scalarReference name _, hNames, _ =>
    yields_pure (.text (w.name name (hNames name (List.mem_singleton_self _))))
  | .keyAccess object property _ _, hNames, hSteps => by
    obtain ⟨hProperty, hObject⟩ := List.forall_mem_cons.mp hNames
    exact (object.lower_composed hObject hSteps).bind fun _ hl =>
      yields_pure (hl.append (.text (w.property property hProperty)))
  | .objectAccess object property, hNames, hSteps => by
    obtain ⟨hProperty, hObject⟩ := List.forall_mem_cons.mp hNames
    exact (object.lower_composed hObject hSteps).bind fun _ hl =>
      yields_pure (hl.append (.text (w.property property hProperty)))
  | .entityProjection access, hNames, hSteps => access.lower_composed hNames hSteps
  | .objectArrayProjection access, hNames, hSteps => access.lower_composed hNames hSteps
  | .binary operator left right _ _, hNames, hSteps => by
    rw [Expression.steps] at hSteps
    obtain ⟨hLeft, hRight⟩ := List.forall_mem_append.mp hNames
    obtain ⟨hLeft', hRight'⟩ := List.forall_mem_append.mp (List.forall_mem_append.mp hSteps).2
    exact w.composed_binary operator _ (left.lower_composed hLeft hLeft')
      (right.lower_composed hRight hRight')
  | .unary operator operand _ _, hNames, hSteps => by
    rw [Expression.steps] at hSteps
    obtain ⟨-, hOperand⟩ := List.forall_mem_append.mp hSteps
    have h := w.composed_unary operator operand.dataType (operand.lower_composed hNames hOperand)
    cases operator with
    | not =>
      cases operand with
      | isIn item values valuesParameter =>
        -- a negated membership is written `NOT IN`, past the node of the membership itself
        cases values with
        | none => cases valuesParameter <;> exact yields_throw _
        | some values =>
          rw [Expression.steps] at hOperand
          obtain ⟨hItem, hValues⟩ := List.forall_mem_append.mp hNames
          obtain ⟨hItem', hValues'⟩ :=
            List.forall_mem_append.mp (List.forall_mem_append.mp hOperand).2
          exact w.composed_membership true valuesParameter (item.lower_composed hItem hItem')
            (lowerAll_composed values hValues hValues')
      | _ => exact h
    | _ => exact h
  | .conditional test ifTrue ifFalse _ _, hNames, hSteps => by
    obtain ⟨hTest, hBranches⟩ := List.forall_mem_append.mp hNames
    obtain ⟨hTrue, hFalse⟩ := List.forall_mem_append.mp hBranches
    obtain ⟨hTest', hBranches'⟩ := List.forall_mem_append.mp hSteps
    obtain ⟨hTrue', hFalse'⟩ := List.forall_mem_append.mp hBranches'
    refine (test.lower_composed hTest hTest').bind fun l hl => ?_
    refine (ifTrue.lower_composed hTrue hTrue').bind fun l' hl' => ?_
    refine (ifFalse.lower_composed hFalse hFalse').bind fun l'' hl'' => yields_pure ?_
    have hWhole := (hl.append (w.composed_word hl' (by decide : " ? " ∈ Layout.words))).append
      (w.composed_word hl'' (by decide : " : " ∈ Layout.words))
    exact .enclosed (w.bracket ("(", ")") (by decide)) hWhole
  | .function name arguments _ _, hNames, hSteps => by
    obtain ⟨hName, hArguments⟩ := List.forall_mem_cons.mp hNames
    exact (lowerAll_composed arguments hArguments hSteps).bind fun ls hls =>
      yields_pure ((w.composed_list hls (by decide)).text_cons (w.name name hName))
  | .constant value _ mapping, _, _ => w.composed_constant value mapping
  | .parameter name _ mapping, hNames, _ =>
    w.composed_parameter ctx.values (hNames name (List.mem_singleton_self _)) mapping
  -- without a list of values nothing is written
  | .isIn item none valuesParameter, _, _ => by
    rw [Expression.lower]
    cases valuesParameter <;> exact yields_throw _
  | .isIn item (some values) valuesParameter, hNames, hSteps => by
    rw [Expression.steps] at hSteps
    obtain ⟨hItem, hValues⟩ := List.forall_mem_append.mp hNames
    obtain ⟨hItem', hValues'⟩ := List.forall_mem_append.mp (List.forall_mem_append.mp hSteps).2
    exact w.composed_membership false valuesParameter (item.lower_composed hItem hItem')
      (lowerAll_composed values hValues hValues')
  | .arrayConstant items, hNames, hSteps =>
    (lowerAll_composed items hNames hSteps).bind fun _ hls =>
      yields_pure (w.composed_list hls (by decide))
  | .exists subquery, hNames, hSteps =>
    w.composed_subquery (by decide) (subquery.lower_composed hNames hSteps)
  | .array subquery, hNames, hSteps =>
    w.composed_subquery (by decide) (subquery.lower_composed hNames hSteps)
  | .scalarSubquery subquery, hNames, hSteps =>
    w.composed_subquery (by decide) (subquery.lower_composed hNames hSteps)
  -- what a raw fragment is composed of is left to the caller
  | .fromSql sql arguments, _, hSteps => hSteps _ (List.mem_singleton_self _)
termination_by structural e => e

theorem lowerAll_composed : ∀ es : List Expression, (∀ n ∈ namesOfAll es, Name n) →
    (∀ step ∈ stepsOfAll es, step.Sets ctx (Composed Plain Pair)) →
    Yields (fun ls => ∀ l ∈ ls, Composed Plain Pair l) (lowerAll ctx es)
  | [], _, _ => yields_pure nofun
  | e :: es, hNames, hSteps => by
    obtain ⟨hFirst, hRest⟩ := List.forall_mem_append.mp hNames
    obtain ⟨hFirst', hRest'⟩ := List.forall_mem_append.mp hSteps
    exact (e.lower_composed hFirst hFirst').bind fun _ hl =>
      (lowerAll_composed es hRest hRest').bind fun _ hls =>
        yields_pure (List.forall_mem_cons.mpr ⟨hl, hls⟩)
termination_by structural es => es

theorem lowerOptional_composed : ∀ e : Option Expression, (∀ n ∈ namesOfOptional e, Name n) →
    (∀ step ∈ stepsOfOptional e, step.Sets ctx (Composed Plain Pair)) →
    Yields (fun o => ∀ l ∈ o, Composed Plain Pair l) (lowerOptional ctx e)
  | none, _, _ => yields_pure nofun
  | some e, hNames, hSteps => by
    refine (e.lower_composed hNames hSteps).bind fun l hl => yields_pure ?_
    rintro _ ⟨⟩
    exact hl
termination_by structural e => e

/-- The layout of a tree is composed of plain texts, if its names are names and its raw
fragments are set in so. -/
theorem Select.lower_composed : ∀ s : Select, (∀ n ∈ s.names, Name n) →
    (∀ step ∈ s.steps, step.Sets ctx (Composed Plain Pair)) →
    Yields (Composed Plain Pair) (s.lower ctx)
  | ⟨isDistinct, projection, singleValue, sources, predicate, orderings, offset, limit⟩,
      hNames, hSteps => by
    rw [Select.names] at hNames
    rw [Select.steps] at hSteps
    simp only [List.forall_mem_append] at hNames hSteps
    obtain ⟨nProjection, nSources, nPredicate, nOrderings, nOffset, nLimit⟩ := hNames
    obtain ⟨-, sProjection, ⟨-, sSources⟩, sPredicate, sOrderings, sOffset, sLimit, -⟩ := hSteps
    -- what follows is the same whether there are projections or not
    have hRest := fun (p : Layout) (hp : Composed Plain Pair p) =>
      w.composed_clauses isDistinct hp (lowerSources_composed sources nSources sSources)
        (lowerOptional_composed predicate nPredicate sPredicate)
        (lowerSortKeys_composed orderings nOrderings sOrderings)
        (w.composed_paging (lowerOptional_composed offset nOffset sOffset)
          (lowerOptional_composed limit nLimit sLimit))
    rw [Select.lower]
    split
    · exact yields_throw _
    · split
      · -- without projections the select gives a constant
        exact hRest _ (.text (w.word "1" (by decide)))
      · exact (lowerProjections_composed _ projection nProjection sProjection).bind fun _ hls =>
          hRest _ (w.composed_projections _ hls)
termination_by structural s => s

theorem lowerProjections_composed (style : ProjectionStyle) : ∀ ps : List Projection,
    (∀ n ∈ namesOfProjections ps, Name n) →
    (∀ step ∈ stepsOfProjections ps, step.Sets ctx (Composed Plain Pair)) →
    Yields (fun ls => ∀ l ∈ ls, Composed Plain Pair l) (lowerProjections ctx style ps)
  | [], _, _ => yields_pure nofun
  | ⟨expression, aliasName, name⟩ :: ps, hNames, hSteps => by
    obtain ⟨hAlias, hNames⟩ := List.forall_mem_cons.mp hNames
    obtain ⟨hFirst, hRest⟩ := List.forall_mem_append.mp hNames
    obtain ⟨hFirst', hRest'⟩ := List.forall_mem_append.mp hSteps
    exact (expression.lower_composed hFirst hFirst').bind fun _ hl =>
      (lowerProjections_composed style ps hRest hRest').bind fun _ hls =>
        yields_pure (List.forall_mem_cons.mpr ⟨w.composed_item style hAlias hl, hls⟩)
termination_by structural ps => ps

theorem lowerSources_composed : ∀ ss : List Source, (∀ n ∈ namesOfSources ss, Name n) →
    (∀ step ∈ stepsOfSources ss, step.Sets ctx (Composed Plain Pair)) →
    Yields (Composed Plain Pair) (lowerSources ctx ss)
  | [], _, _ => yields_pure .nil
  | [⟨container, aliasName, eachItem⟩], hNames, hSteps => by
    obtain ⟨hAlias, hNames⟩ := List.forall_mem_append.mp hNames
    obtain ⟨hContainer, -⟩ := List.forall_mem_append.mp hNames
    rw [stepsOfSources, stepsOfSources, List.append_nil] at hSteps
    obtain ⟨-, hSteps⟩ := List.forall_mem_append.mp hSteps
    have ih := container.lower_composed hContainer hSteps
    -- a select that stands as a source is set in brackets of its own
    cases container with
    | select select =>
      exact (w.composed_source hAlias eachItem
        (w.composed_derivedSource select.isSimpleValue ih)).bind fun _ hl =>
          yields_pure (w.composed_clause (by decide) hl)
    | _ =>
      exact (w.composed_source hAlias eachItem ih).bind fun _ hl =>
        yields_pure (w.composed_clause (by decide) hl)
  -- several sources are refused
  | _ :: _ :: _, _, _ => by
    rw [lowerSources]
    exact yields_throw _
termination_by structural ss => ss

theorem lowerSortKeys_composed : ∀ ks : List SortKey, (∀ n ∈ namesOfSortKeys ks, Name n) →
    (∀ step ∈ stepsOfSortKeys ks, step.Sets ctx (Composed Plain Pair)) →
    Yields (fun ls => ∀ l ∈ ls, Composed Plain Pair l) (lowerSortKeys ctx ks)
  | [], _, _ => yields_pure nofun
  | ⟨expression, isAscending⟩ :: ks, hNames, hSteps => by
    obtain ⟨hFirst, hRest⟩ := List.forall_mem_append.mp hNames
    obtain ⟨hFirst', hRest'⟩ := List.forall_mem_append.mp hSteps
    refine (expression.lower_composed hFirst hFirst').bind fun l hl =>
      (lowerSortKeys_composed ks hRest hRest').bind fun _ hls =>
        yields_pure (List.forall_mem_cons.mpr ⟨?_, hls⟩)
    cases isAscending with
    | true => exact hl
    | false => exact hl.append (.text (w.word " DESC" (by decide)))
termination_by structural ks => ks

end

end Trees

end

end DocumentQuery
