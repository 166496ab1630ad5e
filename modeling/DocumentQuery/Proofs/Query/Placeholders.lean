import DocumentQuery.Proofs.Query.Independence
import DocumentQuery.Proofs.Query.Parameters
import DocumentQuery.Proofs.Text.Placeholders

/-!
# Placeholders of a query and what is sent for them

The text of a query is read again, by a scanner that knows nothing of the tree. Where
names are words and no other string of the tree brings an `@` into the text, the
scanner finds the references of the tree in visiting order, and their first
occurrences are the parameters of the query in the order in which they are bound.

Main definitions and results:

* `Select.texts` — the strings of a tree that reach the text.
* `Select.lower_shows` — the layout of a tree shows its references.
* `runSteps_faithful` — what a run binds without arguments of raw fragments.
* `generate_placeholders` — the placeholders of the text and the parameters sent.
-/

namespace DocumentQuery

open Text Layout

/-! ## The strings of a tree that reach the text -/

/-- The alias of a projection, where it is written. -/
def ProjectionStyle.texts (style : ProjectionStyle) (p : Projection) : List String :=
  match style with
  | .value => []
  | .object => [p.aliasName]
  | .columns => if p.hasCustomAlias then [p.aliasName] else []

/-- The literal of a constant. -/
def Value.texts (value : Value) : Option TypeMapping → List String
  | none => []
  | some mapping => (mapping.literal value).toOption.toList

/-- The literals that are put into a raw fragment. -/
def RawArguments.texts (registry : Registry) : RawArguments → List String
  | .parameter _ => []
  | .constant value => (Lowering.constantLiterals registry value).toOption.getD []

mutual

/-- The strings of an expression that reach the text: names, properties, literals and
raw fragments with what is put into them. -/
def Expression.texts (registry : Registry) : Expression → List String
  | .select select => select.texts registry
  | .objectReference name => [name]
  | .scalarReference name _ => [name]
  | .keyAccess object property _ _ => property :: object.texts registry
  | .objectAccess object property => property :: object.texts registry
  | .entityProjection access => access.texts registry
  | .objectArrayProjection access => access.texts registry
  | .binary _ left right _ _ => left.texts registry ++ right.texts registry
  | .unary _ operand _ _ => operand.texts registry
  | .conditional test ifTrue ifFalse _ _ =>
    test.texts registry ++ (ifTrue.texts registry ++ ifFalse.texts registry)
  | .function name arguments _ _ => name :: textsOfAll registry arguments
  | .constant value _ mapping => value.texts mapping
  | .parameter _ _ _ => []
  | .isIn item none _ => item.texts registry
  | .isIn item (some values) _ => item.texts registry ++ textsOfAll registry values
  | .arrayConstant items => textsOfAll registry items
  | .exists subquery => subquery.texts registry
  | .array subquery => subquery.texts registry
  | .scalarSubquery subquery => subquery.texts registry
  | .fromSql sql arguments => sql :: arguments.texts registry
termination_by structural e => e

def textsOfAll (registry : Registry) : List Expression → List String
  | [] => []
  | e :: es => e.texts registry ++ textsOfAll registry es
termination_by structural es => es

def textsOfOptional (registry : Registry) : Option Expression → List String
  | none => []
  | some e => e.texts registry
termination_by structural e => e

/-- The strings of a select that reach the text. -/
def Select.texts (registry : Registry) : Select → List String
  | ⟨_, projection, singleValue, sources, predicate, orderings, offset, limit⟩ =>
    textsOfProjections registry (.of singleValue projection) projection ++
      (textsOfSources registry sources ++ (textsOfOptional registry predicate ++
        (textsOfSortKeys registry orderings ++
          (textsOfOptional registry offset ++ textsOfOptional registry limit))))
termination_by structural s => s

def textsOfProjections (registry : Registry) (style : ProjectionStyle) :
    List Projection → List String
  | [] => []
  | ⟨expression, aliasName, name⟩ :: ps =>
    style.texts ⟨expression, aliasName, name⟩ ++
      (expression.texts registry ++ textsOfProjections registry style ps)
termination_by structural ps => ps

def textsOfSources (registry : Registry) : List Source → List String
  | [] => []
  | ⟨container, aliasName, _⟩ :: ss =>
    aliasName.toList ++ (container.texts registry ++ textsOfSources registry ss)
termination_by structural ss => ss

def textsOfSortKeys (registry : Registry) : List SortKey → List String
  | [] => []
  | ⟨expression, _⟩ :: ks => expression.texts registry ++ textsOfSortKeys registry ks
termination_by structural ks => ks

end

/-! ## References among the steps -/

/-- The placeholders of the references among steps. -/
def shownBy (steps : List Step) : List String :=
  (steps.filterMap Step.reference?).map fun r => referenceTo r.1

@[simp] theorem shownBy_nil : shownBy [] = [] := rfl

@[simp] theorem shownBy_append (steps steps' : List Step) :
    shownBy (steps ++ steps') = shownBy steps ++ shownBy steps' := by
  simp [shownBy]

/-- A fault refers to nothing. -/
@[simp] theorem shownBy_require (condition : Bool) (e : QueryError) :
    shownBy (Step.require condition e) = [] := by
  cases condition <;> rfl

@[simp] theorem shownBy_ofMembership (hasValues : Bool) (valuesParameter : Option String) :
    shownBy (Step.ofMembership hasValues valuesParameter) = [] := by
  cases valuesParameter with
  | none => exact shownBy_require _ _
  | some name => rfl

@[simp] theorem shownBy_ofBinary (operator : BinaryOperator) (left : DataType) :
    shownBy (Step.ofBinary operator left) = [] := shownBy_require _ _

@[simp] theorem shownBy_ofUnary (operator : UnaryOperator) (operand : DataType) :
    shownBy (Step.ofUnary operator operand) = [] := shownBy_require _ _

theorem shownBy_ofConstant (value : Value) (mapping : Option TypeMapping) :
    shownBy (Step.ofConstant value mapping) = [] := by
  cases mapping with
  | none => rfl
  | some mapping =>
    cases h : mapping.literal value with
    | ok literal => simp [Step.ofConstant, h]
    | error e =>
      simp only [Step.ofConstant, h]
      rfl

/-- The step refers to a name that a placeholder can have, and binds no arguments of a
raw fragment. -/
def Step.Legible : Step → Prop
  | .parameter name _ => IsName name
  | .raw _ (.parameter _) => False
  | _ => True

/-! ## Layouts that computations give -/

namespace Lowering

/-- Whenever the computation succeeds, its result satisfies `P`. -/
def Yields {α : Type} (P : α → Prop) (m : Lowering α) : Prop :=
  ∀ b r, m.run b = .ok r → P r.1

theorem yields_pure {α : Type} {P : α → Prop} {a : α} (h : P a) : Yields P (pure a) := by
  rintro b r ⟨⟩
  exact h

theorem yields_throw {α : Type} {P : α → Prop} (e : QueryError) :
    Yields P (throw e : Lowering α) := by
  rintro b r ⟨⟩

theorem Yields.bind {α β : Type} {P : α → Prop} {Q : β → Prop} {m : Lowering α}
    {f : α → Lowering β} (hm : Yields P m) (hf : ∀ a, P a → Yields Q (f a)) :
    Yields Q (m >>= f) := by
  intro b r hr
  rw [StateT.run_bind, bind_eq_ok] at hr
  obtain ⟨⟨a, c⟩, hFirst, hSecond⟩ := hr
  exact hf a (hm b _ hFirst) c r hSecond

/-- The layout shows placeholders in this order. -/
abbrev Shows (shown : List String) : Lowering Layout → Prop := Yields (Layout.Shows · shown)

/-- So do the layouts, one after the other. -/
abbrev ShowsAll (shown : List String) : Lowering (List Layout) → Prop :=
  Yields (Layout.ShowsAll · shown)

/-- A clause shows placeholders, and begins on a line of its own if there is one at
all. -/
def ClauseShows (shown : List String) (l : Layout) : Prop := l.Shows shown ∧ l.Stops

/-- A layout that need not be there shows placeholders if it is there. -/
def ShowsOptional (shown : List String) : Option Layout → Prop
  | none => shown = []
  | some l => l.Shows shown

end Lowering

open Lowering

/-! ## Nodes -/

theorem BinaryOperator.tokenFor?_head {operator : BinaryOperator} {left : DataType}
    {token : String} (h : operator.tokenFor? left = some token) :
    Quiet token ∧ token.toList.head? = some ' ' := by
  unfold tokenFor? at h
  split at h
  · obtain rfl := Option.some.inj h
    decide
  · cases operator <;> cases h <;> decide

theorem UnaryOperator.token?_quiet {operator : UnaryOperator} {operand : DataType}
    {token : String} (h : operator.token? operand = some token) : Quiet token := by
  unfold token? at h
  cases operator <;> simp only [Option.some.injEq, reduceCtorEq] at h
  · subst h; decide
  · subst h; decide
  · subst h
    split <;> decide

theorem silent_comma : Silent [.text ", "] := silent_nil.text_cons (by decide)

theorem stops_comma (l : Layout) : Layout.Stops ([.text ", "] ++ l) :=
  stops_text rfl rfl l

theorem silent_commaLine : Silent [.text ",", .newline] :=
  silent_nil.newline_cons.text_cons (by decide)

theorem stops_commaLine (l : Layout) : Layout.Stops ([.text ",", .newline] ++ l) :=
  stops_text rfl rfl _

/-- Items between commas, and what closes the list. -/
theorem shows_list {items : List Layout} {shown : List String} (h : Layout.ShowsAll items shown)
    {closing : String} (hClosing : Quiet closing) {c : Char}
    (hHead : closing.toList.head? = some c) (hc : isWord c = false) :
    Layout.Shows (Layout.separated [.text ", "] items ++ [.text closing]) shown :=
  (h.separated silent_comma stops_comma).concat_text hClosing hHead hc

namespace Lowering

variable {shown shown' : List String}

theorem shows_parameter (values : ParameterValues) {name : String} (hName : IsName name)
    (mapping : Option TypeMapping) :
    Shows [referenceTo name] (parameter values name mapping) := by
  intro b r hr
  rw [run_parameter, map_eq_ok] at hr
  obtain ⟨c, -, rfl⟩ := hr
  exact shows_mark hName

theorem shows_constant {value : Value} {mapping : Option TypeMapping}
    (hTexts : ∀ t ∈ value.texts mapping, Quiet t) : Shows [] (constant value mapping) := by
  cases mapping with
  | none => exact yields_throw _
  | some mapping =>
    cases hLiteral : mapping.literal value with
    | error e =>
      simp only [constant, hLiteral]
      exact yields_throw _
    | ok literal =>
      -- the literal is one of the strings that reach the text
      have hQuiet : Quiet literal :=
        hTexts literal (by simp [Value.texts, hLiteral, Except.toOption])
      simp only [constant, hLiteral]
      exact yields_pure (silent_nil.text_cons hQuiet).shows

theorem shows_binary (operator : BinaryOperator) (leftType : DataType)
    {left right : Lowering Layout} (hl : Shows shown left) (hr : Shows shown' right) :
    Shows (shown ++ shown') (binary operator leftType left right) := by
  unfold binary
  by_cases hIndex : operator = .arrayIndex
  · -- the index stands in brackets, which stop what is shown on either side
    rw [if_pos hIndex]
    refine hl.bind fun l hl => hr.bind fun r hr => yields_pure ?_
    exact (hl.append (hr.text_cons (by decide)) (stops_text rfl rfl _)).concat_text (by decide)
      rfl rfl
  · rw [if_neg hIndex]
    cases hToken : operator.tokenFor? leftType with
    | none => exact yields_throw _
    | some token =>
      -- every token begins with a blank
      obtain ⟨hQuiet, hHead⟩ := BinaryOperator.tokenFor?_head hToken
      refine hl.bind fun l hl => hr.bind fun r hr => yields_pure ?_
      exact ((hl.text_cons (by decide)).append (hr.text_cons hQuiet)
        (stops_text hHead rfl _)).concat_text (by decide) rfl rfl

theorem shows_unary (operator : UnaryOperator) (operandType : DataType)
    {operand : Lowering Layout} (h : Shows shown operand) :
    Shows shown (unary operator operandType operand) := by
  unfold unary
  cases hToken : operator.token? operandType with
  | none => exact yields_throw _
  | some token =>
    refine h.bind fun l hl => yields_pure ?_
    exact ((hl.text_cons (by decide)).text_cons
      (UnaryOperator.token?_quiet hToken)).concat_text (by decide) rfl rfl

theorem shows_membership_none (negated : Bool) (valuesParameter : Option String)
    (item : Lowering Layout) : Shows shown (membership negated valuesParameter item none) := by
  cases valuesParameter with
  | none => exact yields_throw _
  | some name => exact yields_throw _

theorem shows_membership_some (negated : Bool) (valuesParameter : Option String)
    {item : Lowering Layout} {values : Lowering (List Layout)} (hi : Shows shown item)
    (hv : ShowsAll shown' values) :
    Shows (shown ++ shown') (membership negated valuesParameter item (some values)) := by
  cases valuesParameter with
  | some name => exact yields_throw _
  | none =>
    refine hi.bind fun l hl => hv.bind fun ls hls => yields_pure ?_
    have hList : Layout.Shows (Layout.separated [.text ", "] ls ++ [.text ")"]) shown' :=
      shows_list hls (by decide) rfl rfl
    rw [List.append_assoc]
    cases negated with
    | true => exact hl.append (hList.text_cons (by decide)) (stops_text rfl rfl _)
    | false => exact hl.append (hList.text_cons (by decide)) (stops_text rfl rfl _)

theorem shows_subquery {opening : String} (hOpening : Quiet opening) {select : Lowering Layout}
    (h : Shows shown select) : Shows shown (subquery opening select) :=
  h.bind fun _ hl => yields_pure (hl.block hOpening (by decide) rfl rfl)

theorem shows_derivedSource (isSimple : Bool) {select : Lowering Layout}
    (h : Shows shown select) : Shows shown (derivedSource isSimple select) := by
  cases isSimple with
  | false => exact shows_subquery (by decide) h
  | true =>
    exact h.bind fun _ hl =>
      yields_pure ((hl.text_cons (by decide)).concat_text (by decide) rfl rfl)

theorem shows_source {aliasName : Option String} (hAlias : ∀ t ∈ aliasName.toList, Quiet t)
    (eachItem : Bool) {container : Lowering Layout} (h : Shows shown container) :
    Shows shown (source aliasName eachItem container) := by
  cases aliasName with
  | none =>
    cases eachItem with
    | true => exact yields_throw _
    | false => exact h
  | some aliasName =>
    have hQuiet : Quiet aliasName := hAlias aliasName (by simp)
    cases eachItem with
    | true =>
      exact h.bind fun _ hl => yields_pure ((hl.text_cons (by decide)).text_cons hQuiet)
    | false =>
      refine h.bind fun _ hl => yields_pure ?_
      exact hl.postpend ((silent_nil.text_cons hQuiet).text_cons (by decide))
        (stops_text rfl rfl _)

/-- A raw fragment with its constants in place shows nothing. -/
theorem shows_fromSql {ctx : Context} {sql : String} {value : Value} (hSql : Quiet sql)
    (hTexts : ∀ t ∈ RawArguments.texts ctx.registry (.constant value), Quiet t) :
    Shows [] (fromSql ctx sql (.constant value)) := by
  intro b r hr
  obtain ⟨literals, text, hSubstitutions, hText, hLayout⟩ := fromSql_eq_ok hr
  rw [run_substitutions_constant, map_eq_ok] at hSubstitutions
  obtain ⟨literals', hConstants, hEq⟩ := hSubstitutions
  obtain ⟨rfl, -⟩ := Prod.mk.inj hEq
  -- the fragment with its constants is a text, which is set in line by line
  have hQuiet : Quiet text := by
    refine Template.quiet_fill hSql (fun literal hMem => hTexts literal ?_) hText
    simpa [RawArguments.texts, hConstants, Except.toOption] using hMem
  rw [hLayout]
  exact (silent_ofLines hQuiet).shows.block (by decide) (by decide) rfl rfl

/-- A clause on a line of its own. -/
theorem shows_clause {keyword : String} (hKeyword : Quiet keyword) {body : Layout}
    (h : body.Shows shown) :
    ClauseShows shown (clause keyword body) :=
  ⟨(h.text_cons hKeyword).newline_cons, stops_newline _⟩

/-- A clause with a body, if there is one. -/
theorem showsClause_optional {keyword : String} (hKeyword : Quiet keyword) :
    ∀ {body : Option Layout}, ShowsOptional shown body →
      ClauseShows shown (match body with
        | some body => clause keyword body
        | none => []) := by
  intro body h
  cases body with
  | none =>
    obtain rfl : shown = [] := h
    exact ⟨shows_nil, stops_nil⟩
  | some body => exact shows_clause hKeyword h

/-- A clause with a list, unless the list is empty. -/
theorem showsClause_list {keyword : String} (hKeyword : Quiet keyword) {items : List Layout}
    (h : Layout.ShowsAll items shown) :
    ClauseShows shown (if items.isEmpty then []
      else clause keyword (Layout.separated [.text ", "] items)) := by
  cases h with
  | nil => exact ⟨shows_nil, stops_nil⟩
  | cons hItem hItems =>
    exact shows_clause hKeyword
      ((Layout.ShowsAll.cons hItem hItems).separated silent_comma stops_comma)

theorem shows_paging {offset limit : Lowering (Option Layout)}
    (ho : Yields (ShowsOptional shown) offset) (hl : Yields (ShowsOptional shown') limit) :
    Yields (ClauseShows (shown ++ shown')) (paging offset limit) := by
  refine ho.bind fun offset ho => hl.bind fun limit hl => ?_
  -- an offset that is not there is written as zero
  have hOffset : (offset.getD [.text "0"]).Shows shown := by
    cases offset with
    | none =>
      obtain rfl : shown = [] := ho
      exact (silent_nil.text_cons (by decide)).shows
    | some offset => exact ho
  cases limit with
  | none =>
    obtain rfl : shown' = [] := hl
    cases offset with
    | none =>
      obtain rfl : shown = [] := ho
      exact yields_pure ⟨shows_nil, stops_nil⟩
    -- an offset needs a limit
    | some offset => exact yields_throw _
  | some limit =>
    have hLimit : Layout.Shows (.text " LIMIT " :: limit) shown' :=
      Layout.Shows.text_cons (by decide) hl
    have hBoth := hOffset.append hLimit (stops_text rfl rfl _)
    have hClause : ClauseShows (shown ++ shown') (clause "OFFSET " _) :=
      shows_clause (by decide) hBoth
    cases offset <;> exact yields_pure hClause

end Lowering

/-- The clauses of a select behind its projections. -/
theorem shows_clauses (isDistinct : Bool) {projections : Layout} {sources paging : Lowering Layout}
    {predicate : Lowering (Option Layout)} {orderings : Lowering (List Layout)}
    {shownP shownS shownW shownO shownL : List String} (hp : projections.Shows shownP)
    (hs : Yields (ClauseShows shownS) sources) (hw : Yields (ShowsOptional shownW) predicate)
    (ho : Lowering.ShowsAll shownO orderings) (hl : Yields (ClauseShows shownL) paging) :
    Lowering.Shows (shownP ++ (shownS ++ (shownW ++ (shownO ++ shownL)))) (do
      let source ← sources
      let predicate ← predicate
      let orderings ← orderings
      let paging ← paging
      return .text "SELECT " :: (if isDistinct then [.text "DISTINCT "] else []) ++ projections ++
        source ++
        (match predicate with
          | some predicate => Lowering.clause "WHERE " predicate
          | none => []) ++
        (if orderings.isEmpty then []
          else Lowering.clause "ORDER BY " (Layout.separated [.text ", "] orderings)) ++
        paging) := by
  refine hs.bind fun source hs => hw.bind fun predicate hw => ho.bind fun orderings ho =>
    hl.bind fun paging hl => yields_pure ?_
  have hHead : Silent (if isDistinct then [.text "DISTINCT "] else []) := by
    cases isDistinct with
    | true => exact silent_nil.text_cons (by decide)
    | false => exact silent_nil
  have hSelect := (hp.prepend hHead).text_cons (by decide : Quiet "SELECT ")
  have hWhere := showsClause_optional (by decide : Quiet "WHERE ") hw
  have hOrder := showsClause_list (by decide : Quiet "ORDER BY ") ho
  -- every clause stops what stands before it, so that nothing is glued together
  have hAll := (((hSelect.append hs.1 hs.2).append hWhere.1 hWhere.2).append hOrder.1
    hOrder.2).append hl.1 hl.2
  simp only [← List.append_assoc]
  exact hAll

/-- A property of an object, in brackets behind it. -/
theorem Layout.Shows.property {l : Layout} {shown : List String} (h : l.Shows shown)
    {property : String} (hProperty : Quiet property) :
    Layout.Shows (l ++ [.text ("[\"" ++ property ++ "\"]")]) shown := by
  have hQuiet : Quiet ("[\"" ++ property ++ "\"]") := by
    simp only [Quiet, String.toList_append, List.mem_append, not_or]
    exact ⟨⟨by decide, hProperty⟩, by decide⟩
  refine h.concat_text hQuiet ?_ (rfl : isWord '[' = false)
  simp only [String.toList_append]
  rfl

theorem Layout.Shows.conditional {test ifTrue ifFalse : Layout} {shown shown' shown'' : List String}
    (h : test.Shows shown) (h' : ifTrue.Shows shown') (h'' : ifFalse.Shows shown'') :
    Layout.Shows (.text "(" :: test ++ .text " ? " :: ifTrue ++ .text " : " :: ifFalse ++
      [.text ")"]) (shown ++ (shown' ++ shown'')) := by
  have hTrue : Layout.Shows (.text " ? " :: ifTrue) shown' := h'.text_cons (by decide)
  have hFalse : Layout.Shows (.text " : " :: ifFalse) shown'' := h''.text_cons (by decide)
  have hAll := ((h.text_cons (by decide : Quiet "(")).append hTrue (stops_text rfl rfl _)).append
    hFalse (stops_text rfl rfl _)
  rw [← List.append_assoc]
  exact hAll.concat_text (by decide) rfl rfl

namespace ProjectionStyle

variable {shown : List String}

theorem shows_item (style : ProjectionStyle) {p : Projection} {l : Layout}
    (hTexts : ∀ t ∈ style.texts p, Quiet t) (h : l.Shows shown) :
    (style.item p l).Shows shown := by
  cases style with
  | value => exact h
  | object =>
    have hAlias : Quiet p.aliasName := hTexts _ (List.mem_singleton_self _)
    refine h.text_cons ?_
    simp only [Quiet, String.toList_append, List.mem_append, not_or]
    exact ⟨⟨by decide, hAlias⟩, by decide⟩
  | columns =>
    simp only [item, texts] at hTexts ⊢
    by_cases hCustom : p.hasCustomAlias = true
    · rw [if_pos hCustom] at hTexts ⊢
      have hAlias : Quiet p.aliasName := hTexts _ (List.mem_singleton_self _)
      exact h.postpend ((silent_nil.text_cons hAlias).text_cons (by decide))
        (stops_text rfl rfl _)
    · rw [if_neg hCustom]
      exact h

theorem shows_clause (style : ProjectionStyle) {items : List Layout}
    (h : Layout.ShowsAll items shown) : (style.clause items).Shows shown := by
  cases style with
  | value => exact (h.separated silent_comma stops_comma).text_cons (by decide)
  | object =>
    have hItems := h.separated silent_commaLine stops_commaLine
    have hLines := hItems.postpend silent_nil.newline_cons (stops_newline [])
    have hOpening : Silent [.text "VALUE", .newline, .text "\x7b", .newline] :=
      ((silent_nil.newline_cons.text_cons (by decide)).newline_cons).text_cons (by decide)
    exact (hLines.nested.prepend hOpening).concat_text (by decide) rfl rfl
  | columns => exact h.separated silent_comma stops_comma

end ProjectionStyle

/-! ## Trees -/

section Trees

variable (ctx : Context)

mutual

/-- The layout of an expression shows its references. -/
theorem Expression.lower_shows : ∀ e : Expression, (∀ t ∈ e.texts ctx.registry, Quiet t) →
    (∀ step ∈ e.steps, step.Legible) → Lowering.Shows (shownBy e.steps) (e.lower ctx)
  | .select select, hTexts, hSteps => select.lower_shows hTexts hSteps
  | .objectReference name, hTexts, _ =>
    yields_pure (silent_nil.text_cons (hTexts name (List.mem_singleton_self _))).shows
  | .scalarReference name _, hTexts, _ =>
    yields_pure (silent_nil.text_cons (hTexts name (List.mem_singleton_self _))).shows
  | .keyAccess object property _ _, hTexts, hSteps => by
    obtain ⟨hProperty, hObject⟩ := List.forall_mem_cons.mp hTexts
    exact (object.lower_shows hObject hSteps).bind fun _ hl => yields_pure (hl.property hProperty)
  | .objectAccess object property, hTexts, hSteps => by
    obtain ⟨hProperty, hObject⟩ := List.forall_mem_cons.mp hTexts
    exact (object.lower_shows hObject hSteps).bind fun _ hl => yields_pure (hl.property hProperty)
  | .entityProjection access, hTexts, hSteps => access.lower_shows hTexts hSteps
  | .objectArrayProjection access, hTexts, hSteps => access.lower_shows hTexts hSteps
  | .binary operator left right _ _, hTexts, hSteps => by
    rw [Expression.steps] at hSteps ⊢
    obtain ⟨hLeft, hRight⟩ := List.forall_mem_append.mp hTexts
    obtain ⟨hLeft', hRight'⟩ := List.forall_mem_append.mp (List.forall_mem_append.mp hSteps).2
    rw [shownBy_append, shownBy_ofBinary, List.nil_append, shownBy_append]
    exact shows_binary operator _ (left.lower_shows hLeft hLeft')
      (right.lower_shows hRight hRight')
  | .unary operator operand _ _, hTexts, hSteps => by
    rw [Expression.steps] at hSteps ⊢
    rw [shownBy_append, shownBy_ofUnary, List.nil_append]
    obtain ⟨-, hOperand⟩ := List.forall_mem_append.mp hSteps
    have h := shows_unary operator operand.dataType (operand.lower_shows hTexts hOperand)
    cases operator with
    | not =>
      cases operand with
      | isIn item values valuesParameter =>
        -- a negated membership is written `NOT IN`, past the node of the membership itself
        cases values with
        | none => exact shows_membership_none true valuesParameter _
        | some values =>
          rw [Expression.steps] at hOperand ⊢
          obtain ⟨hItem, hValues⟩ := List.forall_mem_append.mp hTexts
          obtain ⟨hItem', hValues'⟩ :=
            List.forall_mem_append.mp (List.forall_mem_append.mp hOperand).2
          rw [shownBy_append, shownBy_ofMembership, List.nil_append, shownBy_append]
          exact shows_membership_some true valuesParameter (item.lower_shows hItem hItem')
            (lowerAll_shows values hValues hValues')
      | _ => exact h
    | _ => exact h
  | .conditional test ifTrue ifFalse _ _, hTexts, hSteps => by
    obtain ⟨hTest, hBranches⟩ := List.forall_mem_append.mp hTexts
    obtain ⟨hTrue, hFalse⟩ := List.forall_mem_append.mp hBranches
    obtain ⟨hTest', hBranches'⟩ := List.forall_mem_append.mp hSteps
    obtain ⟨hTrue', hFalse'⟩ := List.forall_mem_append.mp hBranches'
    rw [Expression.steps, shownBy_append, shownBy_append]
    refine (test.lower_shows hTest hTest').bind fun l hl => ?_
    refine (ifTrue.lower_shows hTrue hTrue').bind fun l' hl' => ?_
    refine (ifFalse.lower_shows hFalse hFalse').bind fun l'' hl'' => yields_pure ?_
    exact hl.conditional hl' hl''
  | .function name arguments _ _, hTexts, hSteps => by
    obtain ⟨hName, hArguments⟩ := List.forall_mem_cons.mp hTexts
    refine (lowerAll_shows arguments hArguments hSteps).bind fun ls hls => yields_pure ?_
    exact ((shows_list hls (by decide) rfl rfl).text_cons (by decide)).text_cons hName
  | .constant value _ mapping, hTexts, _ => by
    rw [Expression.steps, shownBy_ofConstant]
    exact shows_constant hTexts
  -- the one node that shows something of its own
  | .parameter name _ mapping, _, hSteps =>
    shows_parameter ctx.values (hSteps _ (List.mem_singleton_self _)) mapping
  | .isIn item none valuesParameter, _, _ => shows_membership_none false valuesParameter _
  | .isIn item (some values) valuesParameter, hTexts, hSteps => by
    rw [Expression.steps] at hSteps ⊢
    obtain ⟨hItem, hValues⟩ := List.forall_mem_append.mp hTexts
    obtain ⟨hItem', hValues'⟩ := List.forall_mem_append.mp (List.forall_mem_append.mp hSteps).2
    rw [shownBy_append, shownBy_ofMembership, List.nil_append, shownBy_append]
    exact shows_membership_some false valuesParameter (item.lower_shows hItem hItem')
      (lowerAll_shows values hValues hValues')
  | .arrayConstant items, hTexts, hSteps =>
    (lowerAll_shows items hTexts hSteps).bind fun ls hls =>
      yields_pure ((shows_list hls (by decide) rfl rfl).text_cons (by decide))
  | .exists subquery, hTexts, hSteps =>
    shows_subquery (by decide) (subquery.lower_shows hTexts hSteps)
  | .array subquery, hTexts, hSteps =>
    shows_subquery (by decide) (subquery.lower_shows hTexts hSteps)
  | .scalarSubquery subquery, hTexts, hSteps =>
    shows_subquery (by decide) (subquery.lower_shows hTexts hSteps)
  -- arguments that are looked up by name are excluded
  | .fromSql sql (.parameter name), _, hSteps => (hSteps _ (List.mem_singleton_self _)).elim
  | .fromSql sql (.constant value), hTexts, _ => by
    obtain ⟨hSql, hLiterals⟩ := List.forall_mem_cons.mp hTexts
    exact shows_fromSql hSql hLiterals
termination_by structural e => e

theorem lowerAll_shows : ∀ es : List Expression, (∀ t ∈ textsOfAll ctx.registry es, Quiet t) →
    (∀ step ∈ stepsOfAll es, step.Legible) →
    Lowering.ShowsAll (shownBy (stepsOfAll es)) (lowerAll ctx es)
  | [], _, _ => yields_pure .nil
  | e :: es, hTexts, hSteps => by
    obtain ⟨hFirst, hRest⟩ := List.forall_mem_append.mp hTexts
    obtain ⟨hFirst', hRest'⟩ := List.forall_mem_append.mp hSteps
    rw [stepsOfAll, shownBy_append]
    exact (e.lower_shows hFirst hFirst').bind fun _ hl =>
      (lowerAll_shows es hRest hRest').bind fun _ hls => yields_pure (.cons hl hls)
termination_by structural es => es

theorem lowerOptional_shows : ∀ e : Option Expression,
    (∀ t ∈ textsOfOptional ctx.registry e, Quiet t) →
    (∀ step ∈ stepsOfOptional e, step.Legible) →
    Yields (ShowsOptional (shownBy (stepsOfOptional e))) (lowerOptional ctx e)
  | none, _, _ => yields_pure rfl
  | some e, hTexts, hSteps => (e.lower_shows hTexts hSteps).bind fun _ hl => yields_pure hl
termination_by structural e => e

/-- The layout of a tree shows its references. -/
theorem Select.lower_shows : ∀ s : Select, (∀ t ∈ s.texts ctx.registry, Quiet t) →
    (∀ step ∈ s.steps, step.Legible) → Lowering.Shows (shownBy s.steps) (s.lower ctx)
  | ⟨isDistinct, projection, singleValue, sources, predicate, orderings, offset, limit⟩,
      hTexts, hSteps => by
    rw [Select.texts] at hTexts
    rw [Select.steps] at hSteps ⊢
    simp only [List.forall_mem_append] at hTexts hSteps
    obtain ⟨tProjection, tSources, tPredicate, tOrderings, tOffset, tLimit⟩ := hTexts
    obtain ⟨-, sProjection, ⟨-, sSources⟩, sPredicate, sOrderings, sOffset, sLimit, -⟩ := hSteps
    simp only [shownBy_append, shownBy_require, List.nil_append, List.append_nil]
    -- what follows is the same whether there are projections or not
    have hRest := fun (p : Layout) (hp : p.Shows (shownBy (stepsOfProjections projection))) =>
      shows_clauses isDistinct hp (lowerSources_shows sources tSources sSources)
        (lowerOptional_shows predicate tPredicate sPredicate)
        (lowerSortKeys_shows orderings tOrderings sOrderings)
        (shows_paging (lowerOptional_shows offset tOffset sOffset)
          (lowerOptional_shows limit tLimit sLimit))
    rw [Select.lower]
    split
    · exact yields_throw _
    · split
      · -- without projections the select gives a constant
        rename_i hEmpty
        obtain rfl := List.isEmpty_iff.mp hEmpty
        exact hRest _ (silent_nil.text_cons (by decide)).shows
      · exact (lowerProjections_shows _ projection tProjection sProjection).bind fun _ hls =>
          hRest _ (ProjectionStyle.shows_clause _ hls)
termination_by structural s => s

theorem lowerProjections_shows (style : ProjectionStyle) : ∀ ps : List Projection,
    (∀ t ∈ textsOfProjections ctx.registry style ps, Quiet t) →
    (∀ step ∈ stepsOfProjections ps, step.Legible) →
    Lowering.ShowsAll (shownBy (stepsOfProjections ps)) (lowerProjections ctx style ps)
  | [], _, _ => yields_pure .nil
  | ⟨expression, aliasName, name⟩ :: ps, hTexts, hSteps => by
    obtain ⟨hAlias, hTexts⟩ := List.forall_mem_append.mp hTexts
    obtain ⟨hFirst, hRest⟩ := List.forall_mem_append.mp hTexts
    obtain ⟨hFirst', hRest'⟩ := List.forall_mem_append.mp hSteps
    rw [stepsOfProjections, shownBy_append]
    exact (expression.lower_shows hFirst hFirst').bind fun _ hl =>
      (lowerProjections_shows style ps hRest hRest').bind fun _ hls =>
        yields_pure (.cons (style.shows_item hAlias hl) hls)
termination_by structural ps => ps

theorem lowerSources_shows : ∀ ss : List Source,
    (∀ t ∈ textsOfSources ctx.registry ss, Quiet t) →
    (∀ step ∈ stepsOfSources ss, step.Legible) →
    Yields (ClauseShows (shownBy (stepsOfSources ss))) (lowerSources ctx ss)
  | [], _, _ => yields_pure ⟨shows_nil, stops_nil⟩
  | [⟨container, aliasName, eachItem⟩], hTexts, hSteps => by
    obtain ⟨hAlias, hTexts⟩ := List.forall_mem_append.mp hTexts
    obtain ⟨hContainer, -⟩ := List.forall_mem_append.mp hTexts
    rw [stepsOfSources, stepsOfSources, List.append_nil] at hSteps ⊢
    obtain ⟨-, hSteps⟩ := List.forall_mem_append.mp hSteps
    have ih := container.lower_shows hContainer hSteps
    rw [shownBy_append, shownBy_require, List.nil_append]
    -- a select that stands as a source is set in brackets of its own
    cases container with
    | select select =>
      exact (shows_source hAlias eachItem (shows_derivedSource select.isSimpleValue ih)).bind
        fun _ hl => yields_pure (shows_clause (by decide) hl)
    | _ =>
      exact (shows_source hAlias eachItem ih).bind fun _ hl =>
        yields_pure (shows_clause (by decide) hl)
  | _ :: _ :: _, _, _ => by
    rw [lowerSources]
    exact yields_throw _
termination_by structural ss => ss

theorem lowerSortKeys_shows : ∀ ks : List SortKey,
    (∀ t ∈ textsOfSortKeys ctx.registry ks, Quiet t) →
    (∀ step ∈ stepsOfSortKeys ks, step.Legible) →
    Lowering.ShowsAll (shownBy (stepsOfSortKeys ks)) (lowerSortKeys ctx ks)
  | [], _, _ => yields_pure .nil
  | ⟨expression, isAscending⟩ :: ks, hTexts, hSteps => by
    obtain ⟨hFirst, hRest⟩ := List.forall_mem_append.mp hTexts
    obtain ⟨hFirst', hRest'⟩ := List.forall_mem_append.mp hSteps
    rw [stepsOfSortKeys, shownBy_append]
    refine (expression.lower_shows hFirst hFirst').bind fun l hl =>
      (lowerSortKeys_shows ks hRest hRest').bind fun _ hls => yields_pure (.cons ?_ hls)
    cases isAscending with
    | true => exact hl
    | false => exact hl.concat_text (by decide) rfl rfl
termination_by structural ks => ks

end

end Trees

/-! ## Runs without arguments of raw fragments -/

/-- A reference that has been visited is shown. -/
theorem referenceTo_mem_shownBy {steps : List Step} {name : String} :
    referenceTo name ∈ shownBy steps ↔ name ∈ (steps.filterMap Step.reference?).map Prod.fst := by
  unfold shownBy
  rw [List.mem_map, List.mem_map]
  constructor
  · rintro ⟨r, hr, hName⟩
    exact ⟨r, hr, referenceTo_inj.mp hName⟩
  · rintro ⟨r, hr, rfl⟩
    exact ⟨r, hr, rfl⟩

theorem shownBy_concat_parameter (steps : List Step) (name : String)
    (mapping : Option TypeMapping) :
    shownBy (steps ++ [.parameter name mapping]) = shownBy steps ++ [referenceTo name] :=
  shownBy_append steps _

namespace Bindings

/-- What is bound are the references visited so far, each under the mapping of its
first one. -/
structure Faithful (values : ParameterValues) (done : List Step) (b : Bindings) : Prop where
  names : b.parameters.map Parameter.name = (shownBy done).eraseDups
  sent : ∀ p ∈ b.parameters, ∃ name mapping value, p.name = referenceTo name ∧
    (done.filterMap Step.reference?).lookup name = some (some mapping) ∧
    values.lookup name = some value ∧ mapping.payload value = .ok p.value

variable {values : ParameterValues} {done : List Step} {b : Bindings}

theorem faithful_empty (values : ParameterValues) : Faithful values [] {} :=
  ⟨by simp, nofun⟩

theorem Faithful.isBound_iff_mem (h : Faithful values done b) {name : String} :
    b.isBound (referenceTo name) = true ↔ referenceTo name ∈ shownBy done := by
  rw [isBound_eq_contains, h.names, List.contains_iff_mem, List.mem_eraseDups]

/-- The first mapping of a name stays the first. -/
theorem Faithful.sent_append (h : Faithful values done b) (step : Step) :
    ∀ p ∈ b.parameters, ∃ name mapping value, p.name = referenceTo name ∧
      ((done ++ [step]).filterMap Step.reference?).lookup name = some (some mapping) ∧
      values.lookup name = some value ∧ mapping.payload value = .ok p.value := by
  intro p hp
  obtain ⟨name, mapping, value, hName, hFirst, hRest⟩ := h.sent p hp
  refine ⟨name, mapping, value, hName, ?_, hRest⟩
  rw [List.filterMap_append, List.lookup_append, hFirst]
  rfl

/-- A step that refers to nothing. -/
theorem Faithful.skip (h : Faithful values done b) {step : Step} (hStep : step.reference? = none) :
    Faithful values (done ++ [step]) b := by
  refine ⟨?_, h.sent_append step⟩
  rw [h.names, shownBy_append]
  simp [shownBy, hStep]

theorem Faithful.bound (h : Faithful values done b) {name : String} (mapping : Option TypeMapping)
    (hBound : b.isBound (referenceTo name) = true) :
    Faithful values (done ++ [.parameter name mapping]) b := by
  have hMem : referenceTo name ∈ shownBy done := h.isBound_iff_mem.mp hBound
  refine ⟨?_, h.sent_append _⟩
  rw [h.names, shownBy_concat_parameter, List.eraseDups_append]
  simp [List.removeAll, hMem]

theorem Faithful.bind (h : Faithful values done b) {name : String} {mapping : TypeMapping}
    {value : Value} {payload : Json} (hFree : b.isBound (referenceTo name) = false)
    (hValue : values.lookup name = some value) (hPayload : mapping.payload value = .ok payload) :
    Faithful values (done ++ [.parameter name (some mapping)])
      (b.bind (referenceTo name) payload) := by
  have hNew : referenceTo name ∉ shownBy done := by
    intro hMem
    rw [h.isBound_iff_mem.mpr hMem] at hFree
    cases hFree
  refine ⟨?_, ?_⟩
  · rw [shownBy_concat_parameter, List.eraseDups_append, ← h.names]
    simp [Bindings.bind, List.removeAll, hNew, List.eraseDups_cons]
  · intro p hp
    rcases List.mem_append.mp hp with hOld | hAdded
    · exact h.sent_append _ p hOld
    · -- the name is new among the references, so that this mapping is its first
      obtain rfl := List.mem_singleton.mp hAdded
      refine ⟨name, mapping, value, rfl, ?_, hValue, hPayload⟩
      have hNone : (done.filterMap Step.reference?).lookup name = none := by
        rw [List.lookup_eq_none_iff]
        intro r hr
        rw [bne_iff_ne]
        rintro rfl
        exact hNew (referenceTo_mem_shownBy.mpr (List.mem_map_of_mem hr))
      rw [List.filterMap_append, List.lookup_append, hNone]
      simp [Step.reference?]

end Bindings

/-- A run without arguments of raw fragments binds the references of its steps. -/
theorem runSteps_faithful {ctx : Context} {b : Bindings} {steps : List Step}
    (hRaw : steps.filterMap Step.arrayName? = []) (h : runSteps ctx {} steps = .ok b) :
    b.Faithful ctx.values steps := by
  refine runSteps_induction
    (P := fun done b => done.filterMap Step.arrayName? = [] → b.Faithful ctx.values done)
    (fun _ => Bindings.faithful_empty _) ?_ h hRaw
  intro done b step b' ih hStep hRaw
  -- neither the step nor those before it take arguments by name
  rw [List.filterMap_append, List.append_eq_nil_iff] at hRaw
  have hDone := ih hRaw.1
  cases hStep with
  | bound hBound => exact hDone.bound _ hBound
  | named hFree hValue hPayload => exact hDone.bind hFree hValue hPayload
  | arguments => cases hRaw.2
  | constants => exact hDone.skip rfl

/-! ## Queries -/

theorem Step.legible_of_references {steps : List Step}
    (hRaw : steps.filterMap Step.arrayName? = [])
    (hNames : ∀ name ∈ (steps.filterMap Step.reference?).map Prod.fst, IsName name) :
    ∀ step ∈ steps, step.Legible := by
  intro step hStep
  cases step with
  | fail e => exact trivial
  | parameter name mapping =>
    have hMem : (name, mapping) ∈ steps.filterMap Step.reference? :=
      List.mem_filterMap.mpr ⟨_, hStep, rfl⟩
    exact hNames name (List.mem_map_of_mem hMem)
  | raw sql arguments =>
    cases arguments with
    | parameter name =>
      rw [List.filterMap_eq_nil_iff] at hRaw
      cases hRaw _ hStep
    | constant value => exact trivial

/-- **Placeholders and parameters match.** Where no raw fragment takes arguments,
names are words and no other string of the tree brings an `@` into the text, the
first occurrences of the placeholders that a scanner finds in the text are the
parameters of the query, in this order; each carries the value supplied for its
name as the first reference to the name renders it. -/
theorem generate_placeholders {s : Select} {registry : Registry} {values : ParameterValues}
    {options : GeneratorOptions} {q : Query} (hRaw : s.arrayNames = [])
    (hNames : ∀ name ∈ s.references.map Prod.fst, IsName name)
    (hTexts : ∀ t ∈ s.texts registry, '@' ∉ t.toList)
    (hQuery : s.generate registry values options = .ok q) :
    (placeholders q.text.toList).eraseDups = q.parameters.map Parameter.name ∧
      ∀ p ∈ q.parameters, ∃ name mapping value, p.name = referenceTo name ∧
        s.references.lookup name = some (some mapping) ∧ values.lookup name = some value ∧
        mapping.payload value = .ok p.value := by
  have hLegible := Step.legible_of_references hRaw hNames
  rw [Select.generate_eq, map_eq_ok] at hQuery
  obtain ⟨r, hLower, rfl⟩ := hQuery
  have hRun : runSteps ⟨registry, values⟩ {} s.steps = .ok r.2 := by
    rw [← Select.lower_bindings, hLower]
    rfl
  -- the run binds the references, and the layout shows them in the same order
  have hBound := runSteps_faithful hRaw hRun
  have hShown := s.lower_shows ⟨registry, values⟩ hTexts hLegible {} r hLower
  refine ⟨?_, hBound.sent⟩
  rw [hBound.names, hShown.render]

/-- A name that is referred to twice, and again in a subquery behind another one. -/
def Select.repeatedReferences : Select :=
  { Select.empty with
    projection := [⟨.parameter "b" .string (some (.json .string)), "", ""⟩,
      ⟨.parameter "a" .int64 (some (.json .int64)), "first", "first"⟩]
    predicate := some (.binary .equal (.parameter "b" .string none)
      (.scalarSubquery { Select.empty with
        projection := [⟨.parameter "a_1" .int64 (some (.json .int64)), "", ""⟩]
        singleValue := true
        limit := some (.parameter "a" .int64 none) }) .bool none) }

/-- Neither is `@a` taken for the beginning of `@a_1`, nor is `@b` found again. -/
theorem repeatedReferences_placeholders :
    ∃ q, Select.repeatedReferences.generate .builtin
        [("a", .int 7), ("a_1", .null), ("b", .string "@c")] = .ok q ∧
      (placeholders q.text.toList).eraseDups = ["@b", "@a", "@a_1"] := by
  have hRun : runSteps ⟨.builtin, [("a", .int 7), ("a_1", .null), ("b", .string "@c")]⟩ {}
      Select.repeatedReferences.steps =
      .ok ⟨[⟨"@b", .str "@c"⟩, ⟨"@a", .int 7⟩, ⟨"@a_1", .null⟩], 0⟩ := rfl
  obtain ⟨q, hQuery, hParameters⟩ := Select.exists_query {} hRun
  refine ⟨q, hQuery, ?_⟩
  rw [(generate_placeholders rfl ?_ ?_ hQuery).1, hParameters]
  · rfl
  · decide
  · decide

end DocumentQuery
