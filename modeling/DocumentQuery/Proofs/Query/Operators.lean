import DocumentQuery.Proofs.Expression.Untyped
import DocumentQuery.Proofs.Query.Placeholders
import DocumentQuery.Proofs.Text.Tokens

/-!
# The text of an expression keeps its structure

Binary operators and conditionals are set in parentheses, prefix operators set their
operand in parentheses; indexing, properties and memberships follow their operand
without any. A reader with a stack finds the expression again, so that expressions
with the same text are the same up to types and mappings. That the token of a negation
or of an addition depends on a type does not matter: both tokens are read alike.

Main definitions and results:

* `Expression.Operational` — names, properties, integers, and what operators,
  functions and lists make of them.
* `Reader.step` — one token more.
* `Expression.lower_reads` — the layout of an expression is read as the expression.
* `generate_value_injective` — no two structures share a text.
-/

namespace DocumentQuery

open Text Layout

/-! ## Expressions of operators -/

mutual

/-- The expression consists of names, properties, integers, operators, conditionals,
function calls, memberships and lists. -/
def Expression.Operational : Expression → Prop
  | .objectReference name => IsIdentifier name
  | .keyAccess object property _ _ => object.Operational ∧ '"' ∉ property.toList
  | .constant (.int _) _ (some mapping) => mapping.rendering = .json
  | .binary _ left right _ _ => left.Operational ∧ right.Operational
  | .unary _ operand _ _ => operand.Operational
  | .conditional test ifTrue ifFalse _ _ =>
    test.Operational ∧ ifTrue.Operational ∧ ifFalse.Operational
  -- a call of `NOT` would be a negation
  | .function name arguments _ _ =>
    IsIdentifier name ∧ name ≠ "NOT" ∧ AllOperational arguments
  | .isIn item (some values) _ => item.Operational ∧ AllOperational values
  | .arrayConstant items => AllOperational items
  | _ => False
termination_by structural e => e

def AllOperational : List Expression → Prop
  | [] => True
  | e :: es => e.Operational ∧ AllOperational es
termination_by structural es => es

end

/-! ## The reader -/

namespace Reader

/-- What a word between operands stands for. Strings are concatenated by a word of
their own. -/
def binaryOperator? (word : String) : Option BinaryOperator :=
  if word = "||" then some .add
  else (Enumerated.members : List BinaryOperator).find? fun operator =>
    operator.token? == some (" " ++ word ++ " ")

/-- What a word before an operand in parentheses stands for, unless it is the name of
a function. -/
def unaryOperator? : String → Option UnaryOperator
  | "+" => some .plus
  | "-" => some .negate
  | "NOT" | "~" => some .not
  | _ => none

/-- A list between brackets. -/
inductive Listing where
  /-- Arguments of a function, or the operand of an operator. -/
  | call (name : String)
  | array
  | membership (negated : Bool) (item : Expression)

/-- What the list makes together with what it belongs to. -/
def Listing.whole : Listing → List Expression → Expression
  | .call name, arguments =>
    match unaryOperator? name, arguments with
    | some operator, [operand] => .unary operator operand .unknown none
    | _, arguments => .function name arguments .unknown none
  | .array, items => .arrayConstant items
  | .membership negated item, values =>
    if negated then .unary .not (.isIn item (some values) none) .unknown none
    else .isIn item (some values) none

/-- A bracket that has been opened, with what has been read in it so far. -/
inductive Frame where
  | group
  | right (operator : BinaryOperator) (left : Expression)
  | ifTrue (test : Expression)
  | ifFalse (test result : Expression)
  | index (array : Expression)
  | items (listing : Listing) (before : List Expression)

/-- What the bracket makes of the last operand in it. -/
def Frame.whole : Frame → Expression → Expression
  | .right operator left, e => .binary operator left e .unknown none
  | .ifFalse test result, e => .conditional test result e .unknown none
  -- a quoted name stands for a property
  | .index object, .constant (.string property) _ _ => .keyAccess object property .unknown none
  | .index array, e => .binary .arrayIndex array e .unknown none
  | .items listing before, e => listing.whole (before ++ [e])
  | .group, e => e
  | .ifTrue _, e => e

inductive Position where
  /-- An operand begins. -/
  | start
  /-- The parenthesis of a list comes next. -/
  | awaiting (listing : Listing)
  /-- Behind an operand. -/
  | operand (e : Expression)

structure State where
  position : Position
  /-- The innermost bracket first. -/
  frames : List Frame

/-- A word where an operand begins. -/
def atom (word : String) : Expression :=
  match integer? word with
  | some n => .constant (.int (Int64.ofInt n)) .unknown none
  | none => .objectReference word

/-- The first token of an operand, or the end of a list without items. -/
def begin (frames : List Frame) : Token → State
  | .opening false => ⟨.start, .group :: frames⟩
  | .opening true => ⟨.start, .items .array [] :: frames⟩
  | .word s => ⟨.operand (atom s), frames⟩
  | .quoted s => ⟨.operand (.constant (.string s) .unknown none), frames⟩
  | .closing _ =>
    match frames with
    | .items listing before :: frames => ⟨.operand (listing.whole before), frames⟩
    | frames => ⟨.start, frames⟩
  | .comma | .lineEnd => ⟨.start, frames⟩

/-- A word behind an operand. -/
def infixed (e : Expression) (word : String) (frames : List Frame) : State :=
  if word = "IN" then ⟨.awaiting (.membership false e), frames⟩
  else if word = "NOT" then ⟨.awaiting (.membership true e), frames⟩
  else if word = "?" then ⟨.start, .ifTrue e :: frames.tail⟩
  else
    match binaryOperator? word, frames with
    | some operator, _ => ⟨.start, .right operator e :: frames.tail⟩
    | none, .ifTrue test :: frames => ⟨.start, .ifFalse test e :: frames⟩
    | none, frames => ⟨.operand e, frames⟩

/-- A token behind an operand. -/
def resume (e : Expression) (frames : List Frame) : Token → State
  | .opening false =>
    match e with
    | .objectReference name => ⟨.start, .items (.call name) [] :: frames⟩
    | e => ⟨.operand e, frames⟩
  | .opening true => ⟨.start, .index e :: frames⟩
  | .closing _ =>
    match frames with
    | frame :: frames => ⟨.operand (frame.whole e), frames⟩
    | [] => ⟨.operand e, []⟩
  | .comma =>
    match frames with
    | .items listing before :: frames => ⟨.start, .items listing (before ++ [e]) :: frames⟩
    | frames => ⟨.operand e, frames⟩
  | .word s => infixed e s frames
  | .quoted _ | .lineEnd => ⟨.operand e, frames⟩

/-- One token more. What the text of no expression contains is passed over. -/
def step (state : State) (token : Token) : State :=
  match state.position with
  | .start => begin state.frames token
  | .operand e => resume e state.frames token
  | .awaiting listing =>
    if token = .opening false then ⟨.start, .items listing [] :: state.frames⟩ else state

end Reader

open Reader

/-! ## Layouts before the reader -/

namespace Layout

/-- The layout is read as an operand, whatever brackets are open. -/
def Reads (l : Layout) (e : Expression) : Prop :=
  ∀ frames, l.Takes step ⟨.start, frames⟩ ⟨.operand e, frames⟩

/-- The layouts are read as operands one after the other. -/
inductive ReadsAll : List Layout → List Expression → Prop where
  | nil : ReadsAll [] []
  | cons {l : Layout} {ls : List Layout} {e : Expression} {es : List Expression} (h : Reads l e)
      (hRest : ReadsAll ls es) : ReadsAll (l :: ls) (e :: es)

variable {l l' l'' : Layout} {ls : List Layout} {e e' e'' : Expression} {es : List Expression}

theorem spells_openingSquare : Spells "[" [.opening true] := fun _ => rfl

theorem spells_closingSquare : Spells "]" [.closing true] := fun _ => rfl

/-- The items of a list and the bracket that closes it. -/
theorem ReadsAll.list (h : ReadsAll ls es) {closing : String} {square : Bool}
    (hClosing : Spells closing [.closing square]) {c : Char}
    (hHead : closing.toList.head? = some c) (hc : isWord c = false) (listing : Listing)
    (before : List Expression) (frames : List Frame) :
    Takes step ⟨.start, .items listing before :: frames⟩
      ⟨.operand (listing.whole (before ++ es)), frames⟩
      (separated [.text ", "] ls ++ [.text closing]) := by
  induction h generalizing before with
  | nil =>
    rw [List.append_nil]
    exact takes_nil.text_cons hClosing rfl
  | @cons l ls e es hFirst hRest ih =>
    have hFirst := hFirst (.items listing before :: frames)
    cases hRest with
    | nil => exact hFirst.concat_text hClosing rfl hHead hc
    | @cons l' ls e' es _ _ =>
      -- the comma puts the item to those before it
      have hRest := (ih (before ++ [e])).text_cons spells_comma
        (a := State.mk (.operand e) (.items listing before :: frames)) rfl
      rw [← List.append_cons] at hRest
      rw [separated_cons, List.append_assoc, List.append_assoc]
      exact hFirst.append hRest (stops_text rfl rfl _)

/-! ### Nodes -/

theorem reads_name {name : String} (h : IsIdentifier name) :
    Reads [.text name] (.objectReference name) := by
  intro frames
  have hAtom : atom name = .objectReference name := by
    rw [atom, h.integer?_eq_none]
  exact takes_nil.word_cons h.isName.isToken.spells
    (congrArg (State.mk · frames) (congrArg _ hAtom)) stops_nil

theorem reads_integer (n : Int64) :
    Reads [.text (String.ofList (Digits.writeInt n.toInt))]
      (.constant (.int n) .unknown none) := by
  intro frames
  have hAtom : atom (String.ofList (Digits.writeInt n.toInt)) =
      .constant (.int n) .unknown none := by
    rw [atom, integer?_writeInt]
    simp only [Int64.ofInt_toInt]
  exact takes_nil.word_cons (isToken_writeInt _).spells
    (congrArg (State.mk · frames) (congrArg _ hAtom)) stops_nil

/-- The word of a binary operator, whatever the type of its left operand. -/
theorem tokenFor?_word {operator : BinaryOperator} {left : DataType} {token : String}
    (h : operator.tokenFor? left = some token) :
    ∃ word, Spells token [.word word] ∧
      ∀ e frames, [Token.word word].foldl step ⟨.operand e, .group :: frames⟩ =
        ⟨.start, .right operator e :: frames⟩ := by
  -- the token without the blanks around it
  refine ⟨String.ofList (token.toList.filter (· != ' ')), ?_⟩
  unfold BinaryOperator.tokenFor? at h
  split at h
  · rename_i hAdd
    obtain ⟨rfl, -⟩ := hAdd
    obtain rfl := Option.some.inj h
    exact ⟨fun _ => rfl, fun _ _ => rfl⟩
  · cases operator <;> cases h
    all_goals exact ⟨fun _ => rfl, fun _ _ => rfl⟩

theorem Reads.binary (h : Reads l e) (h' : Reads l' e') {operator : BinaryOperator}
    {left : DataType} {token : String} (hToken : operator.tokenFor? left = some token) :
    Reads (.text "(" :: l ++ .text token :: l' ++ [.text ")"])
      (.binary operator e e' .unknown none) := by
  intro frames
  obtain ⟨word, hWord, hStep⟩ := tokenFor?_word hToken
  obtain ⟨-, hHead⟩ := BinaryOperator.tokenFor?_head hToken
  have hLeft := (h (.group :: frames)).text_cons spells_opening (a := State.mk .start frames) rfl
  have hRight := (h' (.right operator e :: frames)).text_cons hWord (hStep e frames)
  exact (hLeft.append hRight (stops_text hHead rfl _)).concat_text spells_closing rfl rfl rfl

/-- An item of an array. Only a quoted name would be taken for a property. -/
theorem Reads.index (h : Reads l e) (h' : Reads l' e')
    (hQuoted : ∀ s type mapping, e' ≠ .constant (.string s) type mapping) :
    Reads (l ++ .text "[" :: l' ++ [.text "]"]) (.binary .arrayIndex e e' .unknown none) := by
  intro frames
  have hWhole : (Frame.index e).whole e' = .binary .arrayIndex e e' .unknown none := by
    cases e' with
    | constant value type mapping =>
      cases value with
      | string s => exact absurd rfl (hQuoted s type mapping)
      | _ => rfl
    | _ => rfl
  have hIndex := (h' (.index e :: frames)).text_cons spells_openingSquare
    (a := State.mk (.operand e) frames) rfl
  have hAll := ((h frames).append hIndex (stops_text rfl rfl _)).concat_text spells_closingSquare
    (c := State.mk (.operand ((Frame.index e).whole e')) frames) rfl rfl rfl
  rwa [hWhole] at hAll

theorem Reads.property (h : Reads l e) {property : String} (hProperty : '"' ∉ property.toList) :
    Reads (l ++ [.text ("[\"" ++ property ++ "\"]")])
      (.keyAccess e property .unknown none) := by
  intro frames
  have hText : ("[\"" ++ property ++ "\"]").toList =
      '[' :: '"' :: (property.toList ++ '"' :: [']']) := by
    rw [String.toList_append, String.toList_append]
    rfl
  have hSpells : Spells ("[\"" ++ property ++ "\"]")
      [.opening true, .quoted property, .closing true] := by
    intro rest
    have hQuoted := tokens_quoted hProperty (']' :: rest)
    rw [String.ofList_toList] at hQuoted
    rw [hText, List.cons_append, List.cons_append, List.append_assoc]
    exact congrArg (.opening true :: ·) hQuoted
  exact (h frames).concat_text hSpells rfl (by rw [hText]; rfl) rfl

/-- A name is not taken for a prefix operator. -/
theorem unaryOperator?_eq_none {name : String} (h : IsIdentifier name) (hNot : name ≠ "NOT") :
    unaryOperator? name = none := by
  have hWord : ∀ s : String, (∃ c ∈ s.toList, isWord c = false) → name ≠ s := by
    rintro s ⟨c, hc, hNoWord⟩ rfl
    rw [h.isName.2 c hc] at hNoWord
    cases hNoWord
  unfold unaryOperator?
  split
  · exact absurd rfl (hWord "+" ⟨'+', by decide⟩)
  · exact absurd rfl (hWord "-" ⟨'-', by decide⟩)
  · exact absurd rfl hNot
  · exact absurd rfl (hWord "~" ⟨'~', by decide⟩)
  · rfl

theorem ReadsAll.call (h : ReadsAll ls es) {name : String} (hName : IsIdentifier name)
    (hNot : name ≠ "NOT") :
    Reads (.text name :: .text "(" :: separated [.text ", "] ls ++ [.text ")"])
      (.function name es .unknown none) := by
  intro frames
  -- the name is read as a reference until the parenthesis behind it makes it a function
  have hWhole : (Listing.call name).whole es = .function name es .unknown none := by
    simp only [Listing.whole, unaryOperator?_eq_none hName hNot]
  have hArguments := (h.list spells_closing rfl rfl (.call name) [] frames).text_cons
    spells_opening (a := State.mk (.operand (.objectReference name)) frames) rfl
  rw [List.nil_append, hWhole] at hArguments
  exact (reads_name hName frames).append hArguments (stops_text rfl rfl _)

/-- The word of a prefix operator, whatever the type of its operand. -/
theorem token?_word {operator : UnaryOperator} {operand : DataType} {token : String}
    (h : operator.token? operand = some token) :
    token ≠ "" ∧ Spells (token ++ "(") [.word token, .opening false] ∧
      (∀ frames, [Token.word token, .opening false].foldl step ⟨.start, frames⟩ =
        ⟨.start, .items (.call token) [] :: frames⟩) ∧
      unaryOperator? token = some operator := by
  unfold UnaryOperator.token? at h
  cases operator <;> simp only [Option.some.injEq, reduceCtorEq] at h
  · subst h
    exact ⟨by decide, fun _ => rfl, fun _ => rfl, rfl⟩
  · subst h
    exact ⟨by decide, fun _ => rfl, fun _ => rfl, rfl⟩
  · subst h
    split
    · exact ⟨by decide, fun _ => rfl, fun _ => rfl, rfl⟩
    · exact ⟨by decide, fun _ => rfl, fun _ => rfl, rfl⟩

theorem Reads.unary (h : Reads l e) {operator : UnaryOperator} {operand : DataType}
    {token : String} (hToken : operator.token? operand = some token) :
    Reads (.text token :: .text "(" :: l ++ [.text ")"]) (.unary operator e .unknown none) := by
  intro frames
  obtain ⟨hNonempty, hSpells, hStep, hOperator⟩ := token?_word hToken
  have hWhole : (Listing.call token).whole [e] = .unary operator e .unknown none := by
    simp only [Listing.whole, hOperator]
  have hOperand := (ReadsAll.cons h .nil).list spells_closing rfl rfl (.call token) [] frames
  rw [List.nil_append, hWhole] at hOperand
  -- a sign of its own would run into what follows, so it is read with its parenthesis
  exact hOperand.texts_cons hNonempty hSpells (hStep frames)

theorem ReadsAll.array (h : ReadsAll ls es) :
    Reads (.text "[" :: separated [.text ", "] ls ++ [.text "]"]) (.arrayConstant es) :=
  fun frames => (h.list spells_closingSquare rfl rfl .array [] frames).text_cons
    spells_openingSquare rfl

/-- A membership or its negation. -/
theorem Reads.membership (h : Reads l e) (hs : ReadsAll ls es) (negated : Bool) :
    Reads (l ++ .text (if negated then " NOT IN (" else " IN (") ::
      separated [.text ", "] ls ++ [.text ")"]) ((Listing.membership negated e).whole es) := by
  intro frames
  have hValues := hs.list spells_closing rfl rfl (.membership negated e) [] frames
  rw [List.append_assoc]
  cases negated with
  | true =>
    have hWords : Spells " NOT IN (" [.word "NOT", .word "IN", .opening false] := fun _ => rfl
    exact (h frames).append (hValues.text_cons hWords rfl) (stops_text rfl rfl _)
  | false =>
    have hWords : Spells " IN (" [.word "IN", .opening false] := fun _ => rfl
    exact (h frames).append (hValues.text_cons hWords rfl) (stops_text rfl rfl _)

theorem Reads.conditional (h : Reads l e) (h' : Reads l' e') (h'' : Reads l'' e'') :
    Reads (.text "(" :: l ++ .text " ? " :: l' ++ .text " : " :: l'' ++ [.text ")"])
      (.conditional e e' e'' .unknown none) := by
  intro frames
  have hMark : Spells " ? " [.word "?"] := fun _ => rfl
  have hColon : Spells " : " [.word ":"] := fun _ => rfl
  -- each operand begins in the frame that the token before it has left
  have hTest := (h (.group :: frames)).text_cons spells_opening (a := State.mk .start frames) rfl
  have hTrue := (h' (.ifTrue e :: frames)).text_cons hMark
    (a := State.mk (.operand e) (.group :: frames)) rfl
  have hFalse := (h'' (.ifFalse e e' :: frames)).text_cons hColon
    (a := State.mk (.operand e') (.ifTrue e :: frames)) rfl
  exact ((hTest.append hTrue (stops_text rfl rfl _)).append hFalse
    (stops_text rfl rfl _)).concat_text spells_closing rfl rfl rfl

end Layout

open Lowering

/-! ## Trees -/

/-- There are no strings among the constants. -/
theorem Expression.Operational.untyped_ne_string {e : Expression} (h : e.Operational) (s : String)
    (type : DataType) (mapping : Option TypeMapping) :
    e.untyped ≠ .constant (.string s) type mapping := by
  intro hString
  cases e with
  | constant value _ _ =>
    cases value with
    | int n => cases hString
    | _ => exact h
  | isIn item values _ => cases values <;> cases hString
  | _ => cases hString

theorem Lowering.reads_constant (n : Int64) {mapping : TypeMapping}
    (hJson : mapping.rendering = .json) :
    Yields (Layout.Reads · (.constant (.int n) .unknown none))
      (constant (.int n) (some mapping)) := by
  obtain ⟨type, rendering⟩ := mapping
  obtain rfl : rendering = .json := hJson
  exact yields_pure (reads_integer n)

theorem Lowering.reads_binary (operator : BinaryOperator) (leftType : DataType)
    {left right : Lowering Layout} {e e' : Expression} (hl : Yields (Layout.Reads · e) left)
    (hr : Yields (Layout.Reads · e') right)
    (hQuoted : ∀ s type mapping, e' ≠ .constant (.string s) type mapping) :
    Yields (Layout.Reads · (.binary operator e e' .unknown none))
      (binary operator leftType left right) := by
  unfold binary
  by_cases hIndex : operator = .arrayIndex
  · rw [if_pos hIndex, hIndex]
    exact hl.bind fun _ hl => hr.bind fun _ hr => yields_pure (hl.index hr hQuoted)
  · rw [if_neg hIndex]
    cases hToken : operator.tokenFor? leftType with
    | none => exact yields_throw _
    | some token => exact hl.bind fun _ hl => hr.bind fun _ hr => yields_pure (hl.binary hr hToken)

theorem Lowering.reads_unary (operator : UnaryOperator) (operandType : DataType)
    {operand : Lowering Layout} {e : Expression} (h : Yields (Layout.Reads · e) operand) :
    Yields (Layout.Reads · (.unary operator e .unknown none))
      (unary operator operandType operand) := by
  unfold unary
  cases hToken : operator.token? operandType with
  | none => exact yields_throw _
  | some token => exact h.bind fun _ hl => yields_pure (hl.unary hToken)

/-- A membership in values that are given leaves no name to look them up by. -/
theorem Lowering.reads_membership (negated : Bool) (valuesParameter : Option String)
    {item : Lowering Layout} {values : Lowering (List Layout)} {e : Expression}
    {es : List Expression} (hi : Yields (Layout.Reads · e) item)
    (hv : Yields (Layout.ReadsAll · es) values) :
    Yields (Layout.Reads · (if negated then
        .unary .not (.isIn e (some es) valuesParameter) .unknown none
      else .isIn e (some es) valuesParameter))
      (membership negated valuesParameter item (some values)) := by
  cases valuesParameter with
  | some name => exact yields_throw _
  | none => exact hi.bind fun _ hl => hv.bind fun _ hls => yields_pure (hl.membership hls negated)

section Trees

variable (ctx : Context)

mutual

/-- The layout of an expression is read as the expression. -/
theorem Expression.lower_reads : ∀ e : Expression, e.Operational →
    Yields (Layout.Reads · e.untyped) (e.lower ctx)
  | .objectReference name, h => yields_pure (reads_name h)
  | .keyAccess object property _ _, ⟨hObject, hProperty⟩ =>
    (object.lower_reads hObject).bind fun _ hl => yields_pure (hl.property hProperty)
  | .constant (.int n) _ (some mapping), h => reads_constant n h
  | .binary operator left right _ _, ⟨hLeft, hRight⟩ =>
    reads_binary operator left.dataType (left.lower_reads hLeft) (right.lower_reads hRight)
      hRight.untyped_ne_string
  | .unary operator operand _ _, hOperand => by
    have h := reads_unary operator operand.dataType (operand.lower_reads hOperand)
    cases operator with
    | not =>
      cases operand with
      | isIn item values valuesParameter =>
        cases values with
        | none => exact hOperand.elim
        | some values =>
          -- the membership is not lowered as a node of its own
          obtain ⟨hItem, hValues⟩ := hOperand
          exact reads_membership true valuesParameter (item.lower_reads hItem)
            (lowerAll_reads values hValues)
      | _ => exact h
    | _ => exact h
  | .conditional test ifTrue ifFalse _ _, ⟨hTest, hTrue, hFalse⟩ =>
    (test.lower_reads hTest).bind fun _ hl => (ifTrue.lower_reads hTrue).bind fun _ hl' =>
      (ifFalse.lower_reads hFalse).bind fun _ hl'' => yields_pure (hl.conditional hl' hl'')
  | .function name arguments _ _, ⟨hName, hNot, hArguments⟩ =>
    (lowerAll_reads arguments hArguments).bind fun _ hls => yields_pure (hls.call hName hNot)
  | .isIn item (some values) valuesParameter, ⟨hItem, hValues⟩ =>
    reads_membership false valuesParameter (item.lower_reads hItem)
      (lowerAll_reads values hValues)
  | .arrayConstant items, hItems =>
    (lowerAll_reads items hItems).bind fun _ hls => yields_pure hls.array
termination_by structural e => e

theorem lowerAll_reads : ∀ es : List Expression, AllOperational es →
    Yields (Layout.ReadsAll · (untypedAll es)) (lowerAll ctx es)
  | [], _ => yields_pure .nil
  | e :: es, ⟨hFirst, hRest⟩ =>
    (e.lower_reads hFirst).bind fun _ hl =>
      (lowerAll_reads es hRest).bind fun _ hls => yields_pure (.cons hl hls)
termination_by structural es => es

end

end Trees

/-! ## Queries -/

theorem Select.lower_projectValue (ctx : Context) (e : Expression) :
    (Select.empty.projectValue e).lower ctx = do
      return .text "SELECT " :: .text "VALUE " :: (← e.lower ctx) := by
  simp [projectValue, empty, Projection.of, Select.lower, lowerProjections, lowerSources,
    lowerOptional, lowerSortKeys, paging, ProjectionStyle.of, ProjectionStyle.clause,
    ProjectionStyle.item, separated]

/-- Behind its first two words the text of a value is read as the value. -/
theorem generate_value_reads {e : Expression} (h : e.Operational) {registry : Registry}
    {values : ParameterValues} {options : GeneratorOptions} {q : Query}
    (hQuery : (Select.empty.projectValue e).generate registry values options = .ok q) :
    ∃ rest, q.text.toList = "SELECT VALUE ".toList ++ rest ∧
      (tokens rest).foldl step ⟨.start, []⟩ = ⟨.operand e.untyped, []⟩ := by
  rw [Select.generate_eq, map_eq_ok] at hQuery
  obtain ⟨r, hLower, rfl⟩ := hQuery
  have hLayout : Yields (fun layout => ∃ l, layout = .text "SELECT " :: .text "VALUE " :: l ∧
      Layout.Reads l e.untyped) ((Select.empty.projectValue e).lower ⟨registry, values⟩) := by
    rw [Select.lower_projectValue]
    exact (e.lower_reads _ h).bind fun l hl => yields_pure ⟨l, rfl, hl⟩
  obtain ⟨l, hl, hReads⟩ := hLayout {} r hLower
  -- the reader begins behind the two words, in the middle of the first line
  refine ⟨written l ⟨"SELECT VALUE ", options.indentSize, 0, false⟩, ?_, ?_⟩
  · rw [hl, toList_render]
    rfl
  · have hText := hReads [] ⟨"SELECT VALUE ", options.indentSize, 0, false⟩ [] Text.stops_nil
    rwa [List.append_nil] at hText

/-- **No two structures share a text.** Two expressions of names, properties, integers,
operators, calls, memberships and lists that are written alike, under whatever
registries, values and indents, differ in types and mappings at most. -/
theorem generate_value_injective {e e' : Expression} (h : e.Operational) (h' : e'.Operational)
    {registry registry' : Registry} {values values' : ParameterValues}
    {options options' : GeneratorOptions} {q q' : Query}
    (hQuery : (Select.empty.projectValue e).generate registry values options = .ok q)
    (hQuery' : (Select.empty.projectValue e').generate registry' values' options' = .ok q')
    (hText : q.text = q'.text) : e.untyped = e'.untyped := by
  obtain ⟨rest, hRest, hReads⟩ := generate_value_reads h hQuery
  obtain ⟨rest', hRest', hReads'⟩ := generate_value_reads h' hQuery'
  rw [hText, hRest', List.append_cancel_left_eq] at hRest
  rw [← hRest, hReads'] at hReads
  exact (Position.operand.inj (State.mk.inj hReads).1).symm

/-- A choice by a membership, between a concatenation and a complement. -/
def Expression.nestedOperators (type : DataType) : Expression :=
  .conditional
    (.unary .not (.isIn (.keyAccess (.objectReference "c") "a b" type none)
      (some [.constant (.int (-1)) .int64 (some (.json type)), .objectReference "d"]) none)
      .bool none)
    (.binary .add (.binary .arrayIndex (.objectReference "c")
      (.constant (.int 0) type (some (.json .int64))) .string none)
      (.function "f" [.arrayConstant []] type none) type none)
    (.unary .not (.unary .negate (.objectReference "d") type none) type none) type none

/-- Types and mappings leave no trace where no operator depends on them. -/
theorem nestedOperators_untyped :
    ∃ q, (Select.empty.projectValue (.nestedOperators .int32)).generate .builtin [] = .ok q ∧
      (Select.empty.projectValue (.nestedOperators .object)).generate .builtin [] = .ok q ∧
      (Expression.nestedOperators .int32).untyped =
        (Expression.nestedOperators .object).untyped := by
  have hOperational : ∀ type, (Expression.nestedOperators type).Operational := by
    intro type
    have hC : IsIdentifier "c" := by decide
    have hD : IsIdentifier "d" := by decide
    have hF : IsIdentifier "f" := by decide
    exact ⟨⟨⟨hC, by decide⟩, rfl, hD, trivial⟩, ⟨⟨hC, rfl⟩, hF, by decide, trivial, trivial⟩, hD⟩
  let q : Query := ⟨"SELECT VALUE (c[\"a b\"] NOT IN (-1, d) ? (c[0] || f([])) : ~(-(d)))", []⟩
  have hQuery : (Select.empty.projectValue (.nestedOperators .int32)).generate .builtin [] =
      .ok q := rfl
  have hQuery' : (Select.empty.projectValue (.nestedOperators .object)).generate .builtin [] =
      .ok q := rfl
  exact ⟨q, hQuery, hQuery',
    generate_value_injective (hOperational _) (hOperational _) hQuery hQuery' rfl⟩

end DocumentQuery
