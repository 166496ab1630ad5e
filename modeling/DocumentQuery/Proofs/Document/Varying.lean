import DocumentQuery.Proofs.Document.Held

/-!
# Two readings that differ in their values at most

A document may be read twice, after its members have been rearranged. What is read is put
together in the same way both times, from parts that differ in the values that they hold, if
at all. If all values of the first reading have a certain property then nothing differs; and
if nothing differs then they have it, provided that the second reading shows every
difference. Both are kept by whatever puts parts together, so that in the end they hold of
whole selects.

Main definitions and results:

* `SameIf` — two things that differ in their values at most.
* `Slot.Varies`, `Slots.Varies` — what is read of a part, and of a record.
* `Respects` — what is found in a slot.
* `Select.ofSlots_sameIf`, `ExpressionForm.build_concurs` and the like — what is put together
  from a record.
-/

namespace DocumentQuery

/-- The second of two things is the first if the values in the first have the property `P`,
and only then if the second shows every difference. -/
structure SameIf (shows : Prop) (P : Value → Prop) {α : Type} (valuesOf : α → List Value)
    (a₀ a : α) : Prop where
  same : AllHold P (valuesOf a₀) → a = a₀
  holds : shows → a = a₀ → AllHold P (valuesOf a₀)

variable {shows : Prop} {P : Value → Prop}

theorem allHold_append {values values' : List Value} :
    AllHold P (values ++ values') ↔ AllHold P values ∧ AllHold P values' :=
  List.forall_mem_append

theorem rel_imp {α β : Type} {R S : α → β → Prop} {x : Option α} {y : Option β}
    (h : Option.Rel R x y) (hRS : ∀ a b, R a b → S a b) : Option.Rel S x y := by
  cases h with
  | none => exact .none
  | some hab => exact .some (hRS _ _ hab)

/-- What is made of two results of which both are there or neither. -/
theorem rel_bind {α β α' β' : Type} {R : α → β → Prop} {S : α' → β' → Prop} {x : Option α}
    {y : Option β} (h : Option.Rel R x y) {f : α → Option α'} {g : β → Option β'}
    (hfg : ∀ a b, R a b → Option.Rel S (f a) (g b)) : Option.Rel S (x.bind f) (y.bind g) := by
  cases h with
  | none => exact .none
  | some hab => exact hfg _ _ hab

namespace SameIf

variable {α β : Type} {valuesOf : α → List Value} {valuesOf' : β → List Value} {a₀ a : α} {b₀ b : β}

theorem refl (h : AllHold P (valuesOf a)) : SameIf shows P valuesOf a a :=
  ⟨fun _ => rfl, fun _ _ => h⟩

theorem plain (a : α) : SameIf shows P (fun _ => []) a a := .refl allHold_nil

theorem prod (h : SameIf shows P valuesOf a₀ a) (h' : SameIf shows P valuesOf' b₀ b) :
    SameIf shows P (fun p : α × β => valuesOf p.1 ++ valuesOf' p.2) (a₀, b₀) (a, b) where
  same hAll := by
    obtain ⟨hLeft, hRight⟩ := allHold_append.mp hAll
    rw [h.same hLeft, h'.same hRight]
  holds hShows hEq := by
    obtain ⟨hLeft, hRight⟩ := Prod.mk.inj hEq
    exact (h.holds hShows hLeft).append (h'.holds hShows hRight)

/-- A constructor holds the values of what it is applied to. -/
theorem map (h : SameIf shows P valuesOf a₀ a) {f : α → β} (hf : Function.Injective f)
    (hValues : ∀ a, valuesOf' (f a) = valuesOf a) : SameIf shows P valuesOf' (f a₀) (f a) where
  same hAll := by
    rw [hValues] at hAll
    rw [h.same hAll]
  holds hShows hEq := by
    rw [hValues]
    exact h.holds hShows (hf hEq)

theorem list {as₀ as : List α} (h : List.Forall₂ (SameIf shows P valuesOf) as₀ as) :
    SameIf shows P (fun as => as.flatMap valuesOf) as₀ as := by
  induction h with
  | nil => exact .refl allHold_nil
  | cons hFirst _ ih =>
    refine (hFirst.prod ih).map (f := fun p : α × List α => p.1 :: p.2) ?_ fun _ => rfl
    rintro ⟨a, as⟩ ⟨b, bs⟩ hEq
    exact Prod.ext (List.cons.inj hEq).1 (List.cons.inj hEq).2

theorem option {o₀ o : Option α} (h : Option.Rel (SameIf shows P valuesOf) o₀ o) :
    SameIf shows P (fun o => o.elim [] valuesOf) o₀ o := by
  cases h with
  | none => exact .refl allHold_nil
  | some h => exact h.map (fun _ _ => Option.some.inj) fun _ => rfl

end SameIf

/-! ## Slots -/

/-- What is read of a part twice. -/
inductive Slot.Varies (shows : Prop) (P : Value → Prop) : Slot → Slot → Prop where
  | refl {slot : Slot} (h : slot.Holds P) : Slot.Varies shows P slot slot
  | value {v₀ v : Value} (h : SameIf shows P (fun v => [v]) v₀ v) :
      Slot.Varies shows P (.value v₀) (.value v)
  | rawArguments {a₀ a : RawArguments} (h : SameIf shows P RawArguments.values a₀ a) :
      Slot.Varies shows P (.rawArguments a₀) (.rawArguments a)
  | expression {e₀ e : Expression} (h : SameIf shows P Expression.values e₀ e) :
      Slot.Varies shows P (.expression e₀) (.expression e)
  | select {s₀ s : Select} (h : SameIf shows P Select.values s₀ s) :
      Slot.Varies shows P (.select s₀) (.select s)
  | projection {p₀ p : Projection} (h : SameIf shows P Projection.values p₀ p) :
      Slot.Varies shows P (.projection p₀) (.projection p)
  | source {s₀ s : Source} (h : SameIf shows P Source.values s₀ s) :
      Slot.Varies shows P (.source s₀) (.source s)
  | sortKey {k₀ k : SortKey} (h : SameIf shows P SortKey.values k₀ k) :
      Slot.Varies shows P (.sortKey k₀) (.sortKey k)
  | list {slots₀ slots : List Slot} (h : List.Forall₂ (Slot.Varies shows P) slots₀ slots) :
      Slot.Varies shows P (.list slots₀) (.list slots)
  | values {entries₀ entries : List (String × Value)}
      (h : SameIf shows P (List.map Prod.snd) entries₀ entries) :
      Slot.Varies shows P (.values entries₀) (.values entries)

/-- What `pick` finds in two slots differs in its values at most if the slots do. -/
def Respects (shows : Prop) (P : Value → Prop) {α : Type} (pick : Slot → Option α)
    (valuesOf : α → List Value) : Prop :=
  ∀ slot₀ slot, Slot.Varies shows P slot₀ slot →
    Option.Rel (SameIf shows P valuesOf) (pick slot₀) (pick slot)

section Respects

variable {α : Type} {pick : Slot → Option α} {valuesOf : α → List Value}

theorem Slots.Picks.refl (hPick : Slots.Picks pick valuesOf) {slot : Slot} (h : slot.Holds P) :
    Option.Rel (SameIf shows P valuesOf) (pick slot) (pick slot) := by
  cases hPicked : pick slot with
  | none => exact .none
  | some a =>
    rw [Slot.Holds, hPick slot a hPicked] at h
    exact .some (.refl h)

theorem respects_value : Respects shows P Slot.value? fun v => [v] := by
  rintro slot₀ slot h
  cases h with
  | refl h => exact Slots.picks_value.refl h
  | value h => exact .some h
  | _ => exact .none

theorem respects_rawArguments : Respects shows P Slot.rawArguments? RawArguments.values := by
  rintro slot₀ slot h
  cases h with
  | refl h => exact Slots.picks_rawArguments.refl h
  | rawArguments h => exact .some h
  | _ => exact .none

theorem respects_expression : Respects shows P Slot.expression? Expression.values := by
  rintro slot₀ slot h
  cases h with
  | refl h => exact Slots.picks_expression.refl h
  | expression h => exact .some h
  | _ => exact .none

theorem respects_select : Respects shows P Slot.select? Select.values := by
  rintro slot₀ slot h
  cases h with
  | refl h => exact Slots.picks_select.refl h
  | select h => exact .some h
  | _ => exact .none

theorem respects_projection : Respects shows P Slot.projection? Projection.values := by
  rintro slot₀ slot h
  cases h with
  | refl h => exact Slots.picks_projection.refl h
  | projection h => exact .some h
  | _ => exact .none

theorem respects_source : Respects shows P Slot.source? Source.values := by
  rintro slot₀ slot h
  cases h with
  | refl h => exact Slots.picks_source.refl h
  | source h => exact .some h
  | _ => exact .none

theorem respects_sortKey : Respects shows P Slot.sortKey? SortKey.values := by
  rintro slot₀ slot h
  cases h with
  | refl h => exact Slots.picks_sortKey.refl h
  | sortKey h => exact .some h
  | _ => exact .none

theorem respects_list (hPick : Slots.Picks pick valuesOf) (h : Respects shows P pick valuesOf) :
    Respects shows P (Slot.list? pick) fun as => as.flatMap valuesOf := by
  rintro slot₀ slot hSlot
  cases hSlot with
  | refl hSlot => exact (Slots.picks_list hPick).refl hSlot
  | @list slots₀ slots hSlots =>
    -- the members are picked one by one, each of both lists or of neither
    have hRel : Option.Rel (List.Forall₂ (SameIf shows P valuesOf)) (slots₀.mapM pick)
        (slots.mapM pick) := by
      induction hSlots with
      | nil => exact .some .nil
      | cons hFirst _ ih =>
        rw [List.mapM_cons, List.mapM_cons]
        exact rel_bind (h _ _ hFirst) fun _ _ ha => rel_bind ih fun _ _ has => .some (.cons ha has)
    exact rel_imp hRel fun _ _ has => .list has
  | _ => exact .none

/-- Parts of these kinds have no values. -/
def Slot.isPlain : Slot → Bool
  | .value _ | .rawArguments _ | .expression _ | .select _ | .projection _ | .source _
  | .sortKey _ | .list _ | .values _ => false
  | _ => true

/-- Only parts without values are picked. -/
def Plain (pick : Slot → Option α) : Prop := ∀ slot a, pick slot = some a → slot.isPlain = true

theorem Slot.Varies.eq_of_isPlain {slot₀ slot : Slot} (h : Slot.Varies shows P slot₀ slot)
    (hPlain : slot₀.isPlain = true ∨ slot.isPlain = true) : slot = slot₀ := by
  cases h with
  | refl => rfl
  | _ => simp [Slot.isPlain] at hPlain

theorem respects_plain (hPick : Plain pick) : Respects shows P pick fun _ => [] := by
  rintro slot₀ slot h
  cases hPicked : pick slot₀ with
  | some a =>
    rw [h.eq_of_isPlain (.inl (hPick slot₀ a hPicked)), hPicked]
    exact .some (.plain a)
  | none =>
    cases hPicked' : pick slot with
    | none => exact .none
    | some a =>
      rw [h.eq_of_isPlain (.inr (hPick slot a hPicked')), hPicked] at hPicked'
      cases hPicked'

theorem Plain.picks (hPick : Plain pick) : Slots.Picks pick fun _ => [] := by
  rintro slot a h
  have hPlain := hPick slot a h
  cases slot <;> first | rfl | cases hPlain

theorem plain_text : Plain Slot.text? := fun slot _ h => by cases slot <;> first | rfl | cases h

theorem plain_flag : Plain Slot.flag? := fun slot _ h => by cases slot <;> first | rfl | cases h

theorem plain_natural : Plain Slot.natural? := fun slot _ h => by
  cases slot <;> first | rfl | cases h

theorem plain_any : Plain Slot.any? := fun slot _ h => by cases slot <;> first | rfl | cases h

theorem plain_dataType : Plain Slot.dataType? := fun slot _ h => by
  cases slot <;> first | rfl | cases h

theorem plain_distanceFunction : Plain Slot.distanceFunction? := fun slot _ h => by
  cases slot <;> first | rfl | cases h

theorem plain_elementType : Plain Slot.elementType? := fun slot _ h => by
  cases slot <;> first | rfl | cases h

theorem plain_vectorType : Plain Slot.vectorType? := fun slot _ h => by
  cases slot <;> first | rfl | cases h

theorem plain_mapping : Plain Slot.mapping? := fun slot _ h => by
  cases slot <;> first | rfl | cases h

theorem plain_binaryOperator : Plain Slot.binaryOperator? := fun slot _ h => by
  cases slot <;> first | rfl | cases h

theorem plain_unaryOperator : Plain Slot.unaryOperator? := fun slot _ h => by
  cases slot <;> first | rfl | cases h

theorem plain_parameter : Plain Slot.parameter? := fun slot _ h => by
  cases slot <;> first | rfl | cases h

end Respects

/-! ## Records -/

/-- What was read of a record twice, field by field. -/
def Slots.Varies (shows : Prop) (P : Value → Prop) (slots₀ slots : Slots) : Prop :=
  ∀ key, Option.Rel (Slot.Varies shows P) (slots₀.lookup key) (slots.lookup key)

namespace Slots.Varies

variable {slots₀ slots : Slots} (h : Slots.Varies shows P slots₀ slots) (key : String)
  {α : Type} {pick : Slot → Option α} {valuesOf : α → List Value}

include h

theorem find? (hPick : Respects shows P pick valuesOf) :
    Option.Rel (SameIf shows P valuesOf) (slots₀.find? key pick) (slots.find? key pick) :=
  rel_bind (h key) hPick

theorem require (hPick : Respects shows P pick valuesOf) :
    Concurs (SameIf shows P valuesOf) (slots₀.require key pick) (slots.require key pick) := by
  unfold Slots.require
  generalize hx : slots₀.find? key pick = x, hy : slots.find? key pick = y
  have hRel := h.find? key hPick
  rw [hx, hy] at hRel
  cases hRel with
  | none => exact .error _ _
  | some ha => exact .ok ha

theorem find?_eq_of_nil (hPick : Respects shows P pick valuesOf) (hNil : ∀ a, valuesOf a = []) :
    slots.find? key pick = slots₀.find? key pick := by
  refine (SameIf.option (h.find? key hPick)).same ?_
  cases slots₀.find? key pick with
  | none => exact allHold_nil
  | some a =>
    rw [Option.elim_some, hNil]
    exact allHold_nil

theorem find?_eq (hPick : Plain pick) : slots.find? key pick = slots₀.find? key pick :=
  h.find?_eq_of_nil key (respects_plain hPick) fun _ => rfl

theorem require_eq (hPick : Plain pick) : slots.require key pick = slots₀.require key pick := by
  rw [Slots.require, Slots.require, h.find?_eq key hPick]

theorem listD (hPick : Slots.Picks pick valuesOf) (hRespects : Respects shows P pick valuesOf) :
    SameIf shows P (fun as => as.flatMap valuesOf) (slots₀.listD key pick)
      (slots.listD key pick) := by
  unfold Slots.listD
  generalize hx : slots₀.find? key (Slot.list? pick) = x, hy : slots.find? key (Slot.list? pick) = y
  have hRel := h.find? key (respects_list hPick hRespects)
  rw [hx, hy] at hRel
  cases hRel with
  | none => exact .refl allHold_nil
  | some ha => exact ha

end Slots.Varies

/-! ## What records are put together to -/

theorem valuesOfOptional_eq (e : Option Expression) :
    valuesOfOptional e = e.elim [] Expression.values := by
  cases e <;> rfl

section Records

variable {slots₀ slots : Slots} (h : Slots.Varies shows P slots₀ slots)

include h

theorem VectorType.ofSlots_eq : VectorType.ofSlots slots = VectorType.ofSlots slots₀ := by
  rw [VectorType.ofSlots, VectorType.ofSlots, h.require_eq _ plain_distanceFunction,
    h.require_eq _ plain_natural, h.find?_eq _ plain_elementType]

theorem Parameter.ofSlots_eq : Parameter.ofSlots slots = Parameter.ofSlots slots₀ := by
  rw [Parameter.ofSlots, Parameter.ofSlots, h.require_eq _ plain_text, h.require_eq _ plain_any]

theorem Query.ofSlots_eq : Query.ofSlots slots = Query.ofSlots slots₀ := by
  have hParameters := h.find?_eq_of_nil "parameters"
    (respects_list plain_parameter.picks (respects_plain plain_parameter)) fun _ => by simp
  simp only [Query.ofSlots, Slots.require, h.find?_eq _ plain_text, hParameters]

theorem GeneratorOptions.ofSlots_eq :
    GeneratorOptions.ofSlots slots = GeneratorOptions.ofSlots slots₀ := by
  rw [GeneratorOptions.ofSlots, GeneratorOptions.ofSlots, h.find?_eq _ plain_natural]

theorem Select.ofSlots_sameIf :
    SameIf shows P Select.values (Select.ofSlots slots₀) (Select.ofSlots slots) := by
  have hOptional (key : String) := SameIf.option (h.find? key respects_expression)
  have hParts := (h.listD "projection" Slots.picks_projection respects_projection).prod
    ((h.listD "sources" Slots.picks_source respects_source).prod
      ((hOptional "predicate").prod
        ((h.listD "orderings" Slots.picks_sortKey respects_sortKey).prod
          ((hOptional "offset").prod (hOptional "limit")))))
  rw [Select.ofSlots, Select.ofSlots, h.find?_eq "is_distinct" plain_flag,
    h.find?_eq "uses_single_value_projection" plain_flag]
  refine hParts.map
    (f := fun p => Select.mk _ p.1 _ p.2.1 p.2.2.1 p.2.2.2.1 p.2.2.2.2.1 p.2.2.2.2.2) ?_ ?_
  · rintro ⟨_, _, _, _, _, _⟩ ⟨_, _, _, _, _, _⟩ hEq
    cases hEq
    rfl
  · rintro ⟨ps, ss, predicate, ks, offset, limit⟩
    show valuesOfProjections ps ++ (valuesOfSources ss ++ (valuesOfOptional predicate ++
      (valuesOfSortKeys ks ++ (valuesOfOptional offset ++ valuesOfOptional limit)))) = _
    rw [valuesOfProjections_eq, valuesOfSources_eq, valuesOfSortKeys_eq, valuesOfOptional_eq,
      valuesOfOptional_eq, valuesOfOptional_eq]

theorem Projection.ofSlots_concurs :
    Concurs (SameIf shows P Projection.values) (Projection.ofSlots slots₀)
      (Projection.ofSlots slots) := by
  rw [Projection.ofSlots, Projection.ofSlots, h.require_eq "name" plain_text,
    h.find?_eq "alias" plain_text]
  refine (h.require "expression" respects_expression).bind fun e₀ e he => .bind_same fun name => ?_
  exact .ok (he.map (fun _ _ hEq => (Projection.mk.inj hEq).1) fun _ => rfl)

theorem Source.ofSlots_concurs :
    Concurs (SameIf shows P Source.values) (Source.ofSlots slots₀) (Source.ofSlots slots) := by
  rw [Source.ofSlots, Source.ofSlots, h.find?_eq "alias" plain_text,
    h.find?_eq "with_in" plain_flag]
  refine (h.require "container" respects_expression).bind fun e₀ e he => ?_
  exact .ok (he.map (fun _ _ hEq => (Source.mk.inj hEq).1) fun _ => rfl)

theorem SortKey.ofSlots_concurs :
    Concurs (SameIf shows P SortKey.values) (SortKey.ofSlots slots₀) (SortKey.ofSlots slots) := by
  rw [SortKey.ofSlots, SortKey.ofSlots, h.find?_eq "is_ascending" plain_flag]
  refine (h.require "expression" respects_expression).bind fun e₀ e he => ?_
  exact .ok (he.map (fun _ _ hEq => (SortKey.mk.inj hEq).1) fun _ => rfl)

theorem ArgumentsForm.build_concurs (form : ArgumentsForm) :
    Concurs (SameIf shows P RawArguments.values) (form.build slots₀) (form.build slots) := by
  cases form with
  | parameter =>
    rw [build, build, h.require_eq "name" plain_text]
    exact (Concurs.refl fun _ _ => rfl).map fun name _ hName => hName ▸ .refl allHold_nil
  | constant =>
    exact (h.require "value" respects_value).map fun _ _ hv =>
      hv.map (fun _ _ => RawArguments.constant.inj) fun _ => rfl

/-- Expressions of every form are put together from what they hold. -/
theorem ExpressionForm.build_concurs (form : ExpressionForm) :
    Concurs (SameIf shows P Expression.values) (form.build slots₀) (form.build slots) := by
  have hText (key : String) := h.require_eq key plain_text
  have hType := h.require_eq "data_type" plain_dataType
  have hMapping : mappingOf slots = mappingOf slots₀ := h.find?_eq "type_mapping" plain_mapping
  have hOne (key : String) := h.require key respects_expression
  have hMany : Respects shows P (Slot.list? Slot.expression?) fun es =>
      es.flatMap Expression.values := respects_list Slots.picks_expression respects_expression
  have hSubquery := h.require "subquery" respects_select
  cases form <;> simp only [build, hText, hType, hMapping]
  case select =>
    exact .ok ((Select.ofSlots_sameIf h).map (fun _ _ => Expression.select.inj) fun _ => rfl)
  case objectReference =>
    exact (Concurs.refl fun _ _ => rfl).map fun _ _ hName => hName ▸ .refl allHold_nil
  case scalarReference =>
    exact .bind_same fun name => .bind_same fun type => .ok (.refl allHold_nil)
  case keyAccess =>
    refine (hOne "object").bind fun _ _ he => .bind_same fun property => .bind_same fun type => ?_
    exact .ok (he.map (fun _ _ hEq => (Expression.keyAccess.inj hEq).1) fun _ => rfl)
  case objectAccess =>
    refine (hOne "object").bind fun _ _ he => .bind_same fun property => ?_
    exact .ok (he.map (fun _ _ hEq => (Expression.objectAccess.inj hEq).1) fun _ => rfl)
  case entityProjection =>
    exact (hOne "access").map fun _ _ he =>
      he.map (fun _ _ => Expression.entityProjection.inj) fun _ => rfl
  case objectArrayProjection =>
    exact (hOne "access").map fun _ _ he =>
      he.map (fun _ _ => Expression.objectArrayProjection.inj) fun _ => rfl
  case binary =>
    rw [h.require_eq "operator" plain_binaryOperator]
    refine .bind_same fun operator => (hOne "left").bind fun _ _ hl =>
      (hOne "right").bind fun _ _ hr => .bind_same fun type => ?_
    refine .ok ((hl.prod hr).map (f := fun p => Expression.binary operator p.1 p.2 type _) ?_
      fun _ => rfl)
    rintro ⟨_, _⟩ ⟨_, _⟩ hEq
    cases hEq
    rfl
  case unary =>
    rw [h.require_eq "operator" plain_unaryOperator]
    refine .bind_same fun operator => (hOne "operand").bind fun _ _ he => .bind_same fun type => ?_
    exact .ok (he.map (fun _ _ hEq => (Expression.unary.inj hEq).2.1) fun _ => rfl)
  case conditional =>
    refine (hOne "test").bind fun _ _ hTest => (hOne "if_true").bind fun _ _ hTrue =>
      (hOne "if_false").bind fun _ _ hFalse => .bind_same fun type => ?_
    refine .ok ((hTest.prod (hTrue.prod hFalse)).map
      (f := fun p => Expression.conditional p.1 p.2.1 p.2.2 type _) ?_ fun _ => rfl)
    rintro ⟨_, _, _⟩ ⟨_, _, _⟩ hEq
    cases hEq
    rfl
  case function =>
    refine .bind_same fun name => .bind_same fun type => ?_
    exact .ok ((h.listD "arguments" Slots.picks_expression respects_expression).map
      (fun _ _ hEq => (Expression.function.inj hEq).2.1) valuesOfAll_eq)
  case constant =>
    refine (h.require "value" respects_value).bind fun _ _ hv => .bind_same fun type => ?_
    exact .ok (hv.map (fun _ _ hEq => (Expression.constant.inj hEq).1) fun _ => rfl)
  case parameter =>
    exact .bind_same fun name => .bind_same fun type => .ok (.refl allHold_nil)
  case isIn =>
    rw [h.find?_eq "values_parameter" plain_text]
    refine (hOne "item").bind fun _ _ hItem => ?_
    refine .ok ((hItem.prod (SameIf.option (h.find? "values" hMany))).map
      (f := fun p => Expression.isIn p.1 p.2 _) ?_ ?_)
    · rintro ⟨_, _⟩ ⟨_, _⟩ hEq
      cases hEq
      rfl
    · rintro ⟨item, _ | values⟩
      · exact (List.append_nil _).symm
      · exact congrArg (item.values ++ ·) (valuesOfAll_eq values)
  case arrayConstant =>
    exact (h.require "items" hMany).map fun _ _ hes =>
      hes.map (fun _ _ => Expression.arrayConstant.inj) valuesOfAll_eq
  case «exists» =>
    exact hSubquery.map fun _ _ hs => hs.map (fun _ _ => Expression.exists.inj) fun _ => rfl
  case array =>
    exact hSubquery.map fun _ _ hs => hs.map (fun _ _ => Expression.array.inj) fun _ => rfl
  case scalarSubquery =>
    exact hSubquery.map fun _ _ hs => hs.map (fun _ _ => Expression.scalarSubquery.inj) fun _ => rfl
  case fromSql =>
    refine .bind_same fun sql => (h.require "arguments" respects_rawArguments).bind fun _ _ ha => ?_
    exact .ok (ha.map (fun _ _ hEq => (Expression.fromSql.inj hEq).2) fun _ => rfl)

end Records

end DocumentQuery
