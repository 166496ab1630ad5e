import DocumentQuery.Number.Digits

/-!
# Positional templates

In a template `{0}`, `{1}`, … stand for the members of a list of
substitutions, and a doubled brace stands for that brace. Every other brace
stands for itself. Substituted text is not looked at again.

Main definitions:

* `Template.markAt` — what the character at the head of a template stands for
* `Template.fill` — a template with its places filled
-/

namespace DocumentQuery.Template

/-- A place whose number is not below the number of substitutions. -/
structure OutOfRange where
  index : Nat
  count : Nat
deriving DecidableEq, Repr

/-- What the head of a template stands for, and how many characters after the
head belong to it. -/
inductive Mark where
  | literal (c : Char) (extra : Nat)
  | place (index extra : Nat)
deriving DecidableEq, Repr

/-- The number and the length of a place, given the text after its opening
brace. A number of 2^64 or more makes no place. -/
def place? (cs : List Char) : Option (Nat × Nat) :=
  match Digits.span cs with
  | (digits, '}' :: _) => (Digits.word? digits).map fun index => (index, digits.length + 1)
  | _ => none

/-- What `c` stands for when `cs` follows it. -/
def markAt (c : Char) (cs : List Char) : Mark :=
  if (c = '{' ∨ c = '}') ∧ cs.head? = some c then .literal c 1
  else if c = '{' then
    match place? cs with
    | some (index, extra) => .place index extra
    | none => .literal c 0
  else .literal c 0

/-- Fills the places of a template after passing over `skip` characters that
an earlier mark accounts for. -/
def fillFrom (substitutions : List String) : Nat → List Char → Except OutOfRange (List Char)
  | _, [] => .ok []
  | skip + 1, _ :: cs => fillFrom substitutions skip cs
  | 0, c :: cs =>
    match markAt c cs with
    | .literal c extra => (fillFrom substitutions extra cs).map (c :: ·)
    | .place index extra =>
      match substitutions[index]? with
      | some s => (fillFrom substitutions extra cs).map (s.toList ++ ·)
      | none => .error ⟨index, substitutions.length⟩

/-- The template with every place filled; fails at the first place that has no
substitution. -/
def fill (template : String) (substitutions : List String) : Except OutOfRange String :=
  (fillFrom substitutions 0 template.toList).map String.ofList

end DocumentQuery.Template
