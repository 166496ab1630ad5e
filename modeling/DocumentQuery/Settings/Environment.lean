/-!
# The environment

An environment gives values to some variables. The system keeps values as bytes: most
of them spell a text, and one that spells none counts as no value wherever a text is
asked for. A NUL character ends what the system keeps, so no value can hold one.

Main definitions:

* `SystemText`
* `Environment`, `Environment.ofList`, `Environment.text?`
* `Environment.Settable`, `Unsettable` — which variables can be given which values
* `Environment.set`, `Environment.provide` — a value in any case, or for want of one
-/

namespace DocumentQuery

/-- What the system keeps for a value of a variable or for a path. -/
inductive SystemText where
  | unicode (text : String)
  /-- Bytes that spell no text, as they are shown: with U+FFFD where they do not. -/
  | other (shown : String)
deriving DecidableEq, Inhabited, Repr

namespace SystemText

def text? : SystemText → Option String
  | .unicode text => some text
  | .other _ => none

def shown : SystemText → String
  | .unicode text => text
  | .other shown => shown

end SystemText

/-- The values of variables, by name. -/
abbrev Environment := String → Option SystemText

/-- A variable that cannot be given a value. The program ends where it tries to. -/
structure Unsettable where
  name : String
  value : String
deriving DecidableEq, Repr

def Unsettable.message (u : Unsettable) : String :=
  s!"failed to set environment variable {u.name}"

namespace Environment

def ofList (entries : List (String × String)) : Environment := fun name =>
  (entries.lookup name).map .unicode

/-- The text of a variable, if it has one. -/
def text? (env : Environment) (name : String) : Option String :=
  (env name).bind SystemText.text?

def assign (env : Environment) (name : String) (value : SystemText) : Environment := fun other =>
  if other = name then some value else env other

/-! ## Giving values to variables -/

def nul : Char := '\u0000'

/-- A name has a character, and holds neither an equals sign nor NUL. -/
def NameAllowed (name : String) : Prop :=
  name ≠ "" ∧ '=' ∉ name.toList ∧ nul ∉ name.toList

instance (name : String) : Decidable (NameAllowed name) :=
  inferInstanceAs (Decidable (_ ∧ _ ∧ _))

/-- The variable can be given the value. -/
def Settable (name value : String) : Prop := NameAllowed name ∧ nul ∉ value.toList

instance (name value : String) : Decidable (Settable name value) :=
  inferInstanceAs (Decidable (_ ∧ _))

def set (env : Environment) (name value : String) : Except Unsettable Environment :=
  if Settable name value then .ok (env.assign name (.unicode value))
  else .error { name, value }

/-- A value for a variable that has no text. -/
def provide (env : Environment) (name value : String) : Except Unsettable Environment :=
  if (env.text? name).isSome then .ok env else env.set name value

end Environment

end DocumentQuery
