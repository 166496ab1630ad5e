/-!
# Powers of two and ten

Main definitions:

* `twoTo`, `tenTo`
-/

namespace DocumentQuery

/-- `2 ^ k` -/
def twoTo (k : Nat) : Nat := Nat.pow 2 k

/-- `10 ^ k` -/
def tenTo (k : Nat) : Nat := Nat.pow 10 k

end DocumentQuery
