/-
Powers of two and of ten among the natural numbers.

A number of `n` bits is one below `twoPow n`, and `n` decimal places are a factor of
`tenPow n`; every bound and every scale of the numbers here is one of the two.
-/

set_option autoImplicit false

namespace Interview

/-- Two to the power of `n`. -/
def twoPow (n : Nat) : Nat :=
  Nat.pow 2 n

/-- Ten to the power of `n`. -/
def tenPow (n : Nat) : Nat :=
  Nat.pow 10 n

end Interview
