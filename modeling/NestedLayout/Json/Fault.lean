/-!
# Faults of JSON texts

A reader reports the first fault that it meets from the left; `Fault` says of which kind it is.
-/

set_option autoImplicit false

namespace NestedLayout

/-- What is wrong with a text, seen from the left: it is ill-formed, it ends too early, or it does
not say what was asked for. -/
inductive Fault where
  | malformed
  | cutOff
  | mismatch
deriving DecidableEq, Inhabited

end NestedLayout
