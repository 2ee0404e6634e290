import Mathlib.Algebra.Group.Nat.Defs

/-!
# Routing labels

A label is a non-zero machine word holding a sequence of directors. The source
is generic over the word type; here the width in bits is the parameter, and the
instances are the widths 32, 64 and 128.
-/

namespace RouteServer.Labels

/-- A non-zero word of the given width, as `RoutingLabel<L>`. -/
@[ext] structure RoutingLabel (width : Nat) where
  bits : Nat
  nonzero : bits ≠ 0
  bounded : bits < 2 ^ width

/-- Labels are compared by their bits. -/
instance {width : Nat} : DecidableEq (RoutingLabel width) := fun first second =>
  decidable_of_iff (first.bits = second.bits) RoutingLabel.ext_iff.symm

/-- `RoutingLabel::try_new`, on the words of the type. -/
def RoutingLabel.tryNew {width : Nat} (bits : Nat) (bounded : bits < 2 ^ width) :
    Option (RoutingLabel width) :=
  if nonzero : bits ≠ 0 then some ⟨bits, nonzero, bounded⟩ else none

end RouteServer.Labels
