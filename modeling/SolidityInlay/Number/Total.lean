/-!
# Totals

The total of a list of numbers, as counts and sizes are added up.

Main definition: `total`.
-/

namespace SolidityInlay

def total (ns : List Nat) : Nat := ns.foldr (· + ·) 0

theorem total_nil : total [] = 0 := rfl

theorem total_cons (n : Nat) (ns : List Nat) : total (n :: ns) = n + total ns := rfl

end SolidityInlay
