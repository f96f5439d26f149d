/-!
# Padded numbers

Numbers written with a least count of digits.
-/

namespace YololChip.Text

/-- The decimal digits of a number, with zeros in front up to `width` places. -/
def padded (width : Nat) (n : Nat) : String :=
  let digits := toString n
  String.ofList (List.replicate (width - digits.length) '0') ++ digits

end YololChip.Text
