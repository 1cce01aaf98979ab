/-! # Powers

The powers of two and of ten, which the words of a machine and the decimal notation are counted by.
-/

namespace SqlMarshal

abbrev twoTo (exponent : Nat) : Nat :=
  Nat.pow 2 exponent

abbrev tenTo (exponent : Nat) : Nat :=
  Nat.pow 10 exponent

end SqlMarshal
