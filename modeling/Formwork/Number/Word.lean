/-!
# Words

Which integers fit a fixed number of bits. A natural number may use all of them, and a negative
number all but the one for its sign.
-/

set_option autoImplicit false

namespace Formwork.Number

/-- The number of values of a word of some bits. -/
def wordCount (bits : Nat) : Nat := Nat.pow 2 bits

/-- Whether an integer fits a word of some bits. -/
def isWord (bits : Nat) : Int → Bool
  | .ofNat value => value < wordCount bits
  | .negSucc value => value < wordCount (bits - 1)

end Formwork.Number
