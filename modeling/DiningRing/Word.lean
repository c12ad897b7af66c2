/-
# Words

Words of 64 bits are numbers below `Word.modulus`.  A word is read as a signed number by
taking the upper half of the words as negative.
-/
namespace DiningRing.Word

/-- The number of words, `2 ^ 64`. -/
def modulus : Nat := 18446744073709551616

/-- The number of words that are not negative, `2 ^ 63`. -/
def half : Nat := 9223372036854775808

/-- The largest number of entries of some size that a list in memory may have: together they
take less than half of as many bytes as there are words. -/
def mostEntries (size : Nat) : Nat := (half - 1) / size

/-- A word read as a signed number. -/
def signed (word : Int) : Int := word.bmod modulus

/-- A signed number read back as a word. -/
def unsigned (value : Int) : Nat := (value % (modulus : Int)).toNat

end DiningRing.Word
