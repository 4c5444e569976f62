/-!
# Machine words

Sizes and coordinates are unbounded numbers in this library. Where an answer depends on the 64-bit
width of the words that hold them, it does so through the definitions below.
-/

namespace Resample.Word

/-- Number of words, `2 ^ 64`. -/
def count : Nat := 0x10000000000000000

/-- The largest word. -/
def top : Nat := count - 1

/-- The largest word of half as many bits. -/
def topHalf : Nat := 0xFFFFFFFF

/-- The least signed word, `-2 ^ 63`. -/
def least : Int := -0x8000000000000000

/-- The greatest signed word, `2 ^ 63 - 1`. -/
def greatest : Int := 0x7FFFFFFFFFFFFFFF

/-- The signed reading of a word: the representative modulo `count` between `least` and `greatest`. -/
def signed (n : Int) : Int := n.bmod count

/-- The unsigned reading of a signed word. -/
def unsigned (i : Int) : Nat := (i % count).toNat

/-- The signed word nearest to an integer. -/
def saturate (i : Int) : Int := max least (min i greatest)

/-- The double word nearest to a natural number. -/
def wide (n : Nat) : Nat := min n (count * count - 1)

/-- A natural number that is a signed word is its own signed reading. -/
theorem signed_of_le {n : Nat} (h : n ≤ greatest) : signed n = n := by
  unfold signed count
  unfold greatest at h
  rw [Int.bmod_eq_of_le] <;> omega

/-- A natural number that is a word is its own unsigned reading. -/
theorem unsigned_of_le {n : Nat} (h : n ≤ top) : unsigned n = n := by
  unfold unsigned
  unfold top count at h
  unfold count
  omega

end Resample.Word
