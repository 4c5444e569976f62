/-!
# Samples

A sample is one channel value of one pixel. It is stored in a container of 8 or 16 bits; a value of
fewer significant bits lives in the next wider container.
-/

namespace Resample

/-- Container width of a sample. -/
inductive Depth where
  | eight
  | sixteen
deriving DecidableEq, Repr, Inhabited

namespace Depth

/-- Bits of the container. -/
def bits : Depth → Nat
  | eight => 8
  | sixteen => 16

/-- Bytes of the container. -/
def bytes : Depth → Nat
  | eight => 1
  | sixteen => 2

/-- Number of values of the container. -/
def levels : Depth → Nat
  | eight => 256
  | sixteen => 65536

/-- Largest value of the container. -/
def top (d : Depth) : Nat := d.levels - 1

/-- The container for `bits` significant bits: the next multiple of eight, if it is a container. -/
def holding? (bits : Nat) : Option Depth :=
  if (bits + 7) / 8 = 1 then some eight
  else if (bits + 7) / 8 = 2 then some sixteen
  else none

theorem levels_pos (d : Depth) : 0 < d.levels := by
  cases d <;> decide

theorem top_lt (d : Depth) : d.top < d.levels := by
  cases d <;> decide

end Depth

/-- A channel value in a container of depth `d`. -/
abbrev Sample (d : Depth) : Type := Fin d.levels

namespace Sample

variable {d : Depth}

instance : Inhabited (Sample d) := ⟨⟨0, d.levels_pos⟩⟩

/-- The value, or the largest one of the container if it is beyond it. -/
def saturate (d : Depth) (n : Nat) : Sample d :=
  ⟨min n d.top, Nat.lt_of_le_of_lt (Nat.min_le_right _ _) d.top_lt⟩

/-- The low bits of the value that fit the container. -/
def truncate (d : Depth) (n : Nat) : Sample d :=
  ⟨n % d.levels, Nat.mod_lt _ d.levels_pos⟩

theorem saturate_val (d : Depth) (n : Nat) : (saturate d n).val = min n d.top := rfl

theorem le_top (s : Sample d) : s.val ≤ d.top :=
  Nat.le_sub_one_of_lt s.isLt

end Sample

end Resample
