import Resample.Grid.Sample

/-!
# Kernel variants

A kernel is specialized to a number of source channels, the depths of both planes, a layout and
whether it dithers. Not every combination exists: `Variant.Supported` says which do.
-/

namespace Resample

/-! ## §1 Layouts -/

/-- One of the two chroma channels. -/
inductive Component where
  | first
  | second
deriving DecidableEq, Repr

/-- Index of the channel. -/
def Component.index : Component → Nat
  | first => 0
  | second => 1

/-- How the filtered channels of a pixel land in the destination. -/
inductive Layout where
  /-- All channels, in their order. -/
  | combined
  /-- The only channel becomes one of two channels. -/
  | interleave (component : Component)
  /-- One of the channels becomes the only one. -/
  | split (component : Component)
deriving DecidableEq, Repr

namespace Layout

/-- Channels of the destination for the given number of source channels. -/
def destChannels : Layout → Nat → Nat
  | combined, channels => channels
  | interleave _, _ => 2
  | split _, _ => 1

/-- What pixel `x` writes into its row: each slot with the source channel that goes there. -/
def slots (layout : Layout) (channels x : Nat) : List (Nat × Nat) :=
  match layout with
  | combined => (List.range channels).map fun c => (x * channels + c, c)
  | interleave component => [(2 * x + component.index, 0)]
  | split component => [(x, component.index)]

/-- Writes the channels of pixel `x` into a row. Refused if the row lacks a slot or the pixel a
channel that is to be written. -/
def store? {α : Type} (layout : Layout) (row : Array α) (x : Nat) (pixel : Array α) :
    Option (Array α) :=
  let slots := layout.slots pixel.size x
  if slots.all fun (slot, c) => slot < row.size ∧ c < pixel.size then
    some (slots.foldl (fun row (slot, c) =>
      match pixel[c]? with
      | some v => row.setIfInBounds slot v
      | none => row) row)
  else none

end Layout

/-! ## §2 Variants -/

/-- What a kernel is specialized to. -/
structure Variant where
  channels : Nat
  source : Depth
  dest : Depth
  dither : Bool
  layout : Layout
deriving DecidableEq, Repr

namespace Variant

/-- The variant without dithering unless it narrows the samples. -/
def normalized (v : Variant) : Variant :=
  { v with dither := v.dither && v.dest.bits < v.source.bits }

theorem normalized_normalized (v : Variant) : v.normalized.normalized = v.normalized := by
  obtain ⟨channels, source, dest, dither, layout⟩ := v
  cases source <;> cases dest <;> cases dither <;> rfl

/-- Whether there is a kernel for the channels and the layout. -/
def Supported (v : Variant) : Prop :=
  match v.layout with
  | .combined => 1 ≤ v.channels ∧ v.channels ≤ 4
  | .interleave _ => v.channels = 1
  | .split _ => v.channels = 2

instance (v : Variant) : Decidable v.Supported := by
  unfold Supported
  split <;> infer_instance

/-- The part of a kernel's name that tells its layout. -/
def layoutSuffix (v : Variant) : String :=
  match v.layout with
  | .combined => if v.channels = 1 then "" else s!"_{v.channels}"
  | .interleave .first => "_p2_u"
  | .interleave .second => "_p2_v"
  | .split .first => "_2_u"
  | .split .second => "_2_v"

/-- The name of the kernel. -/
def name (v : Variant) : String :=
  s!"subsample_bilinear_{v.source.bits}_{v.dest.bits}" ++
    (if v.dither then "_dither" else "") ++ v.layoutSuffix

/-- How many low bits of the sum of four reads are dropped to make a sample of the destination. -/
def discarded (v : Variant) : Nat := v.source.bits + 2 - v.dest.bits

end Variant

/-- A variant that has a kernel. -/
structure Kernel where
  variant : Variant
  supported : variant.Supported
  isNormal : variant.normalized = variant

namespace Kernel

/-- The kernel for a variant, if there is one. A variant that asks for dithering where nothing is
narrowed gets the kernel without. -/
def select? (v : Variant) : Option Kernel :=
  if h : v.normalized.Supported then
    some ⟨v.normalized, h, v.normalized_normalized⟩
  else none

/-- The name of the kernel. -/
def name (k : Kernel) : String := k.variant.name

end Kernel

end Resample
