import Resample.Proofs.Grid.Faults
import Resample.Proofs.Grid.Packing

/-!
# Nested windows

A rectangle cuts a window out of another one, and a second rectangle cuts one out of that. All of them are onto
one buffer and have one stride, so two cuts come to a single one at the sum of the offsets, and so does a chain
of them: its last window could have been cut out of the first one at once, and shows a rectangle of that.

A rectangle that has pixels is refused only where it does not lie in the window. The samples that it asks for are
there, however often the buffer was cut off in front: they end no later than the last row of the window, and that
is complete.

## Contents

- §1 rectangles, §2 single cuts, §3 chains of cuts, §4 pixels and rows, §5 windows of an accepted one
-/

namespace Resample

/-! ## §1 Rectangles -/

/-- A rectangle of pixels. -/
structure Rectangle where
  x : Nat
  y : Nat
  width : Nat
  height : Nat
deriving DecidableEq, Repr

namespace Rectangle

/-- Whether a rectangle has pixels. -/
def HasPixels (r : Rectangle) : Prop := 0 < r.width ∧ 0 < r.height

instance (r : Rectangle) : Decidable r.HasPixels := inferInstanceAs (Decidable (_ ∧ _))

/-- Whether a rectangle lies in a window. -/
def LiesIn {size : Nat} (r : Rectangle) (w : Window size) : Prop :=
  r.x + r.width ≤ w.width ∧ r.y + r.height ≤ w.height

instance {size : Nat} (r : Rectangle) (w : Window size) : Decidable (r.LiesIn w) :=
  inferInstanceAs (Decidable (_ ∧ _))

/-- Columns in front of the last rectangle of a chain. -/
def left (chain : List Rectangle) : Nat := chain.foldr (fun r columns => r.x + columns) 0

/-- Rows above the last rectangle of a chain. -/
def top (chain : List Rectangle) : Nat := chain.foldr (fun r rows => r.y + rows) 0

end Rectangle

namespace Window

variable {α : Type} {size : Nat} {root w w' w'' : Window size} {r r' : Rectangle}

/-- The window of a rectangle in a window. -/
def crop (w : Window size) (r : Rectangle) : Except GridError (Window size) := w.part r.x r.y r.width r.height

/-- The window of the last one of a chain of rectangles, each of which lies in the window of the one before. -/
def crops (w : Window size) (chain : List Rectangle) : Except GridError (Window size) := chain.foldlM crop w

/-! ## §2 Single cuts -/

/-- A rectangle that does not lie in the window is refused. -/
theorem crop_of_not_liesIn (h : ¬ r.LiesIn w) : w.crop r = .error .outOfBounds := by
  unfold crop part
  exact dif_neg fun hin => h ⟨by omega, by omega⟩

/-- A rectangle that has pixels and lies in the window is cut out. -/
theorem exists_crop (hpixels : r.HasPixels) (hin : r.LiesIn w) (hchannels : 0 < w.channels) :
    ∃ w', w.crop r = .ok w' := by
  obtain ⟨hright, hbelow⟩ := hin
  obtain ⟨hwidth, hheight⟩ := hpixels
  -- the last sample of the rectangle is no farther than that of the window
  have hrows : (r.y + (r.height - 1)) * w.stride ≤ (w.height - 1) * w.stride :=
    Nat.mul_le_mul_right _ (by omega)
  have hcolumns : (r.x + r.width) * w.channels ≤ w.width * w.channels := Nat.mul_le_mul_right _ hright
  have hrow : 0 < r.width * w.channels := Nat.mul_pos hwidth hchannels
  rw [Nat.add_mul] at hrows hcolumns
  have hspan := w.span_le_length
  unfold spanLength at hspan
  rw [if_neg (by omega)] at hspan
  have hlength : r.y * w.stride + r.x * w.channels + spanLength (r.width * w.channels) r.height w.stride ≤
      w.length := by
    unfold spanLength
    rw [if_neg (by omega)]
    omega
  unfold crop part
  exact ⟨_, dif_pos ⟨by omega, by omega, by omega, by omega, by omega, by omega⟩⟩

/-- A cut out of a window that was cut out is one cut, at the sum of the offsets. -/
theorem crop_crop (h : w.crop r = .ok w') (h' : w'.crop r' = .ok w'') :
    w.crop ⟨r.x + r'.x, r.y + r'.y, r'.width, r'.height⟩ = .ok w'' := by
  obtain ⟨⟨hright, hbelow⟩, hwidth, hheight, hchannels, hstride, hstart, hlength⟩ := part_eq_ok_iff.1 h
  obtain ⟨⟨hright', hbelow'⟩, hwidth', hheight', hchannels', hstride', hstart', hlength'⟩ :=
    part_eq_ok_iff.1 h'
  -- both cuts count in the stride and the channels of the window, so offsets add up
  rw [hstride, hchannels] at hstart' hlength'
  change w.part (r.x + r'.x) (r.y + r'.y) r'.width r'.height = .ok w''
  rw [part_eq_ok_iff, Nat.add_mul, Nat.add_mul]
  exact ⟨by omega, hwidth', hheight', hchannels'.trans hchannels, hstride'.trans hstride, by omega, by omega⟩

/-- The rectangle of all pixels cuts nothing off. -/
theorem crop_all (w : Window size) : w.crop ⟨0, 0, w.width, w.height⟩ = .ok w := by
  change w.part 0 0 w.width w.height = .ok w
  rw [part_eq_ok_iff]
  simp

/-- What was cut out of a window onto the begin of a buffer has its samples where the offsets lead to in the
buffer. -/
theorem position_of_crop {left top width height : Nat} (hroot : root.start = 0)
    (h : root.crop ⟨left, top, width, height⟩ = .ok w) (x y c : Nat) :
    w.position x y c = (top + y) * root.stride + (left + x) * root.channels + c := by
  obtain ⟨-, -, -, hchannels, hstride, hstart, -⟩ := part_eq_ok_iff.1 h
  change w.start = root.start + (top * root.stride + left * root.channels) at hstart
  unfold position
  rw [hstart, hroot, hstride, hchannels, Nat.add_mul, Nat.add_mul]
  omega

/-! ## §3 Chains of cuts -/

theorem crops_cons_eq_ok_iff {chain : List Rectangle} :
    w.crops (r :: chain) = .ok w' ↔ ∃ next, w.crop r = .ok next ∧ next.crops chain = .ok w' := by
  unfold crops
  rw [List.foldlM_cons]
  exact bind_eq_ok_iff

/-- A chain of cuts is one cut, at the sum of all offsets. -/
theorem crop_of_crops {chain : List Rectangle} (h : root.crops chain = .ok w) :
    root.crop ⟨Rectangle.left chain, Rectangle.top chain, w.width, w.height⟩ = .ok w := by
  induction chain generalizing root with
  | nil =>
    cases h
    exact crop_all _
  | cons r chain ih =>
    -- what is left of the chain is one cut out of the window after the first one
    obtain ⟨next, hnext, hchain⟩ := crops_cons_eq_ok_iff.1 h
    exact crop_crop hnext (ih hchain)

/-- The last window of a chain has the sides of the last rectangle. -/
theorem sides_of_crops {chain : List Rectangle} (h : root.crops chain = .ok w) :
    (w.width, w.height) = chain.foldl (fun _ r => (r.width, r.height)) (root.width, root.height) := by
  induction chain generalizing root with
  | nil =>
    cases h
    rfl
  | cons r chain ih =>
    obtain ⟨next, hnext, hchain⟩ := crops_cons_eq_ok_iff.1 h
    obtain ⟨-, hwidth, hheight, -⟩ := part_eq_ok_iff.1 hnext
    rw [List.foldl_cons, ih hchain, hwidth, hheight]

/-! ## §4 Pixels and rows -/

/-- A pixel of a window has all its channels. -/
theorem exists_pixel? {x y : Nat} (hchannels : 0 < w.channels) (hx : x < w.width) (hy : y < w.height)
    (buffer : Vector α size) :
    ∃ samples, w.pixel? buffer x y = some samples ∧ samples.size = w.channels ∧
      ∀ c, samples[c]? = w.get? buffer x y c := by
  have hlast : w.Contains x y (w.channels - 1) := ⟨hx, hy, by omega⟩
  have hoffset := hlast.offset_lt
  have hsize := w.start_add_length_le
  have hbuffer : buffer.toArray.size = size := buffer.size_toArray
  unfold pixel?
  refine ⟨_, if_pos ⟨hx, hy, by omega⟩, by rw [Array.size_extract]; omega, fun c => ?_⟩
  rw [Array.getElem?_extract]
  by_cases hc : c < w.channels
  · have hin : w.Contains x y c := ⟨hx, hy, hc⟩
    have hposition := hin.position_lt
    have hindex : w.start + (y * w.stride + x * w.channels) + c = w.position x y c := by
      unfold position
      omega
    rw [if_pos (by omega), hindex, get?_of_contains hin]
    simp [hposition]
  · rw [if_neg (by omega), get?_of_not_contains fun hin => hc hin.2.2]

/-- All samples of a window follow each other in the buffer exactly if there is no padding. -/
theorem contiguous?_eq (buffer : Vector α size) :
    w.contiguous? buffer = if w.stride = w.rowLength then some (w.samples buffer) else none := by
  unfold contiguous? isContiguous
  by_cases h : w.stride = w.rowLength
  · have hall : w.rowLength * w.height ≤ w.length := Nat.mul_comm .. ▸ mul_rowLength_le_of_contiguous h
    rw [if_pos ⟨decide_eq_true h, hall⟩, if_pos h, samples_of_contiguous h, Nat.mul_comm w.height]
  · rw [if_neg (by simp [h]), if_neg h]

/-! ## §5 Windows of an accepted one -/

/-- A window shows the pixels of a buffer from pixel `(left, top)` on, where the rows of the buffer follow each
other every `stride` samples. -/
structure ShowsFrom (w : Window size) (buffer : Vector α size) (channels stride left top : Nat) : Prop where
  get : ∀ {x y c}, x < w.width → y < w.height → c < channels →
    ∃ h : (top + y) * stride + (left + x) * channels + c < size,
      w.get? buffer x y c = some buffer[(top + y) * stride + (left + x) * channels + c]
  get_outside : ∀ {x y c}, ¬ (x < w.width ∧ y < w.height ∧ c < channels) → w.get? buffer x y c = none
  pixel : ∀ {x y}, x < w.width → y < w.height → ∃ samples, w.pixel? buffer x y = some samples ∧
    samples.size = channels ∧ ∀ c, samples[c]? = w.get? buffer x y c
  pixel_outside : ∀ {x y}, ¬ (x < w.width ∧ y < w.height) → w.pixel? buffer x y = none
  row : ∀ {y}, y < w.height → w.row buffer y = .ok (w.rowSamples buffer y) ∧
    (w.rowSamples buffer y).size = w.width * channels ∧
    ∀ x c, c < channels → (w.rowSamples buffer y)[x * channels + c]? = w.get? buffer x y c
  row_outside : ∀ {y}, w.height ≤ y → w.row buffer y = .error .rowOutOfRange
  contiguous : w.contiguous? buffer = if stride = w.width * channels then some (w.samples buffer) else none
  /-- What is written through the window is written at the place that is read. -/
  set : ∀ x y c value, w.set? buffer x y c value = (w.get? buffer x y c).map fun old =>
    (old, buffer.setIfInBounds ((top + y) * stride + (left + x) * channels + c) value)
  setRow : ∀ {y}, y < w.height → ∀ values, w.setRow buffer y values =
    .ok (overwrite buffer ((top + y) * stride + left * channels) (values.take (w.width * channels)))

/-- Windows that are reached by a chain of cuts are parts of parts. -/
theorem partOf_of_crops {chain : List Rectangle} (h : root.crops chain = .ok w) : root.PartOf w :=
  .part .refl (crop_of_crops h)

/-- A window in rows that are all there shows the pixels of the buffer from the first one that it has. -/
theorem showsFrom_of_crop {stride channels left top : Nat} (hroot : root.start = 0)
    (hstride : root.stride = stride) (hchannels : root.channels = channels) (hpos : 0 < channels)
    (h : root.crop ⟨left, top, w.width, w.height⟩ = .ok w) (hcomplete : w.Complete) (buffer : Vector α size) :
    w.ShowsFrom buffer channels stride left top := by
  have hposition := position_of_crop hroot h
  rw [hstride, hchannels] at hposition
  obtain ⟨-, -, -, hchannels', hstride', -⟩ := part_eq_ok_iff.1 h
  replace hstride' := hstride'.trans hstride
  replace hchannels' := hchannels'.trans hchannels
  have hrow : ∀ {y}, y < w.height → w.checkRow y = .ok () := fun hy =>
    (checkRow_eq_ok_iff (hchannels' ▸ hpos) hy).2 (hcomplete _ hy)
  -- with stride and channels of the buffer, every field is about the position of a sample
  subst hchannels'
  exact {
    get := fun {x y c} hx hy hc => by
      have hin : w.Contains x y c := ⟨hx, hy, hc⟩
      refine ⟨hposition x y c ▸ hin.position_lt, ?_⟩
      rw [get?_of_contains hin]
      simp only [hposition]
    get_outside := fun hout => get?_of_not_contains hout buffer
    pixel := fun hx hy => exists_pixel? hpos hx hy buffer
    pixel_outside := fun hout => if_neg fun hin => hout ⟨hin.1, hin.2.1⟩
    row := fun hy => ⟨row_of_checkRow (hrow hy) buffer, size_rowSamples buffer hy,
      fun x c hc => getElem?_rowSamples hy hc⟩
    row_outside := fun {y} hy => by
      unfold row checkRow
      rw [if_pos hy]
      rfl
    contiguous := by rw [contiguous?_eq, hstride', rowLength]
    set := fun x y c value => by rw [← hposition, set?]
    setRow := fun {y} hy values => by
      rw [setRow_of_checkRow (hrow hy), putRow, rowLength,
        show w.start + y * w.stride = w.position 0 y 0 by simp [position], hposition]
      rfl }

/-- Windows are cut out of the buffer. Of an accepted window that has columns, a chain of cuts ends with a window
that a single one gives, at the sum of the offsets, and that has the sides of the last rectangle. A rectangle with
pixels can be cut out of it exactly if it lies in it. What it shows, in single samples, in pixels, in rows and in
all rows together if there is no padding, are the samples of the buffer from its first pixel on. -/
theorem crops_of_accepted {width height channels stride : Nat}
    (hroot : ofLayout size width height channels stride = .ok root) (hwidth : 0 < width)
    {chain : List Rectangle} (hw : root.crops chain = .ok w) :
    (w.width, w.height) = chain.foldl (fun _ r => (r.width, r.height)) (width, height) ∧
    root.crop ⟨Rectangle.left chain, Rectangle.top chain, w.width, w.height⟩ = .ok w ∧
    (∀ r : Rectangle, r.HasPixels →
      (r.LiesIn w → ∃ w', w.crop r = .ok w') ∧ (¬ r.LiesIn w → w.crop r = .error .outOfBounds)) ∧
    ∀ {α : Type} (buffer : Vector α size),
      w.ShowsFrom buffer channels stride (Rectangle.left chain) (Rectangle.top chain) := by
  obtain ⟨hrootWidth, hrootHeight, hrootChannels, hrootStride, hstart, hpos⟩ := fields_of_ofLayout hroot
  have hpart := partOf_of_crops hw
  have hcrop := crop_of_crops hw
  have hcomplete := hpart.complete (hrootChannels ▸ hpos) (hrootWidth ▸ hwidth)
  have hchannels : 0 < w.channels := by
    rw [hpart.channels_eq, hrootChannels]
    exact hpos
  refine ⟨?_, hcrop, fun r hpixels => ⟨fun hin => exists_crop hpixels hin hchannels, crop_of_not_liesIn⟩,
    fun buffer => showsFrom_of_crop hstart hrootStride hrootChannels hpos hcrop hcomplete buffer⟩
  rw [← hrootWidth, ← hrootHeight]
  exact sides_of_crops hw

/-- Two cuts out of three rows of four pixels with two channels, of which the last row has no padding. They end
with the last two pixels of it, and a rectangle beside these is refused. -/
theorem crops_of_accepted_corner :
    ∃ root w : Window 28, ofLayout 28 4 3 2 10 = .ok root ∧ root.crops [⟨1, 1, 3, 2⟩, ⟨1, 1, 2, 1⟩] = .ok w ∧
      root.crop ⟨2, 2, 2, 1⟩ = .ok w ∧ w.crop ⟨1, 0, 2, 1⟩ = .error .outOfBounds ∧
      w.get? (Vector.range 28) 1 0 1 = some 27 ∧ w.contiguous? (Vector.range 28) = none := by
  obtain ⟨root, hroot⟩ : ∃ root, ofLayout 28 4 3 2 10 = .ok root := ⟨_, rfl⟩
  obtain ⟨w, hw⟩ : ∃ w, root.crops [⟨1, 1, 3, 2⟩, ⟨1, 1, 2, 1⟩] = .ok w := by
    cases hroot
    exact ⟨_, rfl⟩
  obtain ⟨hsides, hcrop, hcrops, hshows⟩ := crops_of_accepted hroot (by decide) hw
  obtain ⟨hwidth, hheight⟩ : w.width = 2 ∧ w.height = 1 := Prod.mk.inj hsides
  have hshow := hshows (Vector.range 28)
  obtain ⟨hplace, hget⟩ := hshow.get (x := 1) (y := 0) (c := 1) (by omega) (by omega) (by decide)
  have hout : ¬ (⟨1, 0, 2, 1⟩ : Rectangle).LiesIn w := fun h => by
    have hright : 1 + 2 ≤ w.width := h.1
    omega
  refine ⟨root, w, hroot, hw, ?_, (hcrops ⟨1, 0, 2, 1⟩ (by decide)).2 hout, ?_, ?_⟩
  · rw [hwidth, hheight] at hcrop
    exact hcrop
  · rw [hget]
    rfl
  · rw [hshow.contiguous, hwidth]
    rfl

end Window

end Resample
