import Resample.Grid.Error
import Resample.Number.Word

/-!
# Windows onto sample buffers

A window is a rectangle of pixels inside a flat buffer of samples. Row `y` starts `y * stride` samples
after the window's first one; each row holds `width * channels` samples and the rest of the stride is
padding. Windows nest: a part of a window is a window onto the same buffer with the same stride.

Every window keeps three promises (its proof fields): it lies inside the buffer, its rows do not
overlap, and, if it has pixels at all, its last row is complete. So the only reads and writes that can
go wrong are those of rows of no pixels, and rows that do not exist.

## Contents

- §1 geometry, §2 reading, §3 parts of a window, §4 writing
-/

namespace Resample

/-! ## §1 Geometry -/

/-- Samples from the first one of a rectangle to its last one. -/
def spanLength (rowLength height stride : Nat) : Nat :=
  if rowLength = 0 ∨ height = 0 then 0 else (height - 1) * stride + rowLength

theorem spanLength_le_mul {rowLength height stride : Nat} (h : rowLength ≤ stride) :
    spanLength rowLength height stride ≤ stride * height := by
  unfold spanLength
  split
  · exact Nat.zero_le _
  · next hne =>
    obtain ⟨k, rfl⟩ : ∃ k, height = k + 1 := ⟨height - 1, by omega⟩
    rw [Nat.add_sub_cancel, Nat.mul_add, Nat.mul_one, Nat.mul_comm stride k]
    omega

/-- A rectangle of pixels in a buffer of `size` samples. -/
structure Window (size : Nat) where
  width : Nat
  height : Nat
  channels : Nat
  /-- Samples from the start of a row to the start of the next one. -/
  stride : Nat
  /-- Position of the first sample in the buffer. -/
  start : Nat
  /-- Samples of the buffer, from `start` on, that the window may touch. -/
  length : Nat
  start_add_length_le : start + length ≤ size
  row_le_stride : width * channels ≤ stride
  span_le_length : spanLength (width * channels) height stride ≤ length

namespace Window

variable {α : Type} {size : Nat}

/-- Samples of a row, without padding. -/
def rowLength (w : Window size) : Nat := w.width * w.channels

/-- Whether the rows follow each other without padding. -/
def isContiguous (w : Window size) : Bool := w.stride = w.rowLength

/-- Position in the buffer of channel `c` of pixel `(x, y)`. -/
def position (w : Window size) (x y c : Nat) : Nat :=
  w.start + (y * w.stride + x * w.channels + c)

/-- Whether the window has a channel `c` of a pixel `(x, y)`. -/
def Contains (w : Window size) (x y c : Nat) : Prop :=
  x < w.width ∧ y < w.height ∧ c < w.channels

instance (w : Window size) (x y c : Nat) : Decidable (w.Contains x y c) :=
  inferInstanceAs (Decidable (_ ∧ _))

/-- What the window contains lies in its part of the buffer. -/
theorem Contains.offset_lt {w : Window size} {x y c : Nat} (h : w.Contains x y c) :
    y * w.stride + x * w.channels + c < w.length := by
  obtain ⟨hx, hy, hc⟩ := h
  have hrow : x * w.channels + c < w.width * w.channels :=
    Nat.lt_of_lt_of_le (by rw [Nat.add_one_mul]; omega) (Nat.mul_le_mul_right w.channels hx)
  have habove : y * w.stride ≤ (w.height - 1) * w.stride := Nat.mul_le_mul_right _ (by omega)
  have hspan := w.span_le_length
  unfold spanLength at hspan
  rw [if_neg (by omega)] at hspan
  omega

/-- What the window contains lies in the buffer. -/
theorem Contains.position_lt {w : Window size} {x y c : Nat} (h : w.Contains x y c) :
    w.position x y c < size := by
  have hoffset := h.offset_lt
  have hsize := w.start_add_length_le
  unfold position
  omega

/-- Refuses row `y` unless it exists and its samples are in the window's part of the buffer. -/
def checkRow (w : Window size) (y : Nat) : Except Fault Unit :=
  if w.height ≤ y then .error .rowOutOfRange
  else if w.length < y * w.stride + w.rowLength then .error .samplesOutOfRange
  else .ok ()

/-- Refuses the window unless all its rows are there. They are if the last one is. -/
def checkRows (w : Window size) : Except Fault Unit :=
  if w.height = 0 then .ok () else w.checkRow (w.height - 1)

/-- The window of the given geometry onto a whole buffer. -/
def ofLayout (size width height channels stride : Nat) : Except GridError (Window size) := do
  checkChannels channels
  if hrow : width * channels ≤ stride then
    if hspan : spanLength (width * channels) height stride ≤ size then
      return { width, height, channels, stride, start := 0, length := size
               start_add_length_le := by omega
               row_le_stride := hrow
               span_le_length := hspan }
    else throw (.sizeMismatch (min (spanLength (width * channels) height stride) Word.top) size)
  else throw .invalidStride

/-! ## §2 Reading -/

/-- The samples of row `y`, as far as the buffer goes. -/
def rowSamples (w : Window size) (buffer : Vector α size) (y : Nat) : Array α :=
  buffer.toArray.extract (w.start + y * w.stride) (w.start + y * w.stride + w.rowLength)

/-- The samples of row `y`. -/
def row (w : Window size) (buffer : Vector α size) (y : Nat) : Except Fault (Array α) := do
  w.checkRow y
  return w.rowSamples buffer y

/-- Channel `c` of pixel `(x, y)`. -/
def get? (w : Window size) (buffer : Vector α size) (x y c : Nat) : Option α :=
  if h : w.Contains x y c then
    have := h.position_lt
    some buffer[w.position x y c]
  else none

/-- All channels of pixel `(x, y)`. -/
def pixel? (w : Window size) (buffer : Vector α size) (x y : Nat) : Option (Array α) :=
  let first := y * w.stride + x * w.channels
  if x < w.width ∧ y < w.height ∧ first + w.channels ≤ w.length then
    some (buffer.toArray.extract (w.start + first) (w.start + first + w.channels))
  else none

/-- All samples of the window, if they follow each other in the buffer. -/
def contiguous? (w : Window size) (buffer : Vector α size) : Option (Array α) :=
  if w.isContiguous ∧ w.rowLength * w.height ≤ w.length then
    some (buffer.toArray.extract w.start (w.start + w.rowLength * w.height))
  else none

/-- All rows from the top down, each without padding, joined. -/
def samples (w : Window size) (buffer : Vector α size) : Array α :=
  (Array.range w.height).flatMap (w.rowSamples buffer)

/-! ## §3 Parts of a window -/

/-- The part of a window that starts at pixel `(x, y)` and has the given sides. -/
def part (w : Window size) (x y width height : Nat) : Except GridError (Window size) :=
  let first := y * w.stride + x * w.channels
  if h : x ≤ w.width ∧ y ≤ w.height ∧ width ≤ w.width - x ∧ height ≤ w.height - y ∧
      first ≤ w.length ∧ spanLength (width * w.channels) height w.stride ≤ w.length - first then
    .ok { w with
      width, height
      start := w.start + first
      length := w.length - first
      start_add_length_le := by have := w.start_add_length_le; omega
      row_le_stride :=
        Nat.le_trans (Nat.mul_le_mul_right _ (by omega)) w.row_le_stride
      span_le_length := h.2.2.2.2.2 }
  else .error .outOfBounds

/-- Helper: the rows of a band are complete. -/
private theorem band_span_le {rowLength height stride length rows i : Nat}
    (hrow : rowLength ≤ stride) (hspan : spanLength rowLength height stride ≤ length)
    (hi : i * (rows * stride) < min length (stride * height)) :
    spanLength rowLength (min rows (height - i * rows)) stride ≤
      min (rows * stride) (min length (stride * height) - i * (rows * stride)) := by
  rw [Nat.le_min]
  constructor
  · exact Nat.le_trans (spanLength_le_mul hrow)
      (by rw [Nat.mul_comm]; exact Nat.mul_le_mul_right _ (Nat.min_le_left _ _))
  · apply Nat.le_sub_of_add_le
    by_cases hempty : rowLength = 0 ∨ min rows (height - i * rows) = 0
    · -- a band of nothing takes no samples, and the bands before it end in the buffer
      rw [show spanLength rowLength (min rows (height - i * rows)) stride = 0 from if_pos hempty]
      omega
    · have hlast : (min rows (height - i * rows) - 1) * stride + i * (rows * stride) ≤
          (height - 1) * stride := by
        rw [← Nat.mul_assoc, ← Nat.add_mul]
        exact Nat.mul_le_mul_right _ (by omega)
      have hfull : spanLength rowLength height stride ≤ stride * height := spanLength_le_mul hrow
      refine Nat.le_trans ?_ (Nat.le_min.2 ⟨hspan, hfull⟩)
      unfold spanLength
      rw [if_neg hempty, if_neg (by omega)]
      omega

/-- Band `i` of the window in bands of `rows` rows, if its samples begin inside the window. -/
def band (w : Window size) (rows i : Nat)
    (h : i * (rows * w.stride) < min w.length (w.stride * w.height)) : Window size :=
  { w with
    height := min rows (w.height - i * rows)
    start := w.start + i * (rows * w.stride)
    length := min (rows * w.stride)
      (min w.length (w.stride * w.height) - i * (rows * w.stride))
    start_add_length_le := by have := w.start_add_length_le; omega
    row_le_stride := w.row_le_stride
    span_le_length := band_span_le w.row_le_stride w.span_le_length h }

/-- The window cut into bands of `rows` rows from the top down; the last one may have fewer. The cut
follows the samples, not the rows: a band begins every `rows * stride` samples. -/
def bandList (w : Window size) (rows : Nat) : List (Window size) :=
  -- what is behind the last row is in no band, though it may belong to the window
  let used := min w.length (w.stride * w.height)
  let samples := rows * w.stride
  (List.range ((used + samples - 1) / samples)).filterMap fun i =>
    if h : i * samples < used then some (w.band rows i h) else none

/-- The bands of a window. A window of any height has none of no rows, and none can be of no samples
or of more than a word counts. -/
def bands (w : Window size) (rows : Nat) : Except Fault (List (Window size)) :=
  if rows = 0 ∨ w.height = 0 then .ok []
  else if rows * w.stride = 0 then .error .emptyBand
  else if Word.top < rows * w.stride then .error .sizeOverflow
  else .ok (w.bandList rows)

/-- The bands of a window where words count samples: a window whose rows, their padding included, are
more samples than a word counts has none. -/
def cut (w : Window size) (rows : Nat) : Except Fault (List (Window size)) :=
  if rows ≠ 0 ∧ Word.top < w.stride * w.height then .error .sizeOverflow
  else w.bands rows

/-! ## §4 Writing -/

/-- The buffer with values written over it from position `first` on; values that would fall behind
the end are dropped. -/
def overwrite (buffer : Vector α size) (first : Nat) : List α → Vector α size
  | [] => buffer
  | v :: rest => overwrite (buffer.setIfInBounds first v) (first + 1) rest

/-- Reading after `overwrite`: the values that were written, and around them what was there before. -/
theorem getElem_overwrite (buffer : Vector α size) (first : Nat) (values : List α) (i : Nat)
    (hi : i < size) :
    (overwrite buffer first values)[i] =
      if h : first ≤ i ∧ i - first < values.length then values[i - first] else buffer[i] := by
  induction values generalizing buffer first with
  | nil => simp [overwrite]
  | cons v rest ih =>
    rw [overwrite, ih, Vector.getElem_setIfInBounds]
    by_cases hfirst : first = i
    · subst hfirst
      rw [dif_neg (by omega), if_pos rfl, dif_pos ⟨Nat.le_refl _, by simp⟩]
      simp
    · by_cases hin : first ≤ i ∧ i - first < (v :: rest).length
      · have hrest : first + 1 ≤ i ∧ i - (first + 1) < rest.length := by
          simp only [List.length_cons] at hin
          omega
        rw [dif_pos hrest, dif_pos hin]
        have hsucc : i - first = i - (first + 1) + 1 := by omega
        simp only [hsucc, List.getElem_cons_succ]
      · have hrest : ¬ (first + 1 ≤ i ∧ i - (first + 1) < rest.length) := by
          simp only [List.length_cons] at hin
          omega
        rw [dif_neg hrest, dif_neg hin, if_neg hfirst]

/-- Writes one channel of one pixel; gives the value that was there, or nothing if the window does
not have it. -/
def set? (w : Window size) (buffer : Vector α size) (x y c : Nat) (value : α) :
    Option (α × Vector α size) :=
  (w.get? buffer x y c).map fun old => (old, buffer.setIfInBounds (w.position x y c) value)

/-- The buffer with values written over the first samples of row `y`; values beyond the row are
dropped. -/
def putRow (w : Window size) (buffer : Vector α size) (y : Nat) (values : List α) : Vector α size :=
  overwrite buffer (w.start + y * w.stride) (values.take w.rowLength)

/-- The buffer with the rows of the window, from the top down, written over by the given ones. -/
def putRows (w : Window size) (buffer : Vector α size) (values : Nat → List α) : Vector α size :=
  (List.range w.height).foldl (fun buffer y => w.putRow buffer y (values y)) buffer

/-- Writes values over the first samples of row `y`. -/
def setRow (w : Window size) (buffer : Vector α size) (y : Nat) (values : List α) :
    Except Fault (Vector α size) := do
  w.checkRow y
  return w.putRow buffer y values

/-- Writes one value into every sample of the window. -/
def fill (w : Window size) (buffer : Vector α size) (value : α) : Except Fault (Vector α size) := do
  w.checkRows
  return w.putRows buffer fun _ => List.replicate w.rowLength value

/-- Writes `value i` into every sample of the `i`-th window of a list. -/
def fillEach (windows : List (Window size)) (buffer : Vector α size) (value : Nat → α) :
    Except Fault (Vector α size) :=
  windows.zipIdx.foldlM (fun buffer (w, i) => w.fill buffer (value i)) buffer

/-- Whether two windows have the same sides and channels. -/
def SameShape {size' : Nat} (w : Window size) (w' : Window size') : Prop :=
  w'.width = w.width ∧ w'.height = w.height ∧ w'.channels = w.channels

instance {size' : Nat} (w : Window size) (w' : Window size') : Decidable (w.SameShape w') :=
  inferInstanceAs (Decidable (_ ∧ _))

/-- The buffer with the rows of the window written over by those of another one. -/
def putAll {size' : Nat} (w : Window size) (buffer : Vector α size) (source : Window size')
    (sourceBuffer : Vector α size') : Vector α size :=
  w.putRows buffer fun y => (source.rowSamples sourceBuffer y).toList

/-- The refusal of a copy between windows of different shapes. -/
def shapeError {size' : Nat} (w : Window size) (w' : Window size') : GridError :=
  .sizeMismatch (w.rowLength * w.height) (w'.rowLength * w'.height)

/-- Copies the samples of a window of the same shape, row by row. -/
def copyFrom {size' : Nat} (w : Window size) (buffer : Vector α size) (source : Window size')
    (sourceBuffer : Vector α size') : Except Fault (Except GridError (Vector α size)) :=
  if w.SameShape source then do
    w.checkRows
    source.checkRows
    return .ok (w.putAll buffer source sourceBuffer)
  else
    return .error (w.shapeError source)

end Window

end Resample
