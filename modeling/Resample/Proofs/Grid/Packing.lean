import Resample.Grid.Plane
import Resample.Proofs.Grid.Writes
import Resample.Proofs.Steps

/-!
# Rows without padding

The samples of a window are its rows, one after another and without what stands between them in the buffer. So
they are as many as the window has channels of pixels, each has its place by its row and column, and the plane
without padding that holds them shows what the window shows.

## Contents

- §1 blocks of one length, §2 the samples of a window, §3 planes without padding
-/

namespace Resample

/-! ## §1 Blocks of one length -/

section Blocks

variable {α β : Type} {items : List α} {block : α → List β} {n : Nat}

/-- Blocks of one length make a list of as many times that length. -/
theorem length_flatMap_of_forall (h : ∀ a ∈ items, (block a).length = n) :
    (items.flatMap block).length = items.length * n := by
  rw [List.length_flatMap, List.map_eq_replicate_iff.2 h, List.sum_replicate_nat]

/-- A place in blocks one after another, counted from the begin of the block that it is in. -/
theorem getElem?_flatMap_of_getElem? {i j : Nat} {a : α} (hi : items[i]? = some a)
    (hj : j < (block a).length) :
    (items.flatMap block)[((items.take i).flatMap block).length + j]? = (block a)[j]? := by
  induction items generalizing i with
  | nil => exact absurd hi (by simp)
  | cons first rest ih =>
    cases i with
    | zero =>
      obtain rfl : first = a := Option.some.inj hi
      rw [List.take_zero, List.flatMap_nil, List.length_nil, Nat.zero_add, List.flatMap_cons,
        List.getElem?_append_left hj]
    | succ i =>
      rw [List.take_succ_cons, List.flatMap_cons, List.flatMap_cons, List.length_append,
        Nat.add_assoc, List.getElem?_append_right (Nat.le_add_right ..), Nat.add_sub_cancel_left]
      exact ih hi

/-- If the blocks are of one length, a place is in the block that its quotient by the length names. -/
theorem getElem?_flatMap_of_forall (h : ∀ a ∈ items, (block a).length = n) {i j : Nat} {a : α}
    (hi : items[i]? = some a) (hj : j < n) : (items.flatMap block)[i * n + j]? = (block a)[j]? := by
  have hlt : i < items.length := (List.getElem?_eq_some_iff.1 hi).1
  have hbefore : ((items.take i).flatMap block).length = i * n := by
    rw [length_flatMap_of_forall fun a ha => h a (List.mem_of_mem_take ha), List.length_take,
      Nat.min_eq_left (Nat.le_of_lt hlt)]
  rw [← hbefore, getElem?_flatMap_of_getElem? hi (by rwa [h a (List.mem_of_getElem? hi)])]

end Blocks

/-! ## §2 The samples of a window -/

namespace Window

variable {α : Type} {size : Nat} {w : Window size} {buffer : Vector α size}

/-- A row has its full length. -/
theorem size_rowSamples (buffer : Vector α size) {y : Nat} (hy : y < w.height) :
    (w.rowSamples buffer y).size = w.rowLength := by
  have hsize := w.start_add_length_le
  have hspan := w.span_le_length
  unfold rowSamples
  rw [Array.size_extract, Vector.size_toArray]
  by_cases hrow : w.rowLength = 0
  · omega
  · -- the last row is complete, and this one does not begin behind it
    have hrows : y * w.stride ≤ (w.height - 1) * w.stride := Nat.mul_le_mul_right _ (by omega)
    unfold spanLength at hspan
    unfold rowLength at hrow ⊢
    rw [if_neg (by omega)] at hspan
    omega

/-- Helper: the samples of a window as a list, row after row. -/
private theorem toList_samples (w : Window size) (buffer : Vector α size) :
    (w.samples buffer).toList =
      (List.range w.height).flatMap fun y => (w.rowSamples buffer y).toList := by
  unfold samples
  rw [Array.toList_flatMap, Array.toList_range]

/-- Helper: all rows of a window have one length. -/
private theorem length_rows (w : Window size) (buffer : Vector α size) :
    ∀ y ∈ List.range w.height, (w.rowSamples buffer y).toList.length = w.rowLength := by
  intro y hy
  rw [Array.length_toList, size_rowSamples buffer (List.mem_range.1 hy)]

/-- A window has as many samples as its rows have together. -/
theorem size_samples (w : Window size) (buffer : Vector α size) :
    (w.samples buffer).size = w.height * w.rowLength := by
  rw [← Array.length_toList, toList_samples, length_flatMap_of_forall (w.length_rows buffer),
    List.length_range]

/-- Each sample stands in its row, and there at its column. -/
theorem getElem?_samples (w : Window size) (buffer : Vector α size) {x y c : Nat}
    (hin : w.Contains x y c) :
    (w.samples buffer)[y * w.rowLength + (x * w.channels + c)]? = w.get? buffer x y c := by
  rw [← Array.getElem?_toList, toList_samples,
    getElem?_flatMap_of_forall (w.length_rows buffer) (List.getElem?_range hin.2.1) hin.column_lt,
    Array.getElem?_toList, getElem?_rowSamples hin.2.1 hin.2.2]

/-- Helper: what a row holds stands in the buffer, from the begin of the row. -/
private theorem getElem?_rowSamples_of_lt {y i : Nat} (hy : y < w.height) (hi : i < w.rowLength) :
    (w.rowSamples buffer y)[i]? = buffer.toArray[w.start + y * w.stride + i]? := by
  have hsize := size_rowSamples buffer hy
  unfold rowSamples at hsize ⊢
  rw [Array.size_extract] at hsize
  rw [Array.getElem?_extract, if_pos (by omega)]

/-- Rows without padding between them are in the window's part of the buffer. -/
theorem mul_rowLength_le_of_contiguous (h : w.stride = w.rowLength) : w.height * w.rowLength ≤ w.length := by
  have hspan := w.span_le_length
  unfold spanLength at hspan
  split at hspan
  · next hempty =>
    have hnothing : w.height * w.rowLength = 0 := Nat.mul_eq_zero.2 hempty.symm
    omega
  · have hrows : w.height * w.rowLength = (w.height - 1) * w.rowLength + w.rowLength := by
      rw [← Nat.succ_mul]
      congr 1
      omega
    rw [h] at hspan
    unfold rowLength at hrows hspan ⊢
    omega

/-- The samples of a window without padding are a piece of the buffer. -/
theorem samples_of_contiguous (h : w.stride = w.rowLength) (buffer : Vector α size) :
    w.samples buffer = buffer.toArray.extract w.start (w.start + w.height * w.rowLength) := by
  have hsize := w.size_samples buffer
  have hbuffer : buffer.toArray.size = size := buffer.size_toArray
  have hfits := mul_rowLength_le_of_contiguous h
  have hlength := w.start_add_length_le
  have hextract : (buffer.toArray.extract w.start (w.start + w.height * w.rowLength)).size =
      w.height * w.rowLength := by
    rw [Array.size_extract]
    omega
  apply Array.ext_getElem?
  intro i
  by_cases hi : i < w.height * w.rowLength
  · have hrow : 0 < w.rowLength := Nat.pos_of_mul_pos_left (Nat.lt_of_le_of_lt (Nat.zero_le i) hi)
    have hy : i / w.rowLength < w.height := (Nat.div_lt_iff_lt_mul hrow).2 hi
    have hx : i % w.rowLength < w.rowLength := Nat.mod_lt i hrow
    have hsplit : i / w.rowLength * w.rowLength + i % w.rowLength = i := Nat.div_add_mod' i w.rowLength
    have hsample := getElem?_flatMap_of_forall (w.length_rows buffer) (List.getElem?_range hy) hx
    -- row and column of a place, taken together again, make the place
    rw [hsplit, ← toList_samples, Array.getElem?_toList, Array.getElem?_toList,
      getElem?_rowSamples_of_lt hy hx, h, Nat.add_assoc, hsplit] at hsample
    rw [hsample, Array.getElem?_extract, if_pos (by omega)]
  · rw [Array.getElem?_eq_none (by omega), Array.getElem?_eq_none (by omega)]

end Window

/-! ## §3 Planes without padding -/

namespace Plane

variable {α : Type} {width height channels : Nat} {data : Array α} {p : Plane α}

/-- A place in rows of one channel without padding gives the column and the row, so a plane whose samples are told
by these shows at each pixel what is told of it. -/
theorem get?_of_places {f : Nat → Nat → α} (hchannels : p.channels = 1) (hstride : p.stride = p.width)
    (hdata : ∀ (i : Nat) (hi : i < p.stride * p.height), p.data[i] = f (i % p.width) (i / p.width))
    {x y : Nat} (hx : x < p.width) (hy : y < p.height) : p.window.get? p.data x y 0 = some (f x y) := by
  have hin : p.window.Contains x y 0 := ⟨hx, hy, show 0 < p.channels by omega⟩
  have hposition : p.window.position x y 0 = p.width * y + x := by
    change 0 + (y * p.stride + x * p.channels + 0) = _
    rw [hchannels, hstride, Nat.mul_comm y]
    omega
  have hcolumn : (p.width * y + x) % p.width = x := by rw [Nat.mul_add_mod, Nat.mod_eq_of_lt hx]
  have hrow : (p.width * y + x) / p.width = y := by
    rw [Nat.mul_add_div (Nat.lt_of_le_of_lt (Nat.zero_le x) hx), Nat.div_eq_of_lt hx, Nat.add_zero]
  rw [Window.get?_of_contains hin, hdata, hposition, hcolumn, hrow]

/-- A plane is made of samples if there are as many as it has, and its rows are of a length that a word
counts. -/
theorem exists_ofArray (hchannels : 1 ≤ channels ∧ channels ≤ 4)
    (hsize : data.size = width * channels * height) (hrow : width * channels ≤ Word.top) :
    ∃ p, Plane.ofArray width height channels data = .ok p := by
  unfold Plane.ofArray checkChannels
  simp only
  rw [if_pos hchannels, dif_pos ⟨hsize, hrow⟩]
  exact ⟨_, rfl⟩

/-- A plane made of samples has the sides that were asked for, and these samples. -/
theorem eq_of_ofArray (h : Plane.ofArray width height channels data = .ok p) :
    p.width = width ∧ p.height = height ∧ p.channels = channels ∧ p.samples = data := by
  unfold Plane.ofArray at h
  obtain ⟨-, -, h⟩ := bind_eq_ok_iff.1 h
  simp only at h
  split at h
  · next hsize =>
    cases h
    refine ⟨rfl, rfl, rfl, (Window.samples_of_contiguous rfl _).trans ?_⟩
    have hall : 0 + height * (width * channels) = data.size := by
      rw [hsize.1, Nat.zero_add, Nat.mul_comm]
    exact (congrArg (fun stop => data.extract 0 stop) hall).trans Array.extract_size
  · cases h

end Plane

end Resample
