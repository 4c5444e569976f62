import Resample.Proofs.Grid.Writes

/-!
# Bands of a window

A window is cut into bands by counting samples, not rows. That the cut still falls between rows, that
every row with samples is in a band and that every row of a band is a row of the window is what makes
work on the bands work on the window.
-/

namespace Resample.Window

variable {size : Nat}

/-- Helper: where a partial function has a value everywhere, it keeps the places of a list. -/
private theorem getElem?_filterMap_of_isSome {α β : Type} {f : α → Option β} {items : List α}
    (h : ∀ a ∈ items, (f a).isSome) (i : Nat) : (items.filterMap f)[i]? = items[i]?.bind f := by
  induction items generalizing i with
  | nil => rfl
  | cons a rest ih =>
    obtain ⟨b, hb⟩ := Option.isSome_iff_exists.1 (h a (List.mem_cons_self ..))
    rw [List.filterMap_cons_some hb]
    cases i with
    | zero => simp [hb]
    | succ i => simpa using ih (fun a ha => h a (List.mem_cons_of_mem _ ha)) i

/-- Samples that the bands of a window share out: those of its part of the buffer, up to the end of its
last row. -/
def usedSamples (w : Window size) : Nat := min w.length (w.stride * w.height)

/-- Helper: the cut in terms of the samples shared out. -/
private theorem bandList_eq (w : Window size) (rows : Nat) :
    w.bandList rows =
      (List.range ((w.usedSamples + rows * w.stride - 1) / (rows * w.stride))).filterMap fun i =>
        if h : i * (rows * w.stride) < w.usedSamples then some (w.band rows i h) else none := rfl

/-- The bands are numbered in their order, and a band is there as long as its samples begin in the
window. -/
theorem mem_zipIdx_bandList_iff {w band : Window size} {rows i : Nat} (hsamples : 0 < rows * w.stride) :
    (band, i) ∈ (w.bandList rows).zipIdx ↔
      ∃ h : i * (rows * w.stride) < w.usedSamples, band = w.band rows i h := by
  -- the number of bands is rounded upwards, so the last one may begin anywhere before the end
  have hcount : ∀ k, k < (w.usedSamples + rows * w.stride - 1) / (rows * w.stride) ↔
      k * (rows * w.stride) < w.usedSamples := by
    intro k
    rw [Nat.lt_iff_add_one_le, Nat.le_div_iff_mul_le hsamples, Nat.add_one_mul]
    omega
  have hall : ∀ k ∈ List.range ((w.usedSamples + rows * w.stride - 1) / (rows * w.stride)),
      (if h : k * (rows * w.stride) < w.usedSamples then some (w.band rows k h) else none).isSome := by
    intro k hk
    rw [dif_pos ((hcount k).1 (List.mem_range.1 hk))]
    rfl
  rw [List.mem_zipIdx_iff_getElem?, bandList_eq, getElem?_filterMap_of_isSome hall]
  by_cases h : i * (rows * w.stride) < w.usedSamples
  · rw [List.getElem?_range ((hcount i).2 h), Option.bind_some, dif_pos h, Option.some.injEq]
    exact ⟨fun hband => ⟨h, hband.symm⟩, fun ⟨_, hband⟩ => hband.symm⟩
  · rw [List.getElem?_eq_none (by rw [List.length_range]; exact Nat.le_of_not_lt (mt (hcount i).1 h))]
    exact ⟨fun hnone => absurd hnone (by simp), fun ⟨hin, _⟩ => absurd hin h⟩

/-- Helper: a stride has room for a row. -/
private theorem stride_pos {w : Window size} (hrow : 0 < w.rowLength) : 0 < w.stride :=
  Nat.lt_of_lt_of_le hrow w.row_le_stride

/-- A row of samples begins among those that are shared out, even if the last one is shorter than a stride. -/
theorem mul_stride_lt_usedSamples {w : Window size} {y : Nat} (hrow : 0 < w.rowLength) (hy : y < w.height) :
    y * w.stride < w.usedSamples := by
  have hspan := w.span_le_length
  have hlast : y * w.stride ≤ (w.height - 1) * w.stride := Nat.mul_le_mul_right _ (by omega)
  have htotal : y * w.stride < w.stride * w.height := by
    rw [Nat.mul_comm w.stride]
    exact Nat.mul_lt_mul_of_pos_right hy (stride_pos hrow)
  unfold rowLength at hrow
  unfold spanLength at hspan
  rw [if_neg (by omega)] at hspan
  unfold usedSamples
  omega

/-- A band begins among the samples that are shared out exactly if its first row is one of the window. -/
theorem begins_iff {w : Window size} {rows i : Nat} (hrow : 0 < w.rowLength) :
    i * (rows * w.stride) < w.usedSamples ↔ i * rows < w.height := by
  rw [← Nat.mul_assoc]
  constructor
  · intro h
    have htotal : i * rows * w.stride < w.height * w.stride := by
      rw [Nat.mul_comm w.height]
      exact Nat.lt_of_lt_of_le h (Nat.min_le_right ..)
    exact Nat.lt_of_mul_lt_mul_right htotal
  · exact mul_stride_lt_usedSamples hrow

/-- Every row of samples is in a band: row `y` is row `y % rows` of band `y / rows`. -/
theorem exists_band_of_row {w : Window size} {rows y : Nat} (hrows : 0 < rows)
    (hrow : 0 < w.rowLength) (hy : y < w.height) :
    ∃ band, (band, y / rows) ∈ (w.bandList rows).zipIdx ∧ y % rows < band.height ∧
      band.start + y % rows * band.stride = w.start + y * w.stride ∧ band.stride = w.stride := by
  have hstride := stride_pos hrow
  have hsplit : y / rows * rows + y % rows = y := by rw [Nat.mul_comm, Nat.div_add_mod]
  have hfirst : y / rows * (rows * w.stride) + y % rows * w.stride = y * w.stride := by
    rw [← Nat.mul_assoc, ← Nat.add_mul, hsplit]
  have hbegin : y / rows * (rows * w.stride) < w.usedSamples := (begins_iff hrow).2 (by omega)
  refine ⟨w.band rows (y / rows) hbegin,
    (mem_zipIdx_bandList_iff (Nat.mul_pos hrows hstride)).2 ⟨hbegin, rfl⟩, ?_, ?_, rfl⟩
  · have hin := Nat.mod_lt y hrows
    simp only [band]
    omega
  · simp only [band]
    omega

/-- Every row of a band is a row of the window. -/
theorem row_of_mem_bandList {w band : Window size} {rows i r : Nat} (hsamples : 0 < rows * w.stride)
    (hband : (band, i) ∈ (w.bandList rows).zipIdx) (hr : r < band.height) :
    i * rows + r < w.height ∧ band.start + r * band.stride = w.start + (i * rows + r) * w.stride := by
  obtain ⟨h, rfl⟩ := (mem_zipIdx_bandList_iff hsamples).1 hband
  simp only [Window.band] at hr ⊢
  refine ⟨by omega, ?_⟩
  rw [Nat.add_mul, Nat.mul_assoc]
  omega

/-- A window that has rows of samples has bands, if a word counts the samples of a band. -/
theorem bands_eq_ok {w : Window size} {rows : Nat} (hrows : 0 < rows) (hheight : 0 < w.height)
    (hstride : 0 < w.stride) (hword : rows * w.stride ≤ Word.top) : w.bands rows = .ok (w.bandList rows) := by
  have hsamples : 0 < rows * w.stride := Nat.mul_pos hrows hstride
  unfold bands
  rw [if_neg (by omega), if_neg (by omega), if_neg (by omega)]

end Resample.Window
