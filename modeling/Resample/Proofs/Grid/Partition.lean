import Mathlib.Algebra.Order.Floor.Div
import Resample.Proofs.Grid.Faults

/-!
# Bands as a partition

The bands of a window are windows of the same width that take its rows from the top down, as many rows each as were
asked for, and the last one what is left. The cut counts samples, and the last row of a window may be short of its
padding, but no row is: so the last band begins exactly where one more row begins, no band is empty, and none shares a
sample of the buffer with another one.

## Contents

- §1 accepted windows, §2 partitions, §3 the bands of a window one by one, §4 all bands
-/

namespace Resample.Window

variable {α : Type} {size : Nat} {w band : Window size} {rows i j : Nat}

/-! ## §1 Accepted windows -/

/-- The window's own part of the buffer would be accepted as a buffer for its geometry. -/
def Valid (w : Window size) : Prop :=
  ∃ whole, ofLayout w.length w.width w.height w.channels w.stride = .ok whole

/-- All that is left to check of a window are its channels. -/
theorem valid_iff : w.Valid ↔ 1 ≤ w.channels ∧ w.channels ≤ 4 := by
  unfold Valid ofLayout checkChannels
  by_cases h : 1 ≤ w.channels ∧ w.channels ≤ 4
  · rw [if_pos h, dif_pos w.row_le_stride, dif_pos w.span_le_length]
    exact iff_of_true ⟨_, rfl⟩ h
  · rw [if_neg h]
    refine iff_of_false ?_ h
    rintro ⟨whole, hwhole⟩
    cases hwhole

/-! ## §2 Partitions -/

/-- Both windows have the samples of a row of the one as those of a row of the other, to read and to write. -/
def SameRow (w : Window size) (y : Nat) (w' : Window size) (y' : Nat) : Prop :=
  ∀ {α : Type} (buffer : Vector α size),
    (∃ samples, w.row buffer y = .ok samples ∧ w'.row buffer y' = .ok samples) ∧
    ∀ values, ∃ after, w.setRow buffer y values = .ok after ∧ w'.setRow buffer y' values = .ok after

/-- A list of windows shares out the rows of a window, from the top down and `rows` to each. -/
structure IsPartition (w : Window size) (rows : Nat) (bands : List (Window size)) : Prop where
  length_eq : bands.length = w.height ⌈/⌉ rows
  sides : ∀ {i band}, bands[i]? = some band → band.width = w.width ∧ band.channels = w.channels ∧
    band.stride = w.stride ∧ band.height = min rows (w.height - i * rows) ∧ 1 ≤ band.height
  valid : ∀ band ∈ bands, band.Valid
  sameRow : ∀ {i band j}, bands[i]? = some band → j < band.height →
    i * rows + j < w.height ∧ band.SameRow j w (i * rows + j)
  /-- Each row is that of one band only, and there of one number only. -/
  row_unique : ∀ y < w.height, ∃! place : Nat × Nat, ∃ band, bands[place.1]? = some band ∧
    place.2 < band.height ∧ place.1 * rows + place.2 = y
  disjoint : bands.Pairwise fun band band' => band.start + band.length ≤ band'.start
  inside : ∀ band ∈ bands, w.start ≤ band.start ∧ band.start + band.length ≤ w.start + w.length

/-! ## §3 The bands of a window one by one -/

/-- The band of a number, if its first row is one of the window. -/
theorem getElem?_bandList_eq_some_iff (hrows : 0 < rows) (hrow : 0 < w.rowLength) :
    (w.bandList rows)[i]? = some band ↔
      ∃ h : i * rows < w.height, band = w.band rows i ((begins_iff hrow).2 h) := by
  have hsamples : 0 < rows * w.stride := Nat.mul_pos hrows (Nat.lt_of_lt_of_le hrow w.row_le_stride)
  have hmem := @mem_zipIdx_bandList_iff _ w band rows i hsamples
  rw [List.mem_zipIdx_iff_getElem?] at hmem
  refine hmem.trans ⟨fun ⟨h, hband⟩ => ⟨(begins_iff hrow).1 h, hband⟩, fun ⟨h, hband⟩ => ⟨_, hband⟩⟩

/-- There are as many bands as their first rows are rows of the window. -/
theorem length_bandList (hrows : 0 < rows) (hrow : 0 < w.rowLength) :
    (w.bandList rows).length = w.height ⌈/⌉ rows := by
  have hcount : ∀ k, k < (w.bandList rows).length ↔ k < w.height ⌈/⌉ rows := by
    intro k
    rw [← not_le (a := w.height ⌈/⌉ rows), ceilDiv_le_iff_le_mul hrows, not_le, Nat.mul_comm rows]
    constructor
    · intro hk
      obtain ⟨h, -⟩ := (getElem?_bandList_eq_some_iff hrows hrow).1 (List.getElem?_eq_getElem hk)
      exact h
    · intro hk
      exact (List.getElem?_eq_some_iff.1 ((getElem?_bandList_eq_some_iff hrows hrow).2 ⟨hk, rfl⟩)).1
  exact Nat.le_antisymm (Nat.le_of_not_lt fun h => Nat.lt_irrefl _ ((hcount _).1 h))
    (Nat.le_of_not_lt fun h => Nat.lt_irrefl _ ((hcount _).2 h))

/-- Rows of pixels that begin at one place of the buffer and have as many samples are the same. -/
theorem sameRow_of_start_eq {w' : Window size} {y y' : Nat} (hcheck : w.checkRow y = .ok ())
    (hcheck' : w'.checkRow y' = .ok ()) (hstart : w.start + y * w.stride = w'.start + y' * w'.stride)
    (hlength : w.rowLength = w'.rowLength) : w.SameRow y w' y' := by
  intro α buffer
  refine ⟨⟨w.rowSamples buffer y, row_of_checkRow hcheck buffer, ?_⟩,
    fun values => ⟨w.putRow buffer y values, setRow_of_checkRow hcheck buffer values, ?_⟩⟩
  · rw [row_of_checkRow hcheck', rowSamples, rowSamples, hstart, hlength]
  · rw [setRow_of_checkRow hcheck', putRow, putRow, hstart, hlength]

/-- Row `j` of band `i` is row `i * rows + j` of the window. -/
theorem sameRow_band (hchannels : 0 < w.channels) (hwidth : 0 < w.width)
    (h : i * (rows * w.stride) < w.usedSamples) (hj : j < (w.band rows i h).height) :
    i * rows + j < w.height ∧ (w.band rows i h).SameRow j w (i * rows + j) := by
  have hin : i * rows + j < w.height := by
    simp only [Window.band] at hj
    omega
  have hstart : (w.band rows i h).start + j * (w.band rows i h).stride = w.start + (i * rows + j) * w.stride := by
    simp only [Window.band]
    rw [Nat.add_mul, Nat.mul_assoc]
    omega
  have hcheck := (checkRow_eq_ok_iff (w := w.band rows i h) hchannels hj).2 (.inl hwidth)
  have hcheck' := (checkRow_eq_ok_iff hchannels hin).2 (.inl hwidth)
  exact ⟨hin, sameRow_of_start_eq hcheck hcheck' hstart rfl⟩

/-- A row is found in the band of its quotient by the number of rows, at the remainder, and nowhere else. -/
theorem existsUnique_place (hrows : 0 < rows) (hrow : 0 < w.rowLength) {y : Nat} (hy : y < w.height) :
    ∃! place : Nat × Nat, ∃ band, (w.bandList rows)[place.1]? = some band ∧ place.2 < band.height ∧
      place.1 * rows + place.2 = y := by
  have hsplit : y / rows * rows + y % rows = y := Nat.div_add_mod' y rows
  have hrest := Nat.mod_lt y hrows
  refine ⟨(y / rows, y % rows), ⟨_, (getElem?_bandList_eq_some_iff hrows hrow).2 ⟨?_, rfl⟩, ?_, hsplit⟩, ?_⟩
  · dsimp only
    omega
  · simp only [Window.band]
    omega
  · rintro ⟨i, j⟩ ⟨band, hband, hj, rfl⟩
    obtain ⟨hi, rfl⟩ := (getElem?_bandList_eq_some_iff hrows hrow).1 hband
    simp only [Window.band] at hj
    have hlt : j < rows := by omega
    rw [Nat.mul_comm, Nat.mul_add_div hrows, Nat.div_eq_of_lt hlt, Nat.mul_add_mod, Nat.mod_eq_of_lt hlt, Nat.add_zero]

/-- A band ends in the buffer before the next one begins. -/
theorem pairwise_bandList (hrows : 0 < rows) (hrow : 0 < w.rowLength) :
    (w.bandList rows).Pairwise fun band band' => band.start + band.length ≤ band'.start := by
  rw [List.pairwise_iff_getElem]
  intro i k hi hk hik
  obtain ⟨hbegin, hband⟩ := (getElem?_bandList_eq_some_iff hrows hrow).1 (List.getElem?_eq_getElem hi)
  obtain ⟨hbegin', hband'⟩ := (getElem?_bandList_eq_some_iff hrows hrow).1 (List.getElem?_eq_getElem hk)
  rw [hband, hband']
  -- a band has no more samples than its rows, and so many lie between two begins at least
  have hstep : i * (rows * w.stride) + rows * w.stride ≤ k * (rows * w.stride) := by
    rw [← Nat.add_one_mul]
    exact Nat.mul_le_mul_right _ hik
  simp only [Window.band]
  omega

/-! ## §4 All bands -/

theorem isPartition_bandList (hvalid : w.Valid) (hwidth : 0 < w.width) (hrows : 0 < rows) :
    w.IsPartition rows (w.bandList rows) := by
  obtain ⟨hchannels, -⟩ := valid_iff.1 hvalid
  have hrow : 0 < w.rowLength := Nat.mul_pos hwidth hchannels
  -- a band of the list is the band of its place
  have hbands : ∀ band ∈ w.bandList rows, ∃ i, ∃ h : i * rows < w.height,
      band = w.band rows i ((begins_iff hrow).2 h) := by
    intro band hband
    obtain ⟨i, hi⟩ := List.mem_iff_getElem?.1 hband
    exact ⟨i, (getElem?_bandList_eq_some_iff hrows hrow).1 hi⟩
  exact {
    length_eq := length_bandList hrows hrow
    sides := fun {i band} hband => by
      obtain ⟨h, rfl⟩ := (getElem?_bandList_eq_some_iff hrows hrow).1 hband
      refine ⟨rfl, rfl, rfl, rfl, ?_⟩
      simp only [Window.band]
      omega
    valid := fun band hband => by
      obtain ⟨i, h, rfl⟩ := hbands band hband
      exact valid_iff.2 ((valid_iff (w := w)).1 hvalid)
    sameRow := fun {i band j} hband hj => by
      obtain ⟨h, rfl⟩ := (getElem?_bandList_eq_some_iff hrows hrow).1 hband
      exact sameRow_band hchannels hwidth _ hj
    row_unique := fun y hy => existsUnique_place hrows hrow hy
    disjoint := pairwise_bandList hrows hrow
    inside := fun band hband => by
      obtain ⟨i, h, rfl⟩ := hbands band hband
      have hbegin := (begins_iff hrow).2 h
      unfold usedSamples at hbegin
      simp only [Window.band]
      omega }

/-- A window of pixels that is accepted is cut into bands that share out its rows exactly, if a word counts the samples
of a band: as many bands as are needed, of the window's width and stride, all with a row at least, each row of the
window in one of them, none with a sample of another one. In a buffer that a signed word counts, a word counts the
samples of all rows too. -/
theorem exists_isPartition_of_bands (hvalid : w.Valid) (hwidth : 1 ≤ w.width) (hheight : 1 ≤ w.height)
    (hrows : 1 ≤ rows) (hband : rows * w.stride ≤ Word.top) :
    ∃ bands, w.bands rows = .ok bands ∧ (size ≤ Word.greatest → w.cut rows = .ok bands) ∧
      w.IsPartition rows bands := by
  obtain ⟨hchannels, -⟩ := valid_iff.1 hvalid
  have hstride : 0 < w.stride := Nat.lt_of_lt_of_le (Nat.mul_pos hwidth hchannels) w.row_le_stride
  refine ⟨w.bandList rows, bands_eq_ok hrows hheight hstride hband, fun hsize => ?_,
    isPartition_bandList hvalid hwidth hrows⟩
  exact (cut_eq_ok_bandList hsize hwidth hheight hchannels hrows hband).2

/-- The right column of five rows, of which the last one is short of its padding, in bands of two rows: the third
band has the row that is left. -/
theorem exists_isPartition_of_bands_column :
    ∃ root w bands, ofLayout 14 2 5 1 3 = .ok root ∧ root.part 1 0 1 5 = .ok w ∧
      w.length < w.stride * w.height ∧ w.cut 2 = .ok bands ∧ w.IsPartition 2 bands ∧ bands.length = 3 := by
  obtain ⟨root, hroot⟩ : ∃ root, ofLayout 14 2 5 1 3 = .ok root := ⟨_, rfl⟩
  obtain ⟨w, hpart, hlength⟩ : ∃ w, root.part 1 0 1 5 = .ok w ∧ w.length = 13 := by
    cases hroot
    exact ⟨_, rfl, rfl⟩
  obtain ⟨-, hrootChannels, hrootStride⟩ : root.width = 2 ∧ root.channels = 1 ∧ root.stride = 3 := by
    cases hroot
    exact ⟨rfl, rfl, rfl⟩
  obtain ⟨-, hwidth, hheight, hchannels, hstride, -⟩ := part_eq_ok_iff.1 hpart
  have hband : 2 * w.stride ≤ Word.top := by
    rw [hstride, hrootStride]
    decide
  obtain ⟨bands, -, hcut, hpartition⟩ := exists_isPartition_of_bands (valid_iff.2 (by omega)) (by omega)
    (by omega) (by omega) hband
  refine ⟨root, w, bands, hroot, hpart, ?_, hcut (by decide), hpartition, ?_⟩
  · rw [hlength, hstride, hrootStride, hheight]
    decide
  · rw [hpartition.length_eq, hheight]
    rfl

end Resample.Window
