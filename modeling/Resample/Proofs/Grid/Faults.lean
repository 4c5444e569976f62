import Resample.Proofs.Grid.Bands
import Resample.Proofs.Steps

/-!
# Faults of windows

A window that was accepted can be asked for any of its rows, written over, copied and cut into bands, and so
can every part of it. As long as there are pixels, none of that meets a fault, but for bands of more samples
than a word counts. A window of no pixels may have rows that begin behind the end of the buffer, or no
stride at all, and is accepted all the same: what follows tells exactly which requests then have no answer.

## Contents

- §1 rows, §2 parts, §3 bands, §4 all requests
-/

namespace Resample.Window

variable {α : Type} {size : Nat}

/-! ## §1 Rows -/

/-- Row `y` has pixels, or begins no later than the window's part of the buffer ends. -/
def Reaches (w : Window size) (y : Nat) : Prop := 0 < w.width ∨ y * w.stride ≤ w.length

/-- All rows are there. -/
def Complete (w : Window size) : Prop := ∀ y < w.height, w.Reaches y

/-- A row that has pixels ends in the window's part of the buffer, and one that has none does if it
begins there. -/
theorem reaches_iff {w : Window size} (hchannels : 0 < w.channels) {y : Nat} (hy : y < w.height) :
    w.Reaches y ↔ y * w.stride + w.rowLength ≤ w.length := by
  unfold Reaches
  rcases Nat.eq_zero_or_pos w.width with hwidth | hwidth
  · have hempty : w.rowLength = 0 := by rw [rowLength, hwidth, Nat.zero_mul]
    rw [hempty, hwidth]
    omega
  · -- the promise of the window is about its last row, and the others come before it
    have hrow : 0 < w.rowLength := Nat.mul_pos hwidth hchannels
    have hlast : y * w.stride ≤ (w.height - 1) * w.stride := Nat.mul_le_mul_right _ (by omega)
    have hspan := w.span_le_length
    unfold rowLength at hrow ⊢
    unfold spanLength at hspan
    rw [if_neg (by omega)] at hspan
    exact iff_of_true (.inl hwidth) (by omega)

theorem checkRow_eq_ok_iff {w : Window size} (hchannels : 0 < w.channels) {y : Nat} (hy : y < w.height) :
    w.checkRow y = .ok () ↔ w.Reaches y := by
  rw [reaches_iff hchannels hy]
  unfold checkRow
  rw [if_neg (by omega)]
  split
  · exact iff_of_false nofun (by omega)
  · exact iff_of_true rfl (by omega)

/-- A row that is there can be read. -/
theorem row_of_checkRow {w : Window size} {y : Nat} (h : w.checkRow y = .ok ()) (buffer : Vector α size) :
    w.row buffer y = .ok (w.rowSamples buffer y) := by
  unfold row
  rw [h]
  rfl

/-- A row that is there can be written. -/
theorem setRow_of_checkRow {w : Window size} {y : Nat} (h : w.checkRow y = .ok ()) (buffer : Vector α size)
    (values : List α) : w.setRow buffer y values = .ok (w.putRow buffer y values) := by
  unfold setRow
  rw [h]
  rfl

/-- All rows are there if the last one is. -/
theorem checkRows_eq_ok_iff {w : Window size} (hchannels : 0 < w.channels) :
    w.checkRows = .ok () ↔ w.Complete := by
  unfold checkRows
  split
  · next hempty => exact iff_of_true rfl fun y hy => absurd hy (by omega)
  · next hheight =>
    rw [checkRow_eq_ok_iff hchannels (by omega)]
    refine ⟨fun hlast y hy => ?_, fun h => h _ (by omega)⟩
    have habove : y * w.stride ≤ (w.height - 1) * w.stride := Nat.mul_le_mul_right _ (by omega)
    exact hlast.imp_right fun h => by omega

theorem exists_fill_iff {w : Window size} (hchannels : 0 < w.channels) (buffer : Vector α size)
    (value : α) : (∃ after, w.fill buffer value = .ok after) ↔ w.Complete :=
  exists_guarded_eq_ok_iff.trans (checkRows_eq_ok_iff hchannels)

/-! ## §2 Parts -/

/-- A window that is reached from another one by taking parts of parts. -/
inductive PartOf (root : Window size) : Window size → Prop where
  | refl : PartOf root root
  | part {w w' : Window size} {x y width height : Nat} (h : PartOf root w)
      (hpart : w.part x y width height = .ok w') : PartOf root w'

attribute [ext] Window

/-- A part begins at its first pixel, and what is behind that in the buffer is left to it. -/
theorem part_eq_ok_iff {w w' : Window size} {x y width height : Nat} :
    w.part x y width height = .ok w' ↔ (x + width ≤ w.width ∧ y + height ≤ w.height) ∧
      w'.width = width ∧ w'.height = height ∧ w'.channels = w.channels ∧ w'.stride = w.stride ∧
      w'.start = w.start + (y * w.stride + x * w.channels) ∧
      w.length = y * w.stride + x * w.channels + w'.length := by
  simp only [part]
  split
  · next hin =>
    rw [Except.ok.injEq]
    constructor
    · rintro rfl
      exact ⟨by omega, rfl, rfl, rfl, rfl, rfl, by simp only; omega⟩
    · rintro ⟨-, hwidth, hheight, hchannels, hstride, hstart, hlength⟩
      ext <;> simp only [hwidth, hheight, hchannels, hstride, hstart]
      omega
  · next hout =>
    constructor
    · intro h
      cases h
    · -- a window with these sides would have its rows in its own part of the buffer
      rintro ⟨hin, hwidth, hheight, hchannels, hstride, -, hlength⟩
      have hspan := w'.span_le_length
      rw [hwidth, hheight, hchannels, hstride] at hspan
      exact absurd ⟨by omega, by omega, by omega, by omega, by omega, by omega⟩ hout

theorem PartOf.channels_eq {root w : Window size} (h : root.PartOf w) : w.channels = root.channels := by
  induction h with
  | refl => rfl
  | part _ hpart ih =>
    obtain ⟨-, -, -, hchannels, -⟩ := part_eq_ok_iff.1 hpart
    exact hchannels.trans ih

theorem PartOf.stride_eq {root w : Window size} (h : root.PartOf w) : w.stride = root.stride := by
  induction h with
  | refl => rfl
  | part _ hpart ih =>
    obtain ⟨-, -, -, -, hstride, -⟩ := part_eq_ok_iff.1 hpart
    exact hstride.trans ih

/-- All rows end in the window's part of the buffer, those of no samples included. -/
def HasRows (w : Window size) : Prop := ∀ y < w.height, y * w.stride + w.rowLength ≤ w.length

theorem hasRows_of_width {w : Window size} (hchannels : 0 < w.channels) (hwidth : 0 < w.width) : w.HasRows :=
  fun _ hy => (reaches_iff hchannels hy).1 (.inl hwidth)

/-- Where the rows of a window end in its part of the buffer, those of its parts do. -/
theorem HasRows.part {w w' : Window size} {x y width height : Nat} (h : w.HasRows)
    (hpart : w.part x y width height = .ok w') : w'.HasRows := by
  obtain ⟨⟨hright, hbelow⟩, hwidth, hheight, hchannels, hstride, -, hlength⟩ := part_eq_ok_iff.1 hpart
  intro r hr
  have hrow := h (y + r) (by omega)
  have hcolumns : x * w.channels + width * w.channels ≤ w.width * w.channels := by
    rw [← Nat.add_mul]
    exact Nat.mul_le_mul_right _ hright
  rw [Nat.add_mul] at hrow
  unfold rowLength at hrow ⊢
  rw [hwidth, hchannels, hstride]
  omega

theorem PartOf.hasRows {root w : Window size} (h : root.PartOf w) (hrows : root.HasRows) : w.HasRows := by
  induction h with
  | refl => exact hrows
  | part _ hpart ih => exact ih.part hpart

/-- Rows that end in the window's part of the buffer are not refused. -/
theorem HasRows.checkRow {w : Window size} (h : w.HasRows) {y : Nat} (hy : y < w.height) :
    w.checkRow y = .ok () := by
  have hend := h y hy
  unfold Window.checkRow
  rw [if_neg (by omega), if_neg (by omega)]

theorem HasRows.checkRows {w : Window size} (h : w.HasRows) : w.checkRows = .ok () := by
  unfold Window.checkRows
  split
  · rfl
  · exact h.checkRow (by omega)

/-- A window whose last row is there has all rows. -/
theorem hasRows_of_checkRows {w : Window size} (h : w.checkRows = .ok ()) : w.HasRows := by
  intro y hy
  unfold Window.checkRows Window.checkRow at h
  rw [if_neg (by omega), if_neg (by omega)] at h
  have habove : y * w.stride ≤ (w.height - 1) * w.stride := Nat.mul_le_mul_right _ (by omega)
  split at h
  · cases h
  · omega

/-- The parts of a window that has pixels are complete, those of no pixels included. -/
theorem PartOf.complete {root w : Window size} (h : root.PartOf w) (hchannels : 0 < root.channels)
    (hwidth : 0 < root.width) : w.Complete := fun r hr =>
  (reaches_iff (h.channels_eq ▸ hchannels) hr).2 (h.hasRows (hasRows_of_width hchannels hwidth) r hr)

/-- The rows of a complete window of a stride that is not zero, their padding included, are at most twice
the buffer, or a single one. -/
theorem mul_height_le {w : Window size} (hchannels : 0 < w.channels) (h : w.Complete) :
    w.stride * w.height ≤ max w.stride (2 * w.length) := by
  rcases Nat.lt_or_ge w.height 2 with hheight | hheight
  · have hone : w.stride * w.height ≤ w.stride * 1 := Nat.mul_le_mul_left _ (by omega)
    omega
  · have hlast := (reaches_iff hchannels (y := w.height - 1) (by omega)).1 (h _ (by omega))
    have hdouble : w.height ≤ 2 * (w.height - 1) := by omega
    have htwice : w.stride * w.height ≤ 2 * ((w.height - 1) * w.stride) := by
      rw [Nat.mul_comm w.stride, ← Nat.mul_assoc]
      exact Nat.mul_le_mul_right _ hdouble
    omega

/-! ## §3 Bands -/

/-- A window of any height has bands if its stride is not zero and a word counts the samples of a band and
those of all rows. -/
theorem exists_cut_eq_ok_iff {w : Window size} {rows : Nat} (hrows : 0 < rows) :
    (∃ bands, w.cut rows = .ok bands) ↔ w.height = 0 ∨
      0 < w.stride ∧ rows * w.stride ≤ Word.top ∧ w.stride * w.height ≤ Word.top := by
  unfold cut bands
  rcases Nat.eq_zero_or_pos w.height with hheight | hheight
  · rw [if_neg (by simp [hheight]), if_pos (.inr hheight)]
    exact iff_of_true ⟨_, rfl⟩ (.inl hheight)
  · rcases Nat.eq_zero_or_pos w.stride with hstride | hstride
    · rw [if_neg (by simp [hstride]), if_neg (by omega), if_pos (by rw [hstride, Nat.mul_zero])]
      exact iff_of_false (by simp) (by omega)
    · have hsamples : 0 < rows * w.stride := Nat.mul_pos hrows hstride
      by_cases hall : Word.top < w.stride * w.height
      · rw [if_pos ⟨by omega, hall⟩]
        exact iff_of_false (by simp) (by omega)
      · rw [if_neg (by omega), if_neg (by omega), if_neg (by omega)]
        split
        · exact iff_of_false (by simp) (by omega)
        · exact iff_of_true ⟨_, rfl⟩ (by omega)

/-- The bands of a window that is cut. -/
theorem cut_eq_ok {w : Window size} {rows : Nat} (hrows : 0 < rows) {bands : List (Window size)}
    (h : w.cut rows = .ok bands) :
    w.height = 0 ∧ bands = [] ∨ 0 < rows * w.stride ∧ bands = w.bandList rows := by
  unfold cut Window.bands at h
  split at h
  · cases h
  · split at h
    · cases h
      exact .inl ⟨by omega, rfl⟩
    · split at h
      · cases h
      · split at h
        · cases h
        · cases h
          exact .inr ⟨by omega, rfl⟩

/-- A window of pixels in a buffer that a signed word counts is cut into all its bands if a word counts the
samples of one. -/
theorem cut_eq_ok_bandList {w : Window size} {rows : Nat} (hsize : size ≤ Word.greatest)
    (hwidth : 0 < w.width) (hheight : 0 < w.height) (hchannels : 0 < w.channels) (hrows : 0 < rows)
    (hband : rows * w.stride ≤ Word.top) :
    0 < rows * w.stride ∧ w.cut rows = .ok (w.bandList rows) := by
  have hstride : 0 < w.stride := Nat.lt_of_lt_of_le (Nat.mul_pos hwidth hchannels) w.row_le_stride
  have hall := mul_height_le hchannels fun y _ => .inl hwidth
  have hone : w.stride ≤ rows * w.stride := Nat.le_mul_of_pos_left _ hrows
  have hlength := w.start_add_length_le
  have hwords : (Word.greatest : Int) * 2 ≤ Word.top := by decide
  refine ⟨Nat.mul_pos hrows hstride, ?_⟩
  unfold cut
  rw [if_neg (by omega), bands_eq_ok hrows hheight hstride hband]

/-- The bands are complete if every row is there whose band begins in the window's part of the buffer. -/
theorem complete_bands_iff {w : Window size} {rows : Nat} (hchannels : 0 < w.channels) (hrows : 0 < rows)
    (hstride : 0 < w.stride) :
    (∀ i (h : i * (rows * w.stride) < w.usedSamples), (w.band rows i h).Complete) ↔
      ∀ y < w.height, y / rows * (rows * w.stride) < w.length → w.Reaches y := by
  have hroom : w.rowLength ≤ w.stride := w.row_le_stride
  have hbelow : ∀ y < w.height, y * w.stride + w.stride ≤ w.stride * w.height := by
    intro y hy
    rw [← Nat.add_one_mul, Nat.mul_comm w.stride]
    exact Nat.mul_le_mul_right _ hy
  constructor
  · -- a row is the row of that number in its band, with the same place in the buffer
    intro h y hy hbegin
    have hsplit : y / rows * (rows * w.stride) + y % rows * w.stride = y * w.stride := by
      rw [← Nat.mul_assoc, ← Nat.add_mul, Nat.mul_comm (y / rows), Nat.div_add_mod]
    have hused : y / rows * (rows * w.stride) < w.usedSamples :=
      Nat.lt_min.2 ⟨hbegin, by have := hbelow y hy; omega⟩
    have hrow : y % rows < (w.band rows (y / rows) hused).height := by
      have hin := Nat.mod_lt y hrows
      have hdiv : y / rows * rows + y % rows = y := by rw [Nat.mul_comm, Nat.div_add_mod]
      simp only [band]
      omega
    have hend := (reaches_iff (w := w.band rows _ hused) hchannels hrow).1 (h _ hused _ hrow)
    rw [reaches_iff hchannels hy]
    unfold usedSamples at hused
    simp only [band, rowLength] at hend ⊢
    omega
  · -- a row of a band is a row of the window, and both end at the same place
    intro h i hused r hr
    have hi : i * (rows * w.stride) < w.length := Nat.lt_of_lt_of_le hused (Nat.min_le_left ..)
    have hband : (i * rows + r) / rows = i ∧ i * rows + r < w.height ∧ r < rows := by
      simp only [band] at hr
      refine ⟨?_, by omega, by omega⟩
      rw [Nat.add_comm, Nat.add_mul_div_right _ _ hrows, Nat.div_eq_of_lt (by omega), Nat.zero_add]
    obtain ⟨hnumber, hin, hlt⟩ := hband
    have hreaches := h _ hin (by rw [hnumber]; exact hi)
    have hend := (reaches_iff hchannels hin).1 hreaches
    have hfirst : (i * rows + r) * w.stride = i * (rows * w.stride) + r * w.stride := by
      rw [Nat.add_mul, Nat.mul_assoc]
    have htotal := hbelow _ hin
    have hlast : r * w.stride + w.stride ≤ rows * w.stride := by
      rw [← Nat.add_one_mul]
      exact Nat.mul_le_mul_right _ hlt
    refine (reaches_iff (w := w.band rows i hused) hchannels hr).2 ?_
    unfold usedSamples at hused
    simp only [band, rowLength] at hend hroom ⊢
    omega

/-- Filling the bands one after another succeeds if all rows are there whose band begins in the window's
part of the buffer. -/
theorem exists_fillEach_cut_iff {w : Window size} {rows : Nat} (hchannels : 0 < w.channels)
    (hrows : 0 < rows) {bands : List (Window size)} (hcut : w.cut rows = .ok bands)
    (buffer : Vector α size) (value : Nat → α) :
    (∃ after, fillEach bands buffer value = .ok after) ↔
      ∀ y < w.height, y / rows * (rows * w.stride) < w.length → w.Reaches y := by
  rcases cut_eq_ok hrows hcut with ⟨hempty, rfl⟩ | ⟨hsamples, rfl⟩
  · exact iff_of_true ⟨buffer, rfl⟩ fun y hy => absurd hy (by omega)
  · have hstride : 0 < w.stride := Nat.pos_of_mul_pos_left hsamples
    have hstep : ∀ (buffer : Vector α size) (item : Window size × Nat), item ∈ (w.bandList rows).zipIdx →
        ((∃ after, item.1.fill buffer (value item.2) = .ok after) ↔ item.1.Complete) := by
      rintro buffer ⟨band, i⟩ hband
      obtain ⟨hbegin, rfl⟩ := (mem_zipIdx_bandList_iff hsamples).1 hband
      exact exists_fill_iff (w := w.band rows i hbegin) hchannels buffer _
    rw [← complete_bands_iff hchannels hrows hstride]
    refine (exists_foldlM_eq_ok_iff hstep buffer).trans ⟨fun h i hbegin => ?_, fun h item hitem => ?_⟩
    · exact h _ ((mem_zipIdx_bandList_iff hsamples).2 ⟨hbegin, rfl⟩)
    · obtain ⟨hbegin, hband⟩ := (mem_zipIdx_bandList_iff hsamples).1 hitem
      rw [hband]
      exact h _ hbegin

/-! ## §4 All requests -/

/-- An accepted window is onto the whole buffer, in the layout that was asked for, which has channels. -/
theorem fields_of_ofLayout {width height channels stride : Nat} {w : Window size}
    (h : ofLayout size width height channels stride = .ok w) :
    w.width = width ∧ w.height = height ∧ w.channels = channels ∧ w.stride = stride ∧ w.start = 0 ∧
      0 < channels := by
  unfold ofLayout at h
  obtain ⟨_, hchannels, h⟩ := bind_eq_ok_iff.1 h
  have hpos : 0 < channels := by
    unfold checkChannels at hchannels
    split at hchannels
    · next hin => exact hin.1
    · cases hchannels
  split at h
  · split at h
    · cases h
      exact ⟨rfl, rfl, rfl, rfl, rfl, hpos⟩
    · cases h
  · cases h

/-- A window of an accepted layout has channels. -/
theorem channels_pos_of_ofLayout {width height channels stride : Nat} {w : Window size}
    (h : ofLayout size width height channels stride = .ok w) : 0 < w.channels := by
  obtain ⟨-, -, rfl, -, -, hpos⟩ := fields_of_ofLayout h
  exact hpos

/-- Every part of an accepted window gives its rows, is written over, is copied and is cut into bands that
are written over in turn, if the rows in question are there, and if a word counts the samples of a band and
of all rows, none of them zero. If the window that was accepted has pixels, all rows of all its parts are
there, and what a word has to count are only the samples of a band. -/
theorem requests_of_accepted {width height channels stride : Nat} {root w : Window size}
    (hroot : ofLayout size width height channels stride = .ok root) (hw : root.PartOf w)
    (buffer : Vector α size) :
    (∀ y < w.height, ((∃ samples, w.row buffer y = .ok samples) ↔ w.Reaches y) ∧
      ∀ values, (∃ after, w.setRow buffer y values = .ok after) ↔ w.Reaches y) ∧
    (∀ value, (∃ after, w.fill buffer value = .ok after) ↔ w.Complete) ∧
    (∀ (size' : Nat) (source : Window size') (sourceBuffer : Vector α size'), w.SameShape source →
      ((∃ after, w.copyFrom buffer source sourceBuffer = .ok (.ok after)) ↔ w.Complete ∧ source.Complete)) ∧
    (∀ rows, 1 ≤ rows →
      ((∃ bands, w.cut rows = .ok bands) ↔ w.height = 0 ∨
        0 < w.stride ∧ rows * w.stride ≤ Word.top ∧ w.stride * w.height ≤ Word.top) ∧
      ∀ bands, w.cut rows = .ok bands → ∀ value, (∃ after, fillEach bands buffer value = .ok after) ↔
        ∀ y < w.height, y / rows * (rows * w.stride) < w.length → w.Reaches y) ∧
    (0 < root.width → size ≤ Word.greatest →
      w.Complete ∧ ∀ rows, 1 ≤ rows → rows * w.stride ≤ Word.top → ∃ bands, w.cut rows = .ok bands) := by
  have hrootChannels := channels_pos_of_ofLayout hroot
  have hchannels : 0 < w.channels := hw.channels_eq ▸ hrootChannels
  refine ⟨fun y hy => ⟨?_, fun values => ?_⟩, exists_fill_iff hchannels buffer, ?_, ?_, ?_⟩
  · exact exists_guarded_eq_ok_iff.trans (checkRow_eq_ok_iff hchannels hy)
  · exact exists_guarded_eq_ok_iff.trans (checkRow_eq_ok_iff hchannels hy)
  · intro size' source sourceBuffer hshape
    rw [← checkRows_eq_ok_iff hchannels, ← checkRows_eq_ok_iff (hshape.2.2 ▸ hchannels)]
    unfold copyFrom
    rw [if_pos hshape]
    cases w.checkRows <;> cases source.checkRows <;> simp [bind, Except.bind, pure, Except.pure]
  · exact fun rows hrows => ⟨exists_cut_eq_ok_iff hrows, fun bands hcut value =>
      exists_fillEach_cut_iff hchannels hrows hcut buffer value⟩
  · intro hwidth hsize
    have hcomplete := hw.complete hrootChannels hwidth
    refine ⟨hcomplete, fun rows hrows hband => (exists_cut_eq_ok_iff hrows).2 (.inr ⟨?_, hband, ?_⟩)⟩
    · rw [hw.stride_eq]
      exact Nat.lt_of_lt_of_le (Nat.mul_pos hwidth hrootChannels) root.row_le_stride
    · have hall := mul_height_le hchannels hcomplete
      have hstride : w.stride ≤ rows * w.stride := Nat.le_mul_of_pos_left _ hrows
      have hlength : w.length ≤ size := by have := w.start_add_length_le; omega
      have hwords : (Word.greatest : Int) * 2 ≤ Word.top := by decide
      omega

/-- The column at the right of a window of two rows, the last one without padding: all requests succeed. -/
theorem requests_of_accepted_column :
    ∃ root w, ofLayout 5 2 2 1 3 = .ok root ∧ root.part 1 0 1 2 = .ok w ∧ w.length = 4 ∧
      (∃ after, w.fill #v[1, 2, 0, 3, 4] 9 = .ok after) ∧ ∃ bands, w.cut 1 = .ok bands := by
  obtain ⟨root, hroot⟩ : ∃ root, ofLayout 5 2 2 1 3 = .ok root := ⟨_, rfl⟩
  obtain ⟨w, hpart, hlength⟩ : ∃ w, root.part 1 0 1 2 = .ok w ∧ w.length = 4 := by
    cases hroot
    exact ⟨_, rfl, rfl⟩
  have hwidth : root.width = 2 := by
    cases hroot
    rfl
  have hstride : w.stride = 3 := by
    cases hroot
    cases hpart
    rfl
  obtain ⟨-, hfill, -, -, hpixels⟩ := requests_of_accepted hroot (.part .refl hpart) #v[1, 2, 0, 3, 4]
  obtain ⟨hcomplete, hcut⟩ := hpixels (by omega) (by decide)
  have hband : 1 * w.stride ≤ Word.top := by
    rw [hstride]
    decide
  exact ⟨root, w, hroot, hpart, hlength, (hfill 9).2 hcomplete, hcut 1 (Nat.le_refl 1) hband⟩

/-- Windows of no pixels are accepted, though the buffer ends before their second row begins, or though bands
of their rows have no samples. -/
theorem exists_accepted_with_faults :
    (∃ w : Window 0, ofLayout 0 0 2 1 1 = .ok w ∧ 1 < w.height ∧
      w.row (#v[] : Vector Nat 0) 1 = .error .samplesOutOfRange ∧
      w.fill (#v[] : Vector Nat 0) 0 = .error .samplesOutOfRange) ∧
    ∃ w : Window 0, ofLayout 0 0 1 1 0 = .ok w ∧ w.cut 1 = .error .emptyBand :=
  ⟨⟨_, rfl, by decide, rfl, rfl⟩, _, rfl, rfl⟩

end Resample.Window
