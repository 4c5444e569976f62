import Resample.Grid.Plane
import Resample.Proofs.Grid.Nesting

/-!
# Edits through a window

Through a window single samples are written, rows, all samples at once, and the samples of another window. Each of
these edits draws a picture into the window and leaves the rest of the buffer: the padding of the rows, the pixels
beside the window and what is behind its last sample. A run of edits leaves all that as well, whatever they write
and in whatever order.

An edit is never refused by a window that was cut out of the pixels of a whole buffer, but for a copy of a window
of other sides or other channels.

## Contents

- §1 windows onto whole buffers, §2 edits and their pictures, §3 what an edit leaves, §4 edits of one window
-/

namespace Resample.Window

variable {α : Type} {size size' : Nat} {root w : Window size} {source : Window size'} {buffer : Vector α size}

/-! ## §1 Windows onto whole buffers -/

/-- Windows onto a whole buffer: accepted ones, and those of planes. -/
inductive Whole : {size : Nat} → Window size → Prop where
  | layout {size width height channels stride : Nat} {w : Window size}
      (h : ofLayout size width height channels stride = .ok w) : Whole w
  | plane {α : Type} (p : Plane α) : Whole p.window

/-- Windows that chains of rectangles cut out of a whole buffer. -/
def IsCut (w : Window size) : Prop := ∃ root chain, Whole root ∧ root.crops chain = .ok w

theorem Whole.start_eq (h : root.Whole) : root.start = 0 := by
  cases h with
  | layout h =>
    obtain ⟨-, -, -, -, hstart, -⟩ := fields_of_ofLayout h
    exact hstart
  | plane p => rfl

/-- The rows of a whole buffer end in it if they have pixels. -/
theorem Whole.hasRows (h : root.Whole) (hwidth : 0 < root.width) : root.HasRows := by
  cases h with
  | layout h => exact hasRows_of_width (channels_pos_of_ofLayout h) hwidth
  | plane p =>
    -- the buffer of a plane has the padding of the last row too
    intro y hy
    have hrow : p.width * p.channels ≤ p.stride := p.row_le_stride
    have hrows : (y + 1) * p.stride ≤ p.height * p.stride := Nat.mul_le_mul_right _ hy
    rw [Nat.add_one_mul, Nat.mul_comm p.height] at hrows
    change y * p.stride + p.width * p.channels ≤ p.stride * p.height
    omega

/-- A rectangle that is cut out is no wider than the window, so pixels come from pixels. -/
theorem width_pos_of_crops {chain : List Rectangle} (h : root.crops chain = .ok w) (hwidth : 0 < w.width) :
    0 < root.width := by
  obtain ⟨⟨hright, -⟩, -⟩ := part_eq_ok_iff.1 (crop_of_crops h)
  dsimp only at hright
  omega

/-- The rows of a window of pixels that was cut out of a whole buffer are all there. -/
theorem IsCut.hasRows (h : w.IsCut) (hwidth : 0 < w.width) : w.HasRows := by
  obtain ⟨root, chain, hroot, hcrops⟩ := h
  exact (partOf_of_crops hcrops).hasRows (hroot.hasRows (width_pos_of_crops hcrops hwidth))

/-- A chain of rectangles with pixels ends with one. -/
theorem width_pos_of_hasPixels {chain : List Rectangle} (h : root.crops chain = .ok w) (hwidth : 0 < root.width)
    (hpixels : ∀ r ∈ chain, r.HasPixels) : 0 < w.width := by
  induction chain generalizing root with
  | nil =>
    cases h
    exact hwidth
  | cons r chain ih =>
    obtain ⟨next, hnext, hchain⟩ := crops_cons_eq_ok_iff.1 h
    obtain ⟨-, hnextWidth, -⟩ := part_eq_ok_iff.1 hnext
    have hr := hpixels r (List.mem_cons_self ..)
    exact ih hchain (hnextWidth ▸ hr.1) fun r' hr' => hpixels r' (List.mem_cons_of_mem _ hr')

/-! ## §2 Edits and their pictures -/

/-- What is written through a window. -/
inductive Edit (α : Type) where
  | sample (x y c : Nat) (value : α)
  /-- Values for the first samples of a row. -/
  | row (y : Nat) (values : List α)
  | fill (value : α)
  /-- The samples of a window of the same shape. -/
  | copy {size' : Nat} (source : Window size') (sourceBuffer : Vector α size')

/-- The buffer after an edit. One that is refused, or meets a fault, leaves it as it was. -/
def edit (w : Window size) (buffer : Vector α size) : Edit α → Vector α size
  | .sample x y c value => ((w.set? buffer x y c value).map Prod.snd).getD buffer
  | .row y values => (w.setRow buffer y values).toOption.getD buffer
  | .fill value => (w.fill buffer value).toOption.getD buffer
  | .copy source sourceBuffer =>
    match w.copyFrom buffer source sourceBuffer with
    | .ok (.ok after) => after
    | _ => buffer

/-- The buffer after a run of edits. -/
def edits (w : Window size) (buffer : Vector α size) (run : List (Edit α)) : Vector α size :=
  run.foldl w.edit buffer

/-- What an edit writes, by pixels and channels of the window. -/
def Edit.picture (w : Window size) : Edit α → Nat → Nat → Nat → Option α
  | sample x y c value => fun x' y' c' => if x' = x ∧ y' = y ∧ c' = c then some value else none
  | row y values => fun x y' c => if y' = y then values[x * w.channels + c]? else none
  | fill value => fun _ _ _ => some value
  | copy source sourceBuffer => fun x y c =>
    if w.SameShape source ∧ source.checkRows.isOk then source.get? sourceBuffer x y c else none

/-! ## §3 What an edit leaves -/

/-- Nothing is drawn by a picture that has nothing in the window. -/
theorem draws_nil {picture : Nat → Nat → Nat → Option α}
    (h : ∀ x y c, w.Contains x y c → picture x y c = none) : w.Draws picture [] := by
  intro write
  refine iff_of_false List.not_mem_nil ?_
  rintro ⟨x, y, c, v, hin, hv, -⟩
  rw [h x y c hin] at hv
  cases hv

/-- A single sample is drawn by a single write. -/
theorem draws_sample {x y c : Nat} (hin : w.Contains x y c) (value : α) :
    w.Draws ((Edit.sample x y c value).picture w) [(w.position x y c, value)] := by
  intro write
  rw [List.mem_singleton]
  constructor
  · rintro rfl
    exact ⟨x, y, c, value, hin, if_pos ⟨rfl, rfl, rfl⟩, rfl⟩
  · rintro ⟨x', y', c', v, -, hv, rfl⟩
    obtain ⟨⟨rfl, rfl, rfl⟩, hvalue⟩ := Option.ite_none_right_eq_some.1 hv
    rw [Option.some.inj hvalue]

/-- A window with all rows writes a row of its own. -/
theorem HasRows.setRow_eq (hrows : w.HasRows) (buffer : Vector α size) {y : Nat} (hy : y < w.height)
    (values : List α) : w.setRow buffer y values = .ok (w.edit buffer (.row y values)) := by
  simp only [edit, setRow_of_checkRow (hrows.checkRow hy)]
  rfl

/-- A window with all rows is filled. -/
theorem HasRows.fill_eq (hrows : w.HasRows) (buffer : Vector α size) (value : α) :
    w.fill buffer value = .ok (w.edit buffer (.fill value)) := by
  simp only [edit, fill, hrows.checkRows]
  rfl

/-- A window with all rows takes the samples of another one of its shape. -/
theorem HasRows.copyFrom_eq (hrows : w.HasRows) (hsource : source.HasRows) (hshape : w.SameShape source)
    (buffer : Vector α size) (sourceBuffer : Vector α size') :
    w.copyFrom buffer source sourceBuffer = .ok (.ok (w.edit buffer (.copy source sourceBuffer))) := by
  simp only [edit, copyFrom, if_pos hshape, hrows.checkRows, hsource.checkRows]
  rfl

/-- A copy that is made is one of the same shape, from a window whose rows are all there. -/
theorem sameShape_of_copyFrom {after : Vector α size} {sourceBuffer : Vector α size'}
    (h : w.copyFrom buffer source sourceBuffer = .ok (.ok after)) : w.SameShape source ∧ source.HasRows := by
  by_cases hshape : w.SameShape source
  · rw [copyFrom, if_pos hshape] at h
    obtain ⟨-, -, h⟩ := bind_eq_ok_iff.1 h
    obtain ⟨_, hcheck, -⟩ := bind_eq_ok_iff.1 h
    exact ⟨hshape, hasRows_of_checkRows hcheck⟩
  · rw [copyFrom, if_neg hshape] at h
    cases h

/-- Only another shape is refused. -/
theorem exists_refusal_iff {sourceBuffer : Vector α size'} :
    (∃ reason, w.copyFrom buffer source sourceBuffer = .ok (.error reason)) ↔ ¬ w.SameShape source := by
  by_cases hshape : w.SameShape source
  · refine iff_of_false ?_ (not_not_intro hshape)
    rintro ⟨reason, h⟩
    rw [copyFrom, if_pos hshape] at h
    obtain ⟨-, -, h⟩ := bind_eq_ok_iff.1 h
    obtain ⟨-, -, h⟩ := bind_eq_ok_iff.1 h
    cases h
  · exact iff_of_true ⟨_, if_neg hshape⟩ hshape

/-- What is copied is what the source shows. -/
theorem picture_copy (hshape : w.SameShape source) (hcheck : source.checkRows = .ok ())
    (sourceBuffer : Vector α size') :
    (Edit.copy source sourceBuffer).picture w = source.get? sourceBuffer := by
  funext x y c
  exact if_pos ⟨hshape, by rw [hcheck]; rfl⟩

/-- Every edit of a window with all rows draws its picture. -/
theorem HasRows.exists_draws (hrows : w.HasRows) (buffer : Vector α size) (e : Edit α) :
    ∃ writes, w.edit buffer e = writeAll buffer writes ∧ w.Draws (e.picture w) writes := by
  cases e with
  | sample x y c value =>
    by_cases hin : w.Contains x y c
    · refine ⟨_, ?_, draws_sample hin value⟩
      simp only [edit, set?, get?_of_contains hin]
      rfl
    · refine ⟨[], ?_, draws_nil fun x' y' c' hin' => if_neg ?_⟩
      · simp only [edit, set?, get?_of_not_contains hin]
        rfl
      · -- the picture is of the sample that the window does not have
        rintro ⟨rfl, rfl, rfl⟩
        exact hin hin'
  | row y values =>
    by_cases hy : y < w.height
    · refine ⟨_, ?_, draws_writesOfRow hy values⟩
      simp only [edit, setRow_of_checkRow (hrows.checkRow hy)]
      exact overwrite_eq_writeAll ..
    · refine ⟨[], ?_, draws_nil fun x' y' c' hin => if_neg ?_⟩
      · have hcheck : w.checkRow y = .error .rowOutOfRange := if_pos (Nat.le_of_not_lt hy)
        simp only [edit, setRow, hcheck]
        rfl
      · rintro rfl
        exact hy hin.2.1
  | fill value =>
    refine ⟨w.rowWrites fun _ => List.replicate w.rowLength value, ?_, draws_rowWrites fun x y c hin => ?_⟩
    · simp only [edit, fill, hrows.checkRows]
      exact putRows_eq_writeAll ..
    · exact List.getElem?_replicate_of_lt hin.column_lt
  | copy source sourceBuffer =>
    by_cases hshape : w.SameShape source
    · cases hcheck : source.checkRows with
      | ok =>
        rw [picture_copy hshape hcheck]
        refine ⟨_, ?_, draws_rowWrites_rowSamples hshape sourceBuffer⟩
        simp only [edit, copyFrom, if_pos hshape, hrows.checkRows, hcheck]
        exact putRows_eq_writeAll ..
      | error fault =>
        -- the source misses a row, so nothing is written
        refine ⟨[], ?_, draws_nil fun x y c hin => if_neg ?_⟩
        · simp only [edit, copyFrom, if_pos hshape, hrows.checkRows, hcheck]
          rfl
        · rintro ⟨-, hok⟩
          rw [hcheck] at hok
          cases hok
    · refine ⟨[], ?_, draws_nil fun x y c hin => if_neg fun h => hshape h.1⟩
      simp only [edit, copyFrom, if_neg hshape]
      rfl

/-- After an edit the window reads as its picture, and as before where that has nothing. -/
theorem HasRows.get?_edit (hrows : w.HasRows) (buffer : Vector α size) (e : Edit α) (x y c : Nat) :
    w.get? (w.edit buffer e) x y c = (w.get? buffer x y c).map fun old => (e.picture w x y c).getD old := by
  obtain ⟨writes, hedit, hdraws⟩ := hrows.exists_draws buffer e
  rw [hedit, hdraws.get?_writeAll]

/-- After a copy every row of the window is that of the source. -/
theorem HasRows.rowSamples_copy (hrows : w.HasRows) (hsource : source.HasRows) (hshape : w.SameShape source)
    (buffer : Vector α size) (sourceBuffer : Vector α size') {y : Nat} (hy : y < w.height) :
    w.rowSamples (w.edit buffer (.copy source sourceBuffer)) y = source.rowSamples sourceBuffer y := by
  have hget : ∀ x y c, (w.get? (w.edit buffer (.copy source sourceBuffer)) x y c).map id =
      (source.get? sourceBuffer x y c).map id := by
    intro x y c
    rw [hrows.get?_edit, picture_copy hshape hsource.checkRows]
    by_cases hin : w.Contains x y c
    · rw [get?_of_contains hin, get?_of_contains (hshape.contains_iff.2 hin)]
      rfl
    · rw [get?_of_not_contains hin, get?_of_not_contains (mt hshape.contains_iff.1 hin)]
      rfl
  have hrow := rowSamples_map_congr hshape hget hy
  rwa [Array.map_id, Array.map_id] at hrow

/-- Every place of the buffer that is not one of a sample of the window holds in one buffer what it holds in the
other. -/
def AgreesOutside (w : Window size) (buffer buffer' : Vector α size) : Prop :=
  ∀ (i : Nat) (hi : i < size), (∀ x y c, w.Contains x y c → i ≠ w.position x y c) → buffer'[i] = buffer[i]

/-- An edit changes samples of the window only. -/
theorem HasRows.agreesOutside_edit (hrows : w.HasRows) (buffer : Vector α size) (e : Edit α) :
    w.AgreesOutside buffer (w.edit buffer e) := by
  intro i hi hne
  obtain ⟨writes, hedit, hdraws⟩ := hrows.exists_draws buffer e
  simp only [hedit]
  exact hdraws.getElem_writeAll_of_ne buffer hi fun x y c hin _ => hne x y c hin

/-- A run of edits changes samples of the window only. -/
theorem HasRows.agreesOutside_edits (hrows : w.HasRows) (buffer : Vector α size) (run : List (Edit α)) :
    w.AgreesOutside buffer (w.edits buffer run) := by
  induction run generalizing buffer with
  | nil => exact fun i hi hne => rfl
  | cons e run ih =>
    intro i hi hne
    exact (ih (w.edit buffer e) i hi hne).trans (hrows.agreesOutside_edit buffer e i hi hne)

/-! ## §4 Edits of one window -/

/-- What becomes of the edits of a window whose samples are those of a buffer from pixel `(left, top)` on, where the
rows of the buffer follow each other every `stride` samples. -/
structure EditsFrom (w : Window size) (buffer : Vector α size) (channels stride left top : Nat) : Prop where
  /-- Whatever a run of edits writes, the rest of the buffer stays. -/
  outside : ∀ (run : List (Edit α)) (i : Nat) (hi : i < size),
    (∀ x y c, x < w.width → y < w.height → c < channels → i ≠ (top + y) * stride + (left + x) * channels + c) →
      (w.edits buffer run)[i] = buffer[i]
  /-- A sample of the window is written, and no other one. -/
  sample : ∀ x y c value, w.set? buffer x y c value =
    (w.get? buffer x y c).map fun old => (old, w.edit buffer (.sample x y c value))
  /-- Every row of the window is written. -/
  row : ∀ {y}, y < w.height → ∀ values, w.setRow buffer y values = .ok (w.edit buffer (.row y values))
  /-- What was written is read, and elsewhere in the window what was there. -/
  get : ∀ (e : Edit α) (x y c : Nat), w.get? (w.edit buffer e) x y c =
    (w.get? buffer x y c).map fun old => (e.picture w x y c).getD old
  fill : ∀ value, w.fill buffer value = .ok (w.edit buffer (.fill value)) ∧
    ∀ x y c, w.Contains x y c → w.get? (w.edit buffer (.fill value)) x y c = some value
  /-- After a copy every row is that of the source, whatever the strides of both. -/
  copy : ∀ {size' : Nat} {source : Window size'} (sourceBuffer : Vector α size') {after : Vector α size},
    w.copyFrom buffer source sourceBuffer = .ok (.ok after) →
      after = w.edit buffer (.copy source sourceBuffer) ∧
      ∀ y < w.height, ∃ samples, w.row after y = .ok samples ∧ source.row sourceBuffer y = .ok samples
  /-- A window of the same shape is copied, where one without channels has to be cut out of a whole buffer. -/
  copied : ∀ {size' : Nat} {source : Window size'} (sourceBuffer : Vector α size'),
    source.IsCut ∨ 0 < source.channels → w.SameShape source →
    ∃ after, w.copyFrom buffer source sourceBuffer = .ok (.ok after)
  /-- A source is refused exactly if it has another shape, and then nothing is written. -/
  refused : ∀ {size' : Nat} {source : Window size'} (sourceBuffer : Vector α size'),
    ((∃ reason, w.copyFrom buffer source sourceBuffer = .ok (.error reason)) ↔ ¬ w.SameShape source) ∧
    (¬ w.SameShape source → w.copyFrom buffer source sourceBuffer = .ok (.error (.sizeMismatch
        (w.width * w.channels * w.height) (source.width * source.channels * source.height))) ∧
      w.edit buffer (.copy source sourceBuffer) = buffer)

/-- Edits stay within a window of pixels that was cut out of a whole buffer. Those of a single sample, of a row and of
all samples are answered, a copy is if the source has the same sides and channels, and what was written is read
afterwards. Whatever they do, every other sample of the buffer keeps its value. -/
theorem editsFrom_of_crops (hroot : root.Whole) (hwidth : 0 < root.width) {chain : List Rectangle}
    (hpixels : ∀ r ∈ chain, r.HasPixels) (hw : root.crops chain = .ok w) (buffer : Vector α size) :
    w.EditsFrom buffer root.channels root.stride (Rectangle.left chain) (Rectangle.top chain) := by
  have hpos := width_pos_of_hasPixels hw hwidth hpixels
  have hrows : w.HasRows := (partOf_of_crops hw).hasRows (hroot.hasRows hwidth)
  have hposition := position_of_crop hroot.start_eq (crop_of_crops hw)
  have hchannels : w.channels = root.channels := (partOf_of_crops hw).channels_eq
  exact {
    outside := fun run i hi hne => by
      refine hrows.agreesOutside_edits buffer run i hi fun x y c hin => ?_
      rw [hposition]
      exact hne x y c hin.1 hin.2.1 (hchannels ▸ hin.2.2)
    sample := fun x y c value => by
      simp only [edit, set?]
      cases w.get? buffer x y c <;> rfl
    row := fun hy values => hrows.setRow_eq buffer hy values
    get := hrows.get?_edit buffer
    fill := fun value => ⟨hrows.fill_eq buffer value, fun x y c hin => by
      rw [hrows.get?_edit, get?_of_contains hin]
      rfl⟩
    copy := fun {size' source} sourceBuffer {after} hafter => by
      obtain ⟨hshape, hsource⟩ := sameShape_of_copyFrom hafter
      rw [hrows.copyFrom_eq hsource hshape] at hafter
      cases hafter
      refine ⟨rfl, fun y hy => ⟨source.rowSamples sourceBuffer y, ?_, ?_⟩⟩
      · rw [row_of_checkRow (hrows.checkRow hy), hrows.rowSamples_copy hsource hshape buffer sourceBuffer hy]
      · exact row_of_checkRow (hsource.checkRow (hshape.2.1 ▸ hy)) sourceBuffer
    copied := fun {size' source} sourceBuffer hsource hshape => by
      have hsourcePos : 0 < source.width := hshape.1 ▸ hpos
      have hsourceRows : source.HasRows := by
        rcases hsource with hcut | hsourceChannels
        · exact hcut.hasRows hsourcePos
        · exact hasRows_of_width hsourceChannels hsourcePos
      exact ⟨_, hrows.copyFrom_eq hsourceRows hshape buffer sourceBuffer⟩
    refused := fun {size' source} sourceBuffer => ⟨exists_refusal_iff, fun hshape => by
      simp only [edit, copyFrom, if_neg hshape]
      exact ⟨rfl, rfl⟩⟩ }

/-- The last two pixels of three rows of four with two channels. No edit of them reaches the pixel before, and what
fills them is read from the last sample of the buffer. -/
theorem editsFrom_of_crops_corner :
    ∃ root w : Window 28, ofLayout 28 4 3 2 10 = .ok root ∧ root.crops [⟨1, 1, 3, 2⟩, ⟨1, 1, 2, 1⟩] = .ok w ∧
      (∀ run : List (Edit Nat), (w.edits (Vector.range 28) run)[23] = 23) ∧
      w.get? (w.edit (Vector.range 28) (.fill 7)) 1 0 1 = some 7 := by
  obtain ⟨root, hroot⟩ : ∃ root, ofLayout 28 4 3 2 10 = .ok root := ⟨_, rfl⟩
  obtain ⟨w, hw⟩ : ∃ w, root.crops [⟨1, 1, 3, 2⟩, ⟨1, 1, 2, 1⟩] = .ok w := by
    cases hroot
    exact ⟨_, rfl⟩
  obtain ⟨hwidth, -, hchannels, hstride, -, -⟩ := fields_of_ofLayout hroot
  have hedits := editsFrom_of_crops (.layout hroot) (by omega)
    (show ∀ r ∈ [(⟨1, 1, 3, 2⟩ : Rectangle), ⟨1, 1, 2, 1⟩], r.HasPixels by decide) hw (Vector.range 28)
  have hsides : w.width = 2 ∧ w.height = 1 ∧ w.channels = 2 := by
    cases hroot
    cases hw
    exact ⟨rfl, rfl, rfl⟩
  refine ⟨root, w, hroot, hw, fun run => ?_, (hedits.fill 7).2 1 0 1 ?_⟩
  · -- the sample lies in the last row, before the third pixel
    rw [hedits.outside run 23 (by decide)]
    · rfl
    · intro x y c _ _ _
      rw [hchannels, hstride, show Rectangle.top [⟨1, 1, 3, 2⟩, ⟨1, 1, 2, 1⟩] = 2 from rfl,
        show Rectangle.left [⟨1, 1, 3, 2⟩, ⟨1, 1, 2, 1⟩] = 2 from rfl]
      omega
  · unfold Contains
    omega

end Resample.Window
