import Resample.Grid.Window

/-!
# Writes into a buffer

Whatever changes a window writes values to positions of its buffer, one after another. A list of such
writes *draws* a picture into a window if it writes the value of every channel of every pixel that the
picture has, and nothing else. The order of the writes is then of no account: what is read afterwards
is the picture, and what was there before wherever the picture has nothing.

## Contents

- §1 lists of writes, §2 positions, §3 drawing, §4 rows, §5 copies
-/

namespace Resample

variable {α β : Type} {size : Nat}

/-! ## §1 Lists of writes -/

/-- The buffer after values were written to positions, one after another. -/
def writeAll (buffer : Vector α size) (writes : List (Nat × α)) : Vector α size :=
  writes.foldl (fun buffer write => buffer.setIfInBounds write.1 write.2) buffer

theorem writeAll_cons (buffer : Vector α size) (write : Nat × α) (rest : List (Nat × α)) :
    writeAll buffer (write :: rest) = writeAll (buffer.setIfInBounds write.1 write.2) rest := rfl

/-- Lists of writes that follow each other are one list of writes. -/
theorem writeAll_flatMap (buffer : Vector α size) (items : List β) (writes : β → List (Nat × α)) :
    writeAll buffer (items.flatMap writes) =
      items.foldl (fun buffer item => writeAll buffer (writes item)) buffer := by
  unfold writeAll
  exact List.foldl_flatMap

/-- A position that no write names keeps its value. -/
theorem getElem_writeAll_of_forall_ne (buffer : Vector α size) {writes : List (Nat × α)} {i : Nat}
    (hi : i < size) (hne : ∀ write ∈ writes, write.1 ≠ i) : (writeAll buffer writes)[i] = buffer[i] := by
  induction writes generalizing buffer with
  | nil => rfl
  | cons write rest ih =>
    rw [writeAll_cons, ih _ fun w hw => hne w (List.mem_cons_of_mem _ hw),
      Vector.getElem_setIfInBounds, if_neg (hne write (List.mem_cons_self ..))]

/-- A position to which one value only is written holds that value. -/
theorem getElem_writeAll_of_mem (buffer : Vector α size) {writes : List (Nat × α)} {i : Nat} {v : α}
    (hi : i < size) (hmem : (i, v) ∈ writes) (hval : ∀ u, (i, u) ∈ writes → u = v) :
    (writeAll buffer writes)[i] = v := by
  induction writes generalizing buffer with
  | nil => exact absurd hmem (by simp)
  | cons write rest ih =>
    rw [writeAll_cons]
    by_cases hrest : (i, v) ∈ rest
    · exact ih _ hrest fun u hu => hval u (List.mem_cons_of_mem _ hu)
    · -- the value is written here, and nothing is written to the position later on
      have hwrite : write = (i, v) := ((List.mem_cons.1 hmem).resolve_right hrest).symm
      have hne : ∀ w ∈ rest, w.1 ≠ i := by
        rintro ⟨j, u⟩ hw rfl
        exact hrest (hval u (List.mem_cons_of_mem _ hw) ▸ hw)
      rw [getElem_writeAll_of_forall_ne _ hi hne, Vector.getElem_setIfInBounds, hwrite, if_pos rfl]

/-- Lists of the same writes give the same buffer in any order, if each position is written with one value
only. -/
theorem writeAll_eq_of_mem_iff (buffer : Vector α size) {writes writes' : List (Nat × α)}
    (hmem : ∀ write, write ∈ writes' ↔ write ∈ writes)
    (hvalue : ∀ {i u v}, (i, u) ∈ writes → (i, v) ∈ writes → u = v) :
    writeAll buffer writes' = writeAll buffer writes := by
  apply Vector.ext
  intro i hi
  by_cases hwritten : ∃ v, (i, v) ∈ writes
  · obtain ⟨v, hv⟩ := hwritten
    rw [getElem_writeAll_of_mem buffer hi hv fun u hu => hvalue hu hv]
    exact getElem_writeAll_of_mem buffer hi ((hmem _).2 hv) fun u hu => hvalue ((hmem _).1 hu) hv
  · have hne : ∀ write ∈ writes, write.1 ≠ i := by
      rintro ⟨j, v⟩ hwrite rfl
      exact hwritten ⟨v, hwrite⟩
    rw [getElem_writeAll_of_forall_ne buffer hi hne]
    exact getElem_writeAll_of_forall_ne buffer hi fun write hwrite => hne write ((hmem _).1 hwrite)

/-! ## §2 Positions -/

/-- Helper: a position in rows of `n` determines the row and the place in it. -/
private theorem eq_of_mul_add_eq {n a b a' b' : Nat} (hb : b < n) (hb' : b' < n)
    (h : a * n + b = a' * n + b') : a = a' ∧ b = b' := by
  -- the rest of a division by `n` is the place, and then the rows are equal too
  have hplace : b = b' := by
    have hmod : (a * n + b) % n = (a' * n + b') % n := by rw [h]
    rwa [Nat.mul_add_mod', Nat.mul_add_mod', Nat.mod_eq_of_lt hb, Nat.mod_eq_of_lt hb'] at hmod
  refine ⟨Nat.eq_of_mul_eq_mul_right (Nat.lt_of_le_of_lt (Nat.zero_le b) hb) ?_, hplace⟩
  omega

namespace Window

/-- The position of a sample, from the begin of its row. -/
theorem position_eq (w : Window size) (x y c : Nat) :
    w.position x y c = w.start + y * w.stride + (x * w.channels + c) := by
  unfold position
  omega

/-- What a row contains lies before its end. -/
theorem Contains.column_lt {w : Window size} {x y c : Nat} (h : w.Contains x y c) :
    x * w.channels + c < w.rowLength := by
  obtain ⟨hx, -, hc⟩ := h
  unfold rowLength
  calc x * w.channels + c < x * w.channels + w.channels := by omega
    _ = (x + 1) * w.channels := (Nat.add_one_mul ..).symm
    _ ≤ w.width * w.channels := Nat.mul_le_mul_right _ hx

/-- Different channels of different pixels lie at different positions. -/
theorem Contains.eq_of_position_eq {w : Window size} {x y c x' y' c' : Nat} (h : w.Contains x y c)
    (h' : w.Contains x' y' c') (heq : w.position x y c = w.position x' y' c') :
    x = x' ∧ y = y' ∧ c = c' := by
  have hrow : w.rowLength ≤ w.stride := w.row_le_stride
  have hcolumn := h.column_lt
  have hcolumn' := h'.column_lt
  unfold position at heq
  have hoffset : y * w.stride + (x * w.channels + c) = y' * w.stride + (x' * w.channels + c') := by
    omega
  obtain ⟨hy, hrest⟩ := eq_of_mul_add_eq (by omega) (by omega) hoffset
  obtain ⟨hx, hc⟩ := eq_of_mul_add_eq h.2.2 h'.2.2 hrest
  exact ⟨hx, hy, hc⟩

theorem get?_of_not_contains {w : Window size} {x y c : Nat} (h : ¬ w.Contains x y c)
    (buffer : Vector α size) : w.get? buffer x y c = none := dif_neg h

theorem get?_of_contains {w : Window size} {x y c : Nat} (h : w.Contains x y c)
    (buffer : Vector α size) : w.get? buffer x y c = some (getElem buffer (w.position x y c) h.position_lt) :=
  dif_pos h

theorem contains_of_get?_eq_some {w : Window size} {buffer : Vector α size} {x y c : Nat} {v : α}
    (h : w.get? buffer x y c = some v) : w.Contains x y c := by
  refine Decidable.byContradiction fun hnot => ?_
  rw [get?_of_not_contains hnot] at h
  cases h

theorem isSome_get?_iff {w : Window size} {buffer : Vector α size} {x y c : Nat} :
    (w.get? buffer x y c).isSome ↔ w.Contains x y c := by
  unfold get?
  split <;> simp_all

/-! ## §3 Drawing -/

/-- A list of writes draws a picture into a window: it writes the value of every channel of every pixel
of the window that the picture has, and nothing else. -/
def Draws (w : Window size) (picture : Nat → Nat → Nat → Option α) (writes : List (Nat × α)) : Prop :=
  ∀ write, write ∈ writes ↔
    ∃ x y c v, w.Contains x y c ∧ picture x y c = some v ∧ write = (w.position x y c, v)

section Drawing

variable {w : Window size} {picture : Nat → Nat → Nat → Option α} {writes : List (Nat × α)}

/-- A position is written with one value only, however often. -/
theorem Draws.value_unique (h : w.Draws picture writes) {i : Nat} {u v : α} (hu : (i, u) ∈ writes)
    (hv : (i, v) ∈ writes) : u = v := by
  obtain ⟨x, y, c, u', hin, hvalue, heq⟩ := (h _).1 hu
  obtain ⟨x', y', c', v', hin', hvalue', heq'⟩ := (h _).1 hv
  obtain ⟨rfl, rfl⟩ := Prod.mk.inj heq
  obtain ⟨hposition, rfl⟩ := Prod.mk.inj heq'
  -- a write to the same position is one of the same sample
  obtain ⟨rfl, rfl, rfl⟩ := hin.eq_of_position_eq hin' hposition
  exact Option.some.inj (hvalue.symm.trans hvalue')

/-- After drawing, the place of a sample that the picture has holds that sample. -/
theorem Draws.getElem_writeAll (h : w.Draws picture writes) (buffer : Vector α size) {x y c : Nat} {v : α}
    (hin : w.Contains x y c) (hv : picture x y c = some v) :
    getElem (writeAll buffer writes) (w.position x y c) hin.position_lt = v := by
  have hmem : (w.position x y c, v) ∈ writes := (h _).2 ⟨x, y, c, v, hin, hv, rfl⟩
  exact getElem_writeAll_of_mem _ _ hmem fun u hu => h.value_unique hu hmem

/-- After drawing, every other place holds what it held before. -/
theorem Draws.getElem_writeAll_of_ne (h : w.Draws picture writes) (buffer : Vector α size) {i : Nat}
    (hi : i < size)
    (hne : ∀ x y c, w.Contains x y c → (picture x y c).isSome → i ≠ w.position x y c) :
    (writeAll buffer writes)[i] = buffer[i] := by
  refine getElem_writeAll_of_forall_ne _ hi fun write hwrite => ?_
  obtain ⟨x, y, c, v, hin, hv, rfl⟩ := (h _).1 hwrite
  exact (hne x y c hin (Option.isSome_of_mem hv)).symm

/-- After drawing, the picture is read where it has something, and elsewhere what was there before. -/
theorem Draws.get?_writeAll (h : w.Draws picture writes) (buffer : Vector α size) (x y c : Nat) :
    w.get? (writeAll buffer writes) x y c =
      (w.get? buffer x y c).map fun old => (picture x y c).getD old := by
  by_cases hin : w.Contains x y c
  · rw [get?_of_contains hin, get?_of_contains hin, Option.map_some]
    congr 1
    cases hvalue : picture x y c with
    | some v => exact h.getElem_writeAll buffer hin hvalue
    | none =>
      -- the picture does not have this sample, and every other sample is in another place
      refine h.getElem_writeAll_of_ne buffer hin.position_lt fun x' y' c' hin' hsome hposition => ?_
      obtain ⟨rfl, rfl, rfl⟩ := hin.eq_of_position_eq hin' hposition
      rw [hvalue] at hsome
      exact absurd hsome (by simp)
  · rw [get?_of_not_contains hin, get?_of_not_contains hin, Option.map_none]

end Drawing

/-! ## §4 Rows -/

/-- A sample of a row belongs to a channel of a pixel. -/
theorem exists_column {w : Window size} {j : Nat} (hj : j < w.rowLength) :
    ∃ x c, x < w.width ∧ c < w.channels ∧ j = x * w.channels + c := by
  unfold rowLength at hj
  have hpos : 0 < w.channels := Nat.pos_of_ne_zero fun h => by rw [h] at hj; omega
  refine ⟨j / w.channels, j % w.channels, ?_, Nat.mod_lt _ hpos, ?_⟩
  · exact (Nat.div_lt_iff_lt_mul hpos).2 hj
  · rw [Nat.mul_comm, Nat.div_add_mod]

/-- The samples of a row are the channels of its pixels, one pixel after another. -/
theorem getElem?_rowSamples {w : Window size} {buffer : Vector α size} {x y c : Nat}
    (hy : y < w.height) (hc : c < w.channels) :
    (w.rowSamples buffer y)[x * w.channels + c]? = w.get? buffer x y c := by
  unfold rowSamples
  by_cases hx : x < w.width
  · have hin : w.Contains x y c := ⟨hx, hy, hc⟩
    have hcolumn := hin.column_lt
    have hposition := hin.position_lt
    have hindex := (w.position_eq x y c).symm
    have hsize : w.start + y * w.stride + (x * w.channels + c) < buffer.toArray.size := by
      simpa [hindex] using hposition
    rw [Array.getElem?_extract, if_pos (by omega), get?_of_contains hin]
    simp [hindex, hposition]
  · -- a pixel beyond the width lies beyond the end of the row
    have hbeyond : w.rowLength ≤ x * w.channels + c :=
      Nat.le_trans (Nat.mul_le_mul_right _ (Nat.le_of_not_lt hx)) (Nat.le_add_right ..)
    rw [get?_of_not_contains fun h => hx h.1, Array.getElem?_extract, if_neg (by omega)]

/-- A row has no samples beyond those of its pixels. -/
theorem getElem?_rowSamples_of_le {w : Window size} (buffer : Vector α size) (y : Nat) {j : Nat}
    (hj : w.rowLength ≤ j) : (w.rowSamples buffer y)[j]? = none := by
  unfold rowSamples
  rw [Array.getElem?_extract, if_neg (by omega)]

theorem SameShape.rowLength_eq {size' : Nat} {w : Window size} {w' : Window size'}
    (h : w.SameShape w') : w'.rowLength = w.rowLength := by
  unfold rowLength
  rw [h.1, h.2.2]

/-- Windows of one shape that read alike have alike rows. -/
theorem rowSamples_map_congr {size' : Nat} {γ : Type} {w : Window size} {w' : Window size'}
    {buffer : Vector α size} {buffer' : Vector β size'} {f : α → γ} {g : β → γ} (hshape : w.SameShape w')
    (hget : ∀ x y c, (w.get? buffer x y c).map f = (w'.get? buffer' x y c).map g) {y : Nat}
    (hy : y < w.height) : (w.rowSamples buffer y).map f = (w'.rowSamples buffer' y).map g := by
  apply Array.ext_getElem?
  intro j
  rw [Array.getElem?_map, Array.getElem?_map]
  by_cases hj : j < w.rowLength
  · obtain ⟨x, c, -, hc, rfl⟩ := exists_column hj
    have hright : (w'.rowSamples buffer' y)[x * w'.channels + c]? = w'.get? buffer' x y c :=
      getElem?_rowSamples (hshape.2.1 ▸ hy) (hshape.2.2 ▸ hc)
    rw [hshape.2.2] at hright
    rw [getElem?_rowSamples hy hc, hright]
    exact hget x y c
  · rw [getElem?_rowSamples_of_le _ _ (by omega), getElem?_rowSamples_of_le _ _
      (by rw [hshape.rowLength_eq]; omega)]
    rfl

/-- Windows of one shape that read alike have alike samples altogether. -/
theorem samples_map_congr {size' : Nat} {γ : Type} {w : Window size} {w' : Window size'}
    {buffer : Vector α size} {buffer' : Vector β size'} {f : α → γ} {g : β → γ} (hshape : w.SameShape w')
    (hget : ∀ x y c, (w.get? buffer x y c).map f = (w'.get? buffer' x y c).map g) :
    (w.samples buffer).map f = (w'.samples buffer').map g := by
  unfold samples
  rw [Array.map_flatMap, Array.map_flatMap, hshape.2.1]
  apply Array.toList_inj.1
  simp only [Array.toList_flatMap, Array.toList_range]
  rw [List.flatMap_def, List.flatMap_def]
  congr 1
  exact List.map_congr_left fun y hy => by rw [rowSamples_map_congr hshape hget (List.mem_range.1 hy)]

/-! ## §5 Copies -/

/-- Values written over the buffer from a position on, as a list of writes. -/
theorem overwrite_eq_writeAll (buffer : Vector α size) (first : Nat) (values : List α) :
    overwrite buffer first values = writeAll buffer ((values.zipIdx first).map Prod.swap) := by
  induction values generalizing buffer first with
  | nil => rfl
  | cons v rest ih => rw [overwrite, ih, List.zipIdx_cons, List.map_cons, writeAll_cons]; rfl

/-- The writes that put given values into row `y` of a window. -/
def writesOfRow (w : Window size) (y : Nat) (values : List α) : List (Nat × α) :=
  ((values.take w.rowLength).zipIdx (w.start + y * w.stride)).map Prod.swap

/-- A write of a row puts one of its values to the place of a sample. -/
theorem mem_writesOfRow_iff {w : Window size} {y : Nat} (hy : y < w.height) {values : List α} {i : Nat} {v : α} :
    (i, v) ∈ w.writesOfRow y values ↔
      ∃ x c, w.Contains x y c ∧ values[x * w.channels + c]? = some v ∧ i = w.position x y c := by
  simp only [writesOfRow, List.mem_map, Prod.exists, Prod.swap_prod_mk, Prod.mk.injEq,
    List.mk_mem_zipIdx_iff_le_and_getElem?_sub, List.getElem?_take]
  constructor
  · rintro ⟨u, k, ⟨hk, hu⟩, rfl, rfl⟩
    split at hu
    · next hlt =>
      obtain ⟨x, c, hx, hc, hcolumn⟩ := exists_column hlt
      refine ⟨x, c, ⟨hx, hy, hc⟩, hcolumn ▸ hu, ?_⟩
      rw [position_eq]
      omega
    · exact absurd hu (by simp)
  · rintro ⟨x, c, hin, hv, rfl⟩
    refine ⟨v, _, ⟨?_, ?_⟩, rfl, rfl⟩
    · rw [position_eq]
      omega
    · rw [position_eq, Nat.add_sub_cancel_left, if_pos hin.column_lt, hv]

/-- The writes that put given values into the rows of a window. -/
def rowWrites (w : Window size) (values : Nat → List α) : List (Nat × α) :=
  (List.range w.height).flatMap fun y =>
    (((values y).take w.rowLength).zipIdx (w.start + y * w.stride)).map Prod.swap

theorem putRows_eq_writeAll (w : Window size) (buffer : Vector α size) (values : Nat → List α) :
    w.putRows buffer values = writeAll buffer (w.rowWrites values) := by
  unfold putRows rowWrites putRow
  rw [writeAll_flatMap]
  simp only [overwrite_eq_writeAll]

/-- A write of the rows is a write of one of them. -/
theorem mem_rowWrites_iff {w : Window size} {values : Nat → List α} {write : Nat × α} :
    write ∈ w.rowWrites values ↔ ∃ y < w.height, write ∈ w.writesOfRow y (values y) := by
  simp only [rowWrites, writesOfRow, List.mem_flatMap, List.mem_range]

/-- Values for a row draw what they are at the places of the row, if it is one of the window. -/
theorem draws_writesOfRow {w : Window size} {y : Nat} (hy : y < w.height) (values : List α) :
    w.Draws (fun x y' c => if y' = y then values[x * w.channels + c]? else none) (w.writesOfRow y values) := by
  rintro ⟨i, v⟩
  rw [mem_writesOfRow_iff hy]
  constructor
  · rintro ⟨x, c, hin, hv, rfl⟩
    exact ⟨x, y, c, v, hin, (if_pos rfl).trans hv, rfl⟩
  · rintro ⟨x, y', c, u, hin, hv, heq⟩
    obtain ⟨rfl, rfl⟩ := Prod.mk.inj heq
    dsimp only at hv
    split at hv
    · next hrow => exact ⟨x, c, hrow ▸ hin, hv, by rw [hrow]⟩
    · cases hv

/-- Values for all rows draw what they are at the places of the rows. -/
theorem draws_rowWrites {w : Window size} {values : Nat → List α} {picture : Nat → Nat → Nat → Option α}
    (hvalue : ∀ x y c, w.Contains x y c → (values y)[x * w.channels + c]? = picture x y c) :
    w.Draws picture (w.rowWrites values) := by
  rintro ⟨i, v⟩
  rw [mem_rowWrites_iff]
  constructor
  · rintro ⟨y, hy, hwrite⟩
    obtain ⟨x, c, hin, hv, rfl⟩ := (mem_writesOfRow_iff hy).1 hwrite
    exact ⟨x, y, c, v, hin, (hvalue x y c hin).symm.trans hv, rfl⟩
  · rintro ⟨x, y, c, u, hin, hv, heq⟩
    obtain ⟨rfl, rfl⟩ := Prod.mk.inj heq
    exact ⟨y, hin.2.1, (mem_writesOfRow_iff hin.2.1).2 ⟨x, c, hin, (hvalue x y c hin).trans hv, rfl⟩⟩

/-- Copying a window draws what the other window shows. -/
theorem draws_rowWrites_rowSamples {size' : Nat} {w : Window size} {source : Window size'}
    (hshape : w.SameShape source) (sourceBuffer : Vector α size') :
    w.Draws (source.get? sourceBuffer)
      (w.rowWrites fun y => (source.rowSamples sourceBuffer y).toList) := by
  refine draws_rowWrites fun x y c hin => ?_
  rw [Array.getElem?_toList, ← hshape.2.2]
  exact getElem?_rowSamples (hshape.2.1 ▸ hin.2.1) (hshape.2.2 ▸ hin.2.2)

/-- Windows of one shape contain the same samples. -/
theorem SameShape.contains_iff {size' : Nat} {w : Window size} {w' : Window size'} (h : w.SameShape w')
    {x y c : Nat} : w'.Contains x y c ↔ w.Contains x y c := by
  unfold Contains
  rw [h.1, h.2.1, h.2.2]

/-- After a copy between windows of one shape, the one reads like the other. -/
theorem get?_putAll {size' : Nat} {w : Window size} {source : Window size'}
    (hshape : w.SameShape source) (buffer : Vector α size) (sourceBuffer : Vector α size')
    (x y c : Nat) :
    w.get? (w.putAll buffer source sourceBuffer) x y c = source.get? sourceBuffer x y c := by
  unfold putAll
  rw [putRows_eq_writeAll, (draws_rowWrites_rowSamples hshape sourceBuffer).get?_writeAll]
  by_cases hin : w.Contains x y c
  · rw [get?_of_contains hin, get?_of_contains (hshape.contains_iff.2 hin), Option.map_some,
      Option.getD_some]
  · rw [get?_of_not_contains hin, get?_of_not_contains (mt hshape.contains_iff.1 hin), Option.map_none]

end Window

end Resample
