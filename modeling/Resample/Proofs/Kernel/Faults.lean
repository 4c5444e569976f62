import Resample.Kernel.Guarded
import Resample.Proofs.Grid.Bounds
import Resample.Proofs.Grid.Faults
import Resample.Proofs.Kernel.Outcome
import Resample.Proofs.Number.Magnitude

/-!
# Launches without faults

Once a launch has checked its planes and regions, nothing that it computes leaves the words, and no place
that it reads or writes is missing: the axes are shorter than a signed word counts, the coordinates far from
the longest integers, the sums far below 32 bits, and the rows of a region have a slot for each channel of
each pixel. So a launch ends as its checks say, and one that is refused has written nothing.

## Contents

- §1 indices and taps, §2 reads, §3 pixels, §4 rows and bands, §5 launches
-/

namespace Resample

/-! ## §1 Indices and taps -/

/-- An axis that a word counts twice can be looked up at any index. -/
theorem AddressMode.guarded_eq_ok (mode : AddressMode) (i : Int) {len : Nat} (hlen : 2 * len ≤ Word.top) :
    mode.guarded i len = .ok (mode.index? i len) := by
  have hlookup : mode.lookup i len = .ok (mode.index? i len) := if_neg fun h => Nat.not_lt.2 hlen h.2
  -- a period is twice the axis, or what twice the axis leaves of the words if that is less
  have hback : len ≠ 0 → ¬ (mirrorPeriod len = 0 ∨ 2 * len - 1 < (i % mirrorPeriod len).toNat) := by
    intro hne
    have hperiod : mirrorPeriod len ≠ 0 ∧ (mirrorPeriod len).natAbs ≤ 2 * len := by
      unfold Word.top Word.count at hlen
      unfold mirrorPeriod Word.signed Word.count
      rw [Int.bmod_def]
      split <;> omega
    have hlt := Int.emod_lt i hperiod.1
    have hnonneg := Int.emod_nonneg i hperiod.1
    omega
  unfold guarded
  rw [hlookup]
  simp only [bind, Except.bind]
  rw [if_neg fun h => hback h.2.1 h.2.2]
  rfl

namespace Binary

variable {F : Format}

/-- What is not positive has no positive integer part. -/
theorem toInt64_floor_nonpos (n d : Nat) : (ofRatio true n d : Binary F).floor.toInt64 ≤ 0 := by
  have hsaturate : ∀ whole : Nat, Word.saturate (-(whole : Int)) ≤ 0 := fun whole => by
    unfold Word.saturate Word.least Word.greatest
    omega
  unfold ofRatio ofUnits
  split
  · exact hsaturate _
  · exact (by decide : Word.least ≤ 0)

/-- The integer part of a number below a bound is below it. -/
theorem toInt64_floor_lt {units bound : Nat} (hunits : units < bound * F.one) (hbound : 0 < bound) :
    (finite false units : Binary F).floor.toInt64 < bound := by
  have hwhole : units / F.one < bound := (Nat.div_lt_iff_lt_mul F.one_pos).2 hunits
  simp only [floor, toInt64, Bool.false_and, Bool.false_eq_true, if_false, signedUnits]
  rw [Nat.mul_div_cancel _ F.one_pos]
  unfold Word.saturate Word.least Word.greatest
  omega

end Binary

/-- The texels at a coordinate far from the longest integers both have an index. -/
theorem Tap.check_ofCoordinate {u : Single} (hu : u.Below (2 ^ 62)) : (Tap.ofCoordinate u).check = .ok () := by
  suffices hbase : (u - Binary.ofHalves 1 : Single).floor.toInt64 < Word.greatest from
    if_neg (Int.not_le.2 hbase)
  obtain ⟨half, hhalf, hone⟩ : ∃ half, (Binary.ofHalves 1 : Single) = .finite false half ∧
      Binary.Format.single.one = 2 * half := ⟨2 ^ 148, by decide +kernel, by decide +kernel⟩
  have hlimit : 2 ^ 63 * Binary.Format.single.one ≤ Binary.Format.single.limit := by decide +kernel
  cases u with
  | nan => exact hu.elim
  | infinite => exact hu.elim
  | finite negative units =>
    have hunits : units < 2 ^ 62 * Binary.Format.single.one := hu
    rw [hhalf, Binary.sub_eq]
    simp only [Binary.neg, Binary.add, Bool.not_false]
    split
    · cases negative <;> decide +kernel
    · next hsum =>
      rcases Int.lt_or_lt_of_ne hsum with hneg | hpos
      · rw [decide_eq_true hneg]
        exact Int.lt_of_le_of_lt (Binary.toInt64_floor_nonpos _ _) (by decide)
      · -- the coordinate is positive, and half a texel less is at most doubled by rounding
        have hmagnitude : (Binary.signedUnits negative units + Binary.signedUnits true half).natAbs + half ≤
            units := by
          have hminus : Binary.signedUnits true half = -(half : Int) := rfl
          have habs := Binary.natAbs_signedUnits negative units
          omega
        have hround := (Binary.Format.roundRatio_bounds (F := .single) (by decide) Nat.one_pos
          (Int.natAbs_pos.2 hsum)).2
        rw [Nat.div_one] at hround
        have hbelow : Binary.Format.single.roundRatio
            (Binary.signedUnits negative units + Binary.signedUnits true half).natAbs 1 <
              (2 ^ 63 - 1) * Binary.Format.single.one := by omega
        rw [decide_eq_false (by omega)]
        unfold Binary.ofRatio Binary.ofUnits
        rw [if_pos (by omega)]
        exact Binary.toInt64_floor_lt hbelow (by decide)

/-! ## §2 Reads -/

/-- A window of pixels is not wider or higher than its part of the buffer is long. -/
theorem Window.sides_le_length {size : Nat} {w : Window size} (hwidth : 0 < w.width) (hheight : 0 < w.height)
    (hchannels : 0 < w.channels) : w.width ≤ w.length ∧ w.height ≤ w.length := by
  have hrow : w.width ≤ w.rowLength := Nat.le_mul_of_pos_right _ hchannels
  have hstride : w.rowLength ≤ w.stride := w.row_le_stride
  have hlast := (reaches_iff hchannels (y := w.height - 1) (by omega)).1 (.inl hwidth)
  have hrows : w.height - 1 ≤ (w.height - 1) * w.stride := Nat.le_mul_of_pos_right _ (by omega)
  omega

/-- Every read has a value of at most 16 bits. -/
theorem Texture.within_words (t : Texture) (c : Nat) : t.Within c 0 65535 := by
  have htop : t.view.depth.top ≤ 65535 := by cases t.view.depth <;> decide
  intro x y
  exact ⟨Nat.zero_le _, Nat.le_trans (t.within_top c x y).2 htop⟩

/-- The mean of two neighbours has at most the full weight of the greatest value. -/
theorem Texture.mix_le_words (t : Texture) (across : Tap) (y : Int) (c : Nat) :
    across.mix (t.fetch across.base y c) (t.fetch (across.base + 1) y c) ≤ tapOne * 65535 :=
  across.mix_le (t.within_words c _ y).2 (t.within_words c _ y).2

/-- A texture whose reads of `count` channels meet no fault at any index: it has pixels with that many
channels, in a buffer that a signed word counts. -/
structure Texture.Readable (t : Texture) (count : Nat) : Prop where
  width_pos : 0 < t.view.window.width
  height_pos : 0 < t.view.window.height
  count_pos : 0 < count
  count_le : count ≤ t.view.window.channels
  size_le : t.view.size ≤ Word.greatest

namespace Texture.Readable

variable {t : Texture} {count : Nat} (h : t.Readable count)
include h

theorem checkFetch_eq_ok (x y : Int) : t.checkFetch count x y = .ok () := by
  have hcount := h.count_le
  have hcountPos := h.count_pos
  have hsize := h.size_le
  have hlength := t.view.window.start_add_length_le
  have hwords : (Word.greatest : Int) * 2 ≤ Word.top := by decide
  obtain ⟨hwidth, hheight⟩ := Window.sides_le_length h.width_pos h.height_pos (by omega)
  unfold checkFetch
  simp only
  rw [if_neg (by omega), t.mode.guarded_eq_ok x (by omega), t.mode.guarded_eq_ok y (by omega)]
  cases hi : t.mode.index? x t.view.window.width with
  | none => rfl
  | some i =>
    cases hj : t.mode.index? y t.view.window.height with
    | none => rfl
    | some j =>
      -- the pixel lies in the buffer, to its last channel
      have hin : t.view.window.Contains i j (t.view.window.channels - 1) :=
        ⟨AddressMode.lt_of_index?_eq_some hi, AddressMode.lt_of_index?_eq_some hj, by omega⟩
      have hoffset := hin.offset_lt
      simp only [bind, Except.bind]
      rw [if_neg (by omega)]
      rfl

/-- A read between texels adds up at most the full weight of the greatest value. -/
theorem checkBetween_eq_ok {across down : Tap} (hacross : across.check = .ok ())
    (hdown : down.check = .ok ()) : t.checkBetween count across down = .ok () := by
  have hsum : ∀ c, t.weighted across down c ≤ Word.top := by
    intro c
    have hmix := down.mix_le (t.mix_le_words across down.base c) (t.mix_le_words across (down.base + 1) c)
    have hwords : tapOne * (tapOne * 65535) + tapOne * tapOne / 2 ≤ Word.top := by decide
    exact Nat.le_trans (Nat.add_le_add_right hmix _) hwords
  unfold checkBetween
  rw [hacross, hdown, h.checkFetch_eq_ok, h.checkFetch_eq_ok, h.checkFetch_eq_ok, h.checkFetch_eq_ok]
  simp [bind, Except.bind, pure, Except.pure, fun c => Nat.not_lt.2 (hsum c)]

/-- The four reads of a pixel meet no fault if all texels have an index. -/
theorem checkReads_eq_ok {across down : TapPair}
    (hacross : across.before.check = .ok () ∧ across.after.check = .ok ())
    (hdown : down.before.check = .ok () ∧ down.after.check = .ok ()) :
    t.checkReads count across down = .ok () := by
  unfold checkReads
  rw [h.checkBetween_eq_ok hacross.1 hdown.1, h.checkBetween_eq_ok hacross.2 hdown.1,
    h.checkBetween_eq_ok hacross.1 hdown.2, h.checkBetween_eq_ok hacross.2 hdown.2]
  rfl

end Texture.Readable

/-! ## §3 Pixels -/

/-- A row has the slots of all its pixels. -/
theorem Layout.checkStore_eq_ok {layout : Layout} {channels width x : Nat}
    (hchannels : ∀ k c, layout.source? channels k = some c → c < channels) (hx : x < width) :
    layout.checkStore channels (width * layout.destChannels channels) x = .ok () := by
  refine if_pos (List.all_eq_true.2 ?_)
  rintro ⟨slot, c⟩ hslot
  obtain ⟨k, hk, rfl⟩ := mem_slots_iff.1 hslot
  have hlt := lt_destChannels_of_source? hk
  have hrow : (x + 1) * layout.destChannels channels ≤ width * layout.destChannels channels :=
    Nat.mul_le_mul_right _ hx
  rw [Nat.add_one_mul] at hrow
  exact decide_eq_true ⟨by omega, hchannels k c hk⟩

/-- A destination has channels. -/
theorem Layout.destChannels_pos {channels : Nat} (hchannels : 0 < channels) (layout : Layout) :
    0 < layout.destChannels channels := by
  cases layout with
  | combined => exact hchannels
  | interleave => exact Nat.two_pos
  | split => exact Nat.one_pos

/-- Reads of the table of thresholds meet no fault. -/
theorem Dither.readable_table : Dither.table.Readable 1 :=
  ⟨by decide, by decide, by decide, by decide, by decide⟩

/-- A bias has at most one bit more than a threshold. -/
theorem Variant.bias_le (v : Variant) (x y : Nat) : v.bias x y ≤ 65536 := by
  unfold bias Dither.bias
  split
  · have hfetch := (Dither.table.within_words 0 ↑(x % Dither.side) ↑(y % Dither.side)).2
    rw [Nat.shiftRight_eq_div_pow]
    exact Nat.le_trans (Nat.div_le_self ..) (by omega)
  · decide

namespace Pass

variable {size : Nat} {p : Pass} {w : Window size}

/-- What a pass over a window needs: rows with pixels, a kernel that exists, a source that can be read, the
channels of the layout, and texels with an index for all pixels. -/
structure Runs (p : Pass) (w : Window size) : Prop where
  width_pos : 0 < w.width
  supported : p.variant.Supported
  readable : p.texture.Readable p.variant.channels
  channels_eq : w.channels = p.variant.layout.destChannels p.variant.channels
  across : ∀ x < w.width, (p.across.taps x).before.check = .ok () ∧ (p.across.taps x).after.check = .ok ()
  down : ∀ y < w.height, (p.down.taps y).before.check = .ok () ∧ (p.down.taps y).after.check = .ok ()

namespace Runs

variable (h : p.Runs w)
include h

theorem checkPixel_eq_ok {x y : Nat} (hx : x < w.width) (hy : y < w.height) :
    p.checkPixel (p.across.taps x) (p.down.taps y) x y w.rowLength = .ok () := by
  have htable : Dither.table.checkFetch 1 ↑(x % Dither.side) ↑(y % Dither.side) = .ok () :=
    Dither.readable_table.checkFetch_eq_ok _ _
  have hsum : ∀ c, p.texture.sum (p.across.taps x) (p.down.taps y) c + p.variant.bias x y ≤ Word.topHalf := by
    intro c
    have hreads := ((p.texture.within_words c).sum (p.across.taps x) (p.down.taps y)).2
    have hbias := p.variant.bias_le x y
    unfold Word.topHalf
    omega
  have hstore : p.variant.layout.checkStore p.variant.channels w.rowLength x = .ok () := by
    rw [Window.rowLength, h.channels_eq]
    exact Layout.checkStore_eq_ok (fun _ _ => h.supported.lt_channels) hx
  unfold checkPixel
  simp only [h.readable.checkReads_eq_ok (h.across x hx) (h.down y hy), htable, hstore]
  simp [bind, Except.bind, fun c => Nat.not_lt.2 (hsum c)]

/-! ## §4 Rows and bands -/

/-- A row of a band that is as wide as the window is written without a fault. -/
theorem guardedRow_eq_ok {d : Depth} {band : Window size} (hwidth : band.width = w.width)
    (hchannels : band.channels = w.channels) {y row : Nat} (hy : y < w.height) (hrow : row < band.height)
    (buffer : Vector (Sample d) size) :
    p.guardedRow ((Array.range w.width).map p.across.taps) band y row buffer =
      .ok (p.writeRow ((Array.range w.width).map p.across.taps) y (band.start + row * band.stride) buffer) := by
  have hrowLength : band.rowLength = w.rowLength := by
    rw [Window.rowLength, hwidth, hchannels, Window.rowLength]
  have hbandChannels : 0 < band.channels := by
    rw [hchannels, h.channels_eq]
    exact Layout.destChannels_pos h.readable.count_pos _
  have hcheck : band.checkRow row = .ok () :=
    (Window.checkRow_eq_ok_iff hbandChannels hrow).2 (.inl (hwidth ▸ h.width_pos))
  unfold guardedRow writeRow
  simp only
  rw [hcheck, ← Array.foldlM_toList, ← Array.foldl_toList, toList_zipIdx_columns, List.foldlM_map,
    List.foldl_map]
  refine foldlM_eq_ok (fun buffer x hx => ?_) buffer
  unfold guardedPixel
  rw [hrowLength, h.checkPixel_eq_ok (List.mem_range.1 hx) hy]
  rfl

/-- A band of the window is written without a fault. -/
theorem guardedBand_eq_ok {d : Depth} {band : Window size} (hwidth : band.width = w.width)
    (hchannels : band.channels = w.channels) {firstRow : Nat}
    (hrows : ∀ row < band.height, firstRow + row < w.height) (buffer : Vector (Sample d) size) :
    p.guardedBand ((Array.range w.width).map p.across.taps) band firstRow buffer =
      .ok (p.writeBand ((Array.range w.width).map p.across.taps) band firstRow buffer) :=
  foldlM_eq_ok (fun buffer row hrow => h.guardedRow_eq_ok hwidth hchannels
    (hrows row (List.mem_range.1 hrow)) (List.mem_range.1 hrow) buffer) buffer

/-- A window is written without a fault if a word counts the samples of a band and of all rows. -/
theorem guardedWrite_eq_ok {d : Depth} (hcut : w.cut bandRows = .ok (w.bandList bandRows))
    (hsamples : 0 < bandRows * w.stride) (buffer : Vector (Sample d) size) :
    p.guardedWrite w buffer = .ok (p.write w buffer) := by
  unfold guardedWrite write writeBands
  simp only
  rw [hcut]
  refine foldlM_eq_ok (fun buffer item hitem => ?_) buffer
  obtain ⟨band, i⟩ := item
  obtain ⟨hbegin, hband⟩ := (Window.mem_zipIdx_bandList_iff hsamples).1 hitem
  exact h.guardedBand_eq_ok (by rw [hband]; rfl) (by rw [hband]; rfl)
    (fun row hrow => (Window.row_of_mem_bandList hsamples hitem hrow).1) buffer

end Runs

end Pass

/-! ## §5 Launches -/

/-- The coordinates of the two reads at an index are numbers of a magnitude below a bound. -/
def AxisFilter.FetchesBelow (f : AxisFilter) (bound i : Nat) : Prop :=
  (f.center i - f.offset).Below bound ∧ (f.center i + f.offset).Below bound

instance (f : AxisFilter) (bound i : Nat) : Decidable (f.FetchesBelow bound i) :=
  inferInstanceAs (Decidable (_ ∧ _))

/-- The coordinates of all reads of a launch are numbers of a magnitude below a bound. -/
def Request.FetchesBelow (r : Request) (bound : Nat) : Prop :=
  ∀ x < r.destWidth, ∀ y < r.destHeight,
    (AxisFilter.between r.sourceWidth r.destWidth).FetchesBelow bound x ∧
      (AxisFilter.between r.sourceHeight r.destHeight).FetchesBelow bound y

/-- The channels of a kernel. -/
theorem Variant.Supported.channels_pos {v : Variant} (h : v.Supported) : 0 < v.channels := by
  unfold Supported at h
  split at h <;> omega

namespace Kernel

variable {k : Kernel} {source dest : View} {r : Request}

/-- Helper: a step that refuses ends the work, and the samples stay. -/
private theorem run_refuse (c : Prop) [Decidable c] (e : LaunchError) (rest : Launching dest Unit)
    (samples : Vector (Sample dest.depth) dest.size) :
    (if c then do throw e; rest else rest : Launching dest Unit).run.run samples =
      if c then .ok (.error e, samples) else rest.run.run samples := by
  split <;> rfl

/-- Helper: a part that is refused ends the work, and the samples stay. -/
private theorem run_ofExcept {α : Type} (x : Except LaunchError α) (rest : α → Launching dest Unit)
    (samples : Vector (Sample dest.depth) dest.size) :
    (do rest (← MonadExcept.ofExcept x) : Launching dest Unit).run.run samples =
      match x with
      | .ok a => (rest a).run.run samples
      | .error e => .ok (.error e, samples) := by
  cases x <;> rfl

/-- Helper: what is written becomes the samples. -/
private theorem run_set (write : Vector (Sample dest.depth) dest.size →
    Except Fault (Vector (Sample dest.depth) dest.size)) (samples : Vector (Sample dest.depth) dest.size) :
    (do set (← write (← get)) : Launching dest Unit).run.run samples =
      (write samples).map fun after => (.ok (), after) := by
  have hread : (do set (← write (← get)) : Launching dest Unit).run.run samples =
      (liftM (write samples) >>= fun after => set after : Launching dest Unit).run.run samples := rfl
  rw [hread]
  cases write samples <;> rfl

/-- The buffer of the destination after a launch that is not refused, unless it meets a fault. -/
def guardedWritten (k : Kernel) (source dest : View) (r : Request) :
    Except Fault (Vector (Sample dest.depth) dest.size) :=
  if r.destWidth = 0 ∨ r.destHeight = 0 then .ok dest.data
  else if hread : source.window.Covers r.sourceWidth r.sourceHeight then
    if hwrite : dest.window.Covers r.destWidth r.destHeight then
      (r.pass k.variant (source.corner r.sourceWidth r.sourceHeight hread)).guardedWrite
        (dest.window.corner r.destWidth r.destHeight hwrite) dest.data
    else .ok dest.data
  else .ok dest.data

/-- A launch ends with its refusal and the buffer as it was, or with the samples that it has written. -/
theorem guardedLaunch_eq_elim (k : Kernel) (source dest : View) (r : Request) :
    k.guardedLaunch source dest r =
      (k.refusal? source dest r).elim
        ((k.guardedWritten source dest r).map fun after => (.ok (), after))
        fun e => .ok (.error e, dest.data) := by
  -- both sides ask the same questions in the same order
  rw [elim_refusal?]
  unfold guardedLaunch steps
  simp only [run_refuse]
  refine ite_congr rfl (fun hsource => rfl) fun _ => ?_
  refine ite_congr rfl (fun hdest => rfl) fun _ => ?_
  refine ite_congr rfl (fun hread => rfl) fun _ => ?_
  refine ite_congr rfl (fun hwrite => rfl) fun _ => ?_
  by_cases hnothing : r.destWidth = 0 ∨ r.destHeight = 0
  · rw [if_pos hnothing, if_pos hnothing, guardedWritten, if_pos hnothing]
    rfl
  rw [if_neg hnothing, if_neg hnothing]
  simp only [run_refuse]
  refine ite_congr rfl (fun hempty => rfl) fun _ => ?_
  refine ite_congr rfl (fun htable => rfl) fun _ => ?_
  -- the regions are cut one after the other, and the pass follows
  rw [run_ofExcept, View.part_origin, guardedWritten, if_neg hnothing]
  by_cases hcovers : source.window.Covers r.sourceWidth r.sourceHeight
  · rw [dif_pos hcovers, dif_pos hcovers, mapError_ok]
    simp only
    rw [run_ofExcept, Window.part_origin]
    by_cases hcovers' : dest.window.Covers r.destWidth r.destHeight
    · rw [dif_pos hcovers', dif_pos hcovers', mapError_ok, if_pos ⟨hcovers, hcovers'⟩]
      exact run_set _ _
    · rw [dif_neg hcovers', if_neg fun h => hcovers' h.2]
      rfl
  · rw [dif_neg hcovers, if_neg fun h => hcovers h.1]
    rfl

/-- A launch that is not refused meets no fault. -/
theorem guardedWritten_eq_ok (h : k.refusal? source dest r = none) (hsource : source.size ≤ Word.greatest)
    (hdest : dest.size ≤ Word.greatest) (hband : bandRows * dest.window.stride ≤ Word.top)
    (hfetches : r.FetchesBelow (2 ^ 62)) :
    k.guardedWritten source dest r = .ok (k.written source dest r) := by
  obtain ⟨-, -, hread, hwrite, hregions⟩ := refusal?_eq_none_iff.1 h
  unfold guardedWritten written
  by_cases hnothing : r.destWidth = 0 ∨ r.destHeight = 0
  · rw [if_pos hnothing, if_pos hnothing]
  rw [if_neg hnothing, if_neg hnothing]
  -- with pixels to write, both regions are there, and the source is not empty
  obtain ⟨hempty, -, hcovers⟩ := hregions hnothing
  rw [dif_pos hcovers.1, dif_pos hcovers.2, dif_pos hcovers]
  obtain ⟨hwidth, hheight⟩ := not_or.1 hnothing
  have hwidth := Nat.pos_of_ne_zero hwidth
  have hheight := Nat.pos_of_ne_zero hheight
  have hchannels := k.supported.channels_pos
  have hruns : (r.pass k.variant (source.corner r.sourceWidth r.sourceHeight hcovers.1)).Runs
      (dest.window.corner r.destWidth r.destHeight hcovers.2) := {
    width_pos := hwidth
    supported := k.supported
    readable := {
      width_pos := Nat.pos_of_ne_zero fun hzero => hempty (.inl hzero)
      height_pos := Nat.pos_of_ne_zero fun hzero => hempty (.inr hzero)
      count_pos := hchannels
      count_le := Nat.le_of_eq hread.symm
      size_le := hsource }
    channels_eq := hwrite
    across := fun x hx =>
      have hbelow := (hfetches x hx 0 hheight).1
      ⟨Tap.check_ofCoordinate hbelow.1, Tap.check_ofCoordinate hbelow.2⟩
    down := fun y hy =>
      have hbelow := (hfetches 0 hwidth y hy).2
      ⟨Tap.check_ofCoordinate hbelow.1, Tap.check_ofCoordinate hbelow.2⟩ }
  obtain ⟨hsamples, hcut⟩ := Window.cut_eq_ok_bandList
    (w := dest.window.corner r.destWidth r.destHeight hcovers.2) hdest hwidth hheight
    (Nat.lt_of_lt_of_eq (Layout.destChannels_pos hchannels _) hwrite.symm) (show 0 < bandRows by decide) hband
  exact hruns.guardedWrite_eq_ok hcut hsamples dest.data

/-- A launch that is not refused ends well, with the samples that it writes. -/
theorem guardedLaunch_eq_ok (h : k.refusal? source dest r = none) (hsource : source.size ≤ Word.greatest)
    (hdest : dest.size ≤ Word.greatest) (hband : bandRows * dest.window.stride ≤ Word.top)
    (hfetches : r.FetchesBelow (2 ^ 62)) :
    k.guardedLaunch source dest r = .ok (.ok (), k.written source dest r) := by
  rw [guardedLaunch_eq_elim, h, Option.elim_none, guardedWritten_eq_ok h hsource hdest hband hfetches]
  rfl

end Kernel

end Resample
