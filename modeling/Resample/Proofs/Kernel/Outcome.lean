import Resample.Proofs.Kernel.Drawing

/-!
# Outcomes of a launch

A launch checks its planes against the kernel, its sizes and its regions in a fixed order and refuses at
the first thing that is wrong. The regions begin at the origin, so they fit exactly if their sides are no
longer than those of the views. A launch that is not refused runs one pass.

## Contents

- §1 rectangles at the origin, §2 refusals, §3 the samples of a launch, §4 launches that fit
-/

namespace Resample

/-! ## §1 Rectangles at the origin -/

/-- A smaller rectangle has a shorter span. -/
theorem spanLength_mono {rowLength rowLength' height height' : Nat} (hrow : rowLength ≤ rowLength')
    (hheight : height ≤ height') (stride : Nat) :
    spanLength rowLength height stride ≤ spanLength rowLength' height' stride := by
  unfold spanLength
  split
  · exact Nat.zero_le _
  · next hne =>
    have hrows : (height - 1) * stride ≤ (height' - 1) * stride := Nat.mul_le_mul_right _ (by omega)
    rw [if_neg (by omega)]
    omega

namespace Window

variable {size : Nat}

/-- Whether a window has a rectangle of the given sides at its origin. -/
def Covers (w : Window size) (width height : Nat) : Prop := width ≤ w.width ∧ height ≤ w.height

instance (w : Window size) (width height : Nat) : Decidable (w.Covers width height) :=
  inferInstanceAs (Decidable (_ ∧ _))

/-- The pixels of such a rectangle are pixels of the window. -/
theorem Covers.contains {w : Window size} {width height x y c : Nat} (h : w.Covers width height)
    (hx : x < width) (hy : y < height) (hc : c < w.channels) : w.Contains x y c :=
  ⟨Nat.lt_of_lt_of_le hx h.1, Nat.lt_of_lt_of_le hy h.2, hc⟩

/-- The rectangle of the given sides at the origin of a window. -/
def corner (w : Window size) (width height : Nat) (h : w.Covers width height) : Window size :=
  { w with
    width, height
    row_le_stride := Nat.le_trans (Nat.mul_le_mul_right _ h.1) w.row_le_stride
    span_le_length :=
      Nat.le_trans (spanLength_mono (Nat.mul_le_mul_right _ h.1) h.2 _) w.span_le_length }

/-- The rectangle at the origin of a window shows what the window does, up to its sides. -/
theorem get?_corner {α : Type} (w : Window size) {width height : Nat} (h : w.Covers width height)
    (buffer : Vector α size) (x y c : Nat) :
    (w.corner width height h).get? buffer x y c =
      if x < width ∧ y < height then w.get? buffer x y c else none := by
  have hcontains : (w.corner width height h).Contains x y c ↔
      (x < width ∧ y < height) ∧ w.Contains x y c := by
    constructor
    · rintro ⟨hx, hy, hc⟩
      exact ⟨⟨hx, hy⟩, Nat.lt_of_lt_of_le hx h.1, Nat.lt_of_lt_of_le hy h.2, hc⟩
    · rintro ⟨⟨hx, hy⟩, -, -, hc⟩
      exact ⟨hx, hy, hc⟩
  by_cases hin : (w.corner width height h).Contains x y c
  · obtain ⟨hregion, hin'⟩ := hcontains.1 hin
    rw [if_pos hregion, get?_of_contains hin, get?_of_contains hin']
    rfl
  · rw [get?_of_not_contains hin]
    split
    · next hregion => rw [get?_of_not_contains fun hin' => hin (hcontains.2 ⟨hregion, hin'⟩)]
    · rfl

/-- What is drawn into the rectangle at the origin of a window is drawn into the window. -/
theorem Draws.of_corner {α : Type} {w : Window size} {width height : Nat} (h : w.Covers width height)
    {picture : Nat → Nat → Nat → Option α} {writes : List (Nat × α)}
    (hdraws : (w.corner width height h).Draws picture writes) :
    w.Draws (fun x y c => if x < width ∧ y < height then picture x y c else none) writes := by
  intro write
  rw [hdraws write]
  constructor
  · rintro ⟨x, y, c, v, ⟨hx, hy, hc⟩, hv, rfl⟩
    exact ⟨x, y, c, v, ⟨Nat.lt_of_lt_of_le hx h.1, Nat.lt_of_lt_of_le hy h.2, hc⟩,
      (if_pos ⟨hx, hy⟩).trans hv, rfl⟩
  · -- the picture ends at the sides of the rectangle
    rintro ⟨x, y, c, v, ⟨-, -, hc⟩, hv, rfl⟩
    obtain ⟨hin, hv⟩ := Option.ite_none_right_eq_some.1 hv
    exact ⟨x, y, c, v, ⟨hin.1, hin.2, hc⟩, hv, rfl⟩

/-- A part at the origin is refused only where a side is too long. -/
theorem part_origin (w : Window size) (width height : Nat) :
    w.part 0 0 width height =
      if h : w.Covers width height then .ok (w.corner width height h) else .error .outOfBounds := by
  unfold part
  by_cases h : w.Covers width height
  · -- a part at the origin begins where the window does
    have hspan : spanLength (width * w.channels) height w.stride ≤ w.length :=
      (w.corner width height h).span_le_length
    rw [dif_pos h, dif_pos ⟨Nat.zero_le _, Nat.zero_le _, h.1, h.2, by omega, by simpa using hspan⟩]
    simp [corner]
  · rw [dif_neg h, dif_neg fun hpart => h ⟨hpart.2.2.1, hpart.2.2.2.1⟩]

end Window

/-- The view of the rectangle of the given sides at the origin of a view. -/
def View.corner (v : View) (width height : Nat) (h : v.window.Covers width height) : View :=
  { v with window := v.window.corner width height h }

theorem View.part_origin (v : View) (width height : Nat) :
    v.part 0 0 width height =
      if h : v.window.Covers width height then .ok (v.corner width height h)
      else .error .outOfBounds := by
  unfold View.part
  rw [Window.part_origin]
  split <;> rfl

/-! ## §2 Refusals -/

/-- The pass of a launch that reads the given view. -/
def Request.pass (r : Request) (variant : Variant) (read : View) : Pass where
  variant := variant
  texture := ⟨read, r.mode⟩
  across := .between r.sourceWidth r.destWidth
  down := .between r.sourceHeight r.destHeight

namespace Kernel

variable {k : Kernel} {source dest : View} {r : Request}

/-- Why a launch is refused, if it is: the first thing that is wrong. -/
def refusal? (k : Kernel) (source dest : View) (r : Request) : Option LaunchError :=
  if source.depth ≠ k.variant.source then
    some (.sourceDepth k.variant.source.bits source.depth.bits)
  else if dest.depth ≠ k.variant.dest then some (.destDepth k.variant.dest.bits dest.depth.bits)
  else if source.window.channels ≠ k.variant.channels then
    some (.sourceChannels k.variant.channels source.window.channels)
  else if dest.window.channels ≠ k.variant.layout.destChannels k.variant.channels then
    some (.destChannels (k.variant.layout.destChannels k.variant.channels) dest.window.channels)
  else if r.destWidth = 0 ∨ r.destHeight = 0 then none
  else if r.sourceWidth = 0 ∨ r.sourceHeight = 0 then some (.emptySource r.destWidth r.destHeight)
  else if k.variant.dither ∧ ¬ r.table then some .missingDither
  else if source.window.Covers r.sourceWidth r.sourceHeight ∧
      dest.window.Covers r.destWidth r.destHeight then none
  else some (.region .outOfBounds)

/-- The buffer of the destination after a launch that is not refused: one pass over the region, or
nothing for a region of no pixels. -/
def written (k : Kernel) (source dest : View) (r : Request) : Vector (Sample dest.depth) dest.size :=
  if r.destWidth = 0 ∨ r.destHeight = 0 then dest.data
  else if h : source.window.Covers r.sourceWidth r.sourceHeight ∧
      dest.window.Covers r.destWidth r.destHeight then
    (r.pass k.variant (source.corner r.sourceWidth r.sourceHeight h.1)).write
      (dest.window.corner r.destWidth r.destHeight h.2) dest.data
  else dest.data

/-- Helper: the checks of a launch one after another, and the pass in the end. -/
private theorem launch_eq (k : Kernel) (source dest : View) (r : Request) :
    k.launch source dest r =
      if source.depth ≠ k.variant.source then
        .error (.sourceDepth k.variant.source.bits source.depth.bits)
      else if dest.depth ≠ k.variant.dest then .error (.destDepth k.variant.dest.bits dest.depth.bits)
      else if source.window.channels ≠ k.variant.channels then
        .error (.sourceChannels k.variant.channels source.window.channels)
      else if dest.window.channels ≠ k.variant.layout.destChannels k.variant.channels then
        .error (.destChannels (k.variant.layout.destChannels k.variant.channels) dest.window.channels)
      else if r.destWidth = 0 ∨ r.destHeight = 0 then .ok dest.data
      else if r.sourceWidth = 0 ∨ r.sourceHeight = 0 then
        .error (.emptySource r.destWidth r.destHeight)
      else if k.variant.dither ∧ ¬ r.table then .error .missingDither
      else
        ((source.part 0 0 r.sourceWidth r.sourceHeight).mapError .region).bind fun read =>
          ((dest.window.part 0 0 r.destWidth r.destHeight).mapError .region).bind fun written =>
            .ok ((r.pass k.variant read).write written dest.data) := rfl

/-- Helper: the regions of a launch. -/
private theorem regions_eq (k : Kernel) (source dest : View) (r : Request)
    (hdest : ¬ (r.destWidth = 0 ∨ r.destHeight = 0)) :
    (((source.part 0 0 r.sourceWidth r.sourceHeight).mapError LaunchError.region).bind fun read =>
      ((dest.window.part 0 0 r.destWidth r.destHeight).mapError LaunchError.region).bind fun written =>
        .ok ((r.pass k.variant read).write written dest.data)) =
      if source.window.Covers r.sourceWidth r.sourceHeight ∧
          dest.window.Covers r.destWidth r.destHeight then
        .ok (k.written source dest r)
      else .error (.region .outOfBounds) := by
  rw [View.part_origin, Window.part_origin]
  by_cases hread : source.window.Covers r.sourceWidth r.sourceHeight
  · by_cases hwrite : dest.window.Covers r.destWidth r.destHeight
    · rw [dif_pos hread, dif_pos hwrite, if_pos ⟨hread, hwrite⟩, written, if_neg hdest,
        dif_pos ⟨hread, hwrite⟩]
      rfl
    · rw [dif_pos hread, dif_neg hwrite, if_neg fun h => hwrite h.2]
      rfl
  · rw [dif_neg hread, if_neg fun h => hread h.1]
    rfl

/-- What is made of a refusal, told by the questions of a launch in their order. -/
theorem elim_refusal? {β : Type} (k : Kernel) (source dest : View) (r : Request) (done : β)
    (refuse : LaunchError → β) :
    (k.refusal? source dest r).elim done refuse =
      if source.depth ≠ k.variant.source then
        refuse (.sourceDepth k.variant.source.bits source.depth.bits)
      else if dest.depth ≠ k.variant.dest then refuse (.destDepth k.variant.dest.bits dest.depth.bits)
      else if source.window.channels ≠ k.variant.channels then
        refuse (.sourceChannels k.variant.channels source.window.channels)
      else if dest.window.channels ≠ k.variant.layout.destChannels k.variant.channels then
        refuse (.destChannels (k.variant.layout.destChannels k.variant.channels) dest.window.channels)
      else if r.destWidth = 0 ∨ r.destHeight = 0 then done
      else if r.sourceWidth = 0 ∨ r.sourceHeight = 0 then
        refuse (.emptySource r.destWidth r.destHeight)
      else if k.variant.dither ∧ ¬ r.table then refuse .missingDither
      else if source.window.Covers r.sourceWidth r.sourceHeight ∧
          dest.window.Covers r.destWidth r.destHeight then done
      else refuse (.region .outOfBounds) := by
  unfold refusal?
  simp only [apply_ite fun refusal? => Option.elim refusal? done refuse, Option.elim_some,
    Option.elim_none]

/-- A launch ends with its refusal, or with the samples that it has written. -/
theorem launch_eq_elim (k : Kernel) (source dest : View) (r : Request) :
    k.launch source dest r = (k.refusal? source dest r).elim (.ok (k.written source dest r)) .error := by
  -- both sides ask the same questions in the same order
  rw [launch_eq, elim_refusal?]
  refine ite_congr rfl (fun hsource => rfl) fun _ => ?_
  refine ite_congr rfl (fun hdest => rfl) fun _ => ?_
  refine ite_congr rfl (fun hread => rfl) fun _ => ?_
  refine ite_congr rfl (fun hwrite => rfl) fun _ => ?_
  refine ite_congr rfl (fun hnothing => by rw [written, if_pos hnothing]) fun hsome => ?_
  refine ite_congr rfl (fun hempty => rfl) fun _ => ?_
  refine ite_congr rfl (fun htable => rfl) fun _ => ?_
  exact regions_eq k source dest r hsome

/-- A launch that is made is one that is not refused, and gives the samples that it has written. -/
theorem launch_eq_ok_iff {result : Vector (Sample dest.depth) dest.size} :
    k.launch source dest r = .ok result ↔
      k.refusal? source dest r = none ∧ k.written source dest r = result := by
  rw [launch_eq_elim]
  cases k.refusal? source dest r with
  | none => simp only [Option.elim_none, Except.ok.injEq, true_and]
  | some e => simp only [Option.elim_some, reduceCtorEq, false_and]

/-- A launch is not refused if the planes are those of the kernel and, unless there is nothing to write,
the table is there if it is needed and the regions fit. -/
theorem refusal?_eq_none_iff :
    k.refusal? source dest r = none ↔
      source.depth = k.variant.source ∧ dest.depth = k.variant.dest ∧
      source.window.channels = k.variant.channels ∧
      dest.window.channels = k.variant.layout.destChannels k.variant.channels ∧
      (¬ (r.destWidth = 0 ∨ r.destHeight = 0) →
        ¬ (r.sourceWidth = 0 ∨ r.sourceHeight = 0) ∧ (k.variant.dither → r.table) ∧
        source.window.Covers r.sourceWidth r.sourceHeight ∧
        dest.window.Covers r.destWidth r.destHeight) := by
  unfold refusal?
  grind

/-! ## §3 The samples of a launch -/

/-- The picture of a launch: that of its pass, within the region. -/
def picture (k : Kernel) (source : View) (dest : Depth) (r : Request) (x y c : Nat) :
    Option (Sample dest) :=
  if h : source.window.Covers r.sourceWidth r.sourceHeight then
    if x < r.destWidth ∧ y < r.destHeight then
      (r.pass k.variant (source.corner r.sourceWidth r.sourceHeight h)).picture dest x y c
    else none
  else none

/-- A launch draws nothing but the channels that its layout writes. -/
theorem isSome_source?_of_picture {d : Depth} {x y c : Nat} {v : Sample d}
    (h : k.picture source d r x y c = some v) :
    (k.variant.layout.source? k.variant.channels c).isSome := by
  unfold picture at h
  split at h
  · obtain ⟨-, h⟩ := Option.ite_none_right_eq_some.1 h
    exact Pass.isSome_picture_iff.1 (Option.isSome_of_eq_some h)
  · cases h

/-- After a launch that is not refused, the destination shows the picture of the launch where it has one,
and elsewhere what was there before. -/
theorem get?_written (h : k.refusal? source dest r = none) (x y c : Nat) :
    dest.window.get? (k.written source dest r) x y c =
      (dest.window.get? dest.data x y c).map fun old =>
        (k.picture source dest.depth r x y c).getD old := by
  obtain ⟨-, -, -, hchannels, hregions⟩ := refusal?_eq_none_iff.1 h
  unfold written picture
  by_cases hnothing : r.destWidth = 0 ∨ r.destHeight = 0
  · -- a region of no pixels has no picture, and nothing is written
    have hout : ¬ (x < r.destWidth ∧ y < r.destHeight) := by omega
    rw [if_pos hnothing]
    simp [hout]
  · obtain ⟨-, -, hread, hwrite⟩ := hregions hnothing
    rw [if_neg hnothing, dif_pos ⟨hread, hwrite⟩, dif_pos hread, Pass.write_eq_writeAll]
    have hdraws : (dest.window.corner _ _ hwrite).Draws
        ((r.pass k.variant (source.corner _ _ hread)).picture dest.depth) _ :=
      Pass.draws_writes hchannels
    exact (Window.Draws.of_corner hwrite hdraws).get?_writeAll dest.data x y c

/-! ## §4 Launches that fit -/

/-- The views have the depths and channels that a kernel needs, the table is at hand if it needs one, and the
regions have pixels and lie in the views. -/
structure Fits (k : Kernel) (source dest : View) (r : Request) : Prop where
  sourceDepth : source.depth = k.variant.source
  destDepth : dest.depth = k.variant.dest
  sourceChannels : source.window.channels = k.variant.channels
  destChannels : dest.window.channels = k.variant.layout.destChannels k.variant.channels
  table : k.variant.dither → r.table
  sourceWidth_pos : 0 < r.sourceWidth
  sourceHeight_pos : 0 < r.sourceHeight
  covers_source : source.window.Covers r.sourceWidth r.sourceHeight
  covers_dest : dest.window.Covers r.destWidth r.destHeight

namespace Fits

variable (h : k.Fits source dest r)
include h

theorem refusal?_eq_none : k.refusal? source dest r = none := by
  have hwidth := h.sourceWidth_pos
  have hheight := h.sourceHeight_pos
  exact refusal?_eq_none_iff.2 ⟨h.sourceDepth, h.destDepth, h.sourceChannels, h.destChannels,
    fun _ => ⟨by omega, h.table, h.covers_source, h.covers_dest⟩⟩

/-- A launch that fits is not refused. -/
theorem launch_eq_ok : k.launch source dest r = .ok (k.written source dest r) := by
  exact launch_eq_ok_iff.2 ⟨h.refusal?_eq_none, rfl⟩

/-- The channels that go to the slots are channels of the source. -/
theorem lt_channels {slot c : Nat} (hslot : k.variant.layout.source? k.variant.channels slot = some c) :
    c < source.window.channels := by
  rw [h.sourceChannels]
  exact k.supported.lt_channels hslot

/-- A launch leaves the value of each pixel of the region in every slot that the layout writes. -/
theorem get?_written_of_source? {slot c : Nat}
    (hslot : k.variant.layout.source? k.variant.channels slot = some c) {x y : Nat} (hx : x < r.destWidth)
    (hy : y < r.destHeight) :
    dest.window.get? (k.written source dest r) x y slot =
      some ((r.pass k.variant (source.corner _ _ h.covers_source)).valueAt dest.depth x y c) := by
  have hin : dest.window.Contains x y slot :=
    h.covers_dest.contains hx hy
      (Nat.lt_of_lt_of_eq (Layout.lt_destChannels_of_source? hslot) h.destChannels.symm)
  have hslot' : (r.pass k.variant (source.corner _ _ h.covers_source)).variant.layout.source?
      (r.pass k.variant (source.corner _ _ h.covers_source)).variant.channels slot = some c := hslot
  rw [get?_written h.refusal?_eq_none, Window.get?_of_contains hin, Option.map_some]
  unfold picture Pass.picture
  rw [dif_pos h.covers_source, if_pos ⟨hx, hy⟩, hslot', Option.map_some, Option.getD_some]

/-- What a launch leaves in a slot is the finished sum of the reads at the taps of the pixel. -/
theorem exists_get?_written {slot c : Nat}
    (hslot : k.variant.layout.source? k.variant.channels slot = some c) {x y : Nat} (hx : x < r.destWidth)
    (hy : y < r.destHeight) :
    ∃ s, dest.window.get? (k.written source dest r) x y slot = some s ∧
      s.val = (k.variant.finish
        ((⟨source.corner _ _ h.covers_source, r.mode⟩ : Texture).sum
          ((AxisFilter.between r.sourceWidth r.destWidth).taps x)
          ((AxisFilter.between r.sourceHeight r.destHeight).taps y) c)
        (k.variant.bias x y) k.variant.dest).val := by
  refine ⟨_, h.get?_written_of_source? hslot hx hy, ?_⟩
  unfold Pass.valueAt Pass.sampleAt Request.pass
  rw [h.destDepth]

end Fits

/-- A launch that is made and has something to write fits. -/
theorem fits_of_launch {result : Vector (Sample dest.depth) dest.size}
    (h : k.launch source dest r = .ok result) (hwidth : 0 < r.destWidth) (hheight : 0 < r.destHeight) :
    k.Fits source dest r ∧ k.written source dest r = result := by
  obtain ⟨hrefusal, hwritten⟩ := launch_eq_ok_iff.1 h
  obtain ⟨hsource, hdest, hsourceChannels, hdestChannels, hregions⟩ := refusal?_eq_none_iff.1 hrefusal
  obtain ⟨hread, htable, hcovers, hcovers'⟩ := hregions (by omega)
  exact ⟨⟨hsource, hdest, hsourceChannels, hdestChannels, htable, by omega, by omega, hcovers, hcovers'⟩,
    hwritten⟩

end Kernel

end Resample
