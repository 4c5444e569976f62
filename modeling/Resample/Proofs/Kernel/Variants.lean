import Resample.Proofs.Kernel.Channels
import Resample.Proofs.Kernel.Dithering

/-!
# Variants side by side

Kernels of all variants do the same work on a channel. How many channels the source has, which of them goes to
which slot, and how many slots there are do not tell in the samples: a launch writes of each channel what the
kernel for one channel makes of the plane of that channel alone. So there is one kernel for each pair of depths,
dithering or not, and all others are arrangements of it.

What is left are the depths and the dithering. Dithered and rounded samples are made of the same sums, with
another number added before the low bits are dropped, and each is less than the value of these bits. So both are
the next step below the sum or the one above that.

## Contents

- §1 the plane of a channel, §2 launches of other kernels, §3 channels apart, §4 dithered and rounded
-/

namespace Resample

/-! ## §1 The plane of a channel -/

/-- The plane of channel `c` of a view alone, without padding. -/
def View.alone (v : View) (c : Nat) : Raster where
  depth := v.depth
  plane :=
    { width := v.window.width
      height := v.window.height
      channels := 1
      stride := v.window.width
      data := .ofFn fun i =>
        (v.window.get? v.data (i % v.window.width) (i / v.window.width) c).getD default
      row_le_stride := Nat.le_of_eq (Nat.mul_one _) }

/-- A channel on its own shows what it shows among the others. -/
theorem View.get?_alone {v : View} {c : Nat} (hc : c < v.window.channels) (x y : Nat) :
    (v.alone c).view.window.get? (v.alone c).view.data x y 0 = v.window.get? v.data x y c := by
  by_cases hin : x < v.window.width ∧ y < v.window.height
  · have hcontains : v.window.Contains x y c := ⟨hin.1, hin.2, hc⟩
    have hplane := Plane.get?_of_places (p := (v.alone c).plane)
      (f := fun x y => (v.window.get? v.data x y c).getD default) rfl rfl (fun i hi => Vector.getElem_ofFn hi)
      hin.1 hin.2
    rw [Window.get?_of_contains hcontains] at hplane ⊢
    exact hplane
  · have halone : ¬ (v.alone c).view.window.Contains x y 0 := fun h => hin ⟨h.1, h.2.1⟩
    have hcontains : ¬ v.window.Contains x y c := fun h => hin ⟨h.1, h.2.1⟩
    rw [Window.get?_of_not_contains hcontains]
    exact Window.get?_of_not_contains halone _

/-- A channel on its own reads as it does among the others, on every rectangle. -/
theorem View.readsLikeOn_alone {v : View} {c : Nat} (hc : c < v.window.channels) (width height : Nat) :
    v.ReadsLikeOn c (v.alone c).view 0 width height where
  depth := rfl
  covers_iff := Iff.rfl
  value := fun x _ y _ => congrArg (Option.map Fin.val) (View.get?_alone hc x y).symm

/-! ## §2 Launches of other kernels -/

namespace Kernel

/-- A view has the depth and the channels that a kernel writes, and room for what a launch writes. -/
structure Suits (k : Kernel) (dest : View) (r : Request) : Prop where
  depth : dest.depth = k.variant.dest
  channels : dest.window.channels = k.variant.layout.destChannels k.variant.channels
  covers : dest.window.Covers r.destWidth r.destHeight

instance (k : Kernel) (dest : View) (r : Request) : Decidable (k.Suits dest r) :=
  decidable_of_iff (dest.depth = k.variant.dest ∧
      dest.window.channels = k.variant.layout.destChannels k.variant.channels ∧
      dest.window.Covers r.destWidth r.destHeight)
    ⟨fun ⟨depth, channels, covers⟩ => ⟨depth, channels, covers⟩, fun h => ⟨h.depth, h.channels, h.covers⟩⟩

variable {k k' : Kernel} {source source' dest dest' : View} {r : Request} {slot slot' c c' : Nat}

/-- Where a launch is made, so is that of another kernel on a source with the same region, if it dithers only
where the first one does and the table is at hand. -/
theorem launch_eq_ok_of_suits {result : Vector (Sample dest.depth) dest.size}
    (h : k.launch source dest r = .ok result) (hdepth : source'.depth = k'.variant.source)
    (hchannels : source'.window.channels = k'.variant.channels)
    (hcovers : source.window.Covers r.sourceWidth r.sourceHeight →
      source'.window.Covers r.sourceWidth r.sourceHeight)
    (hdest : k'.Suits dest' r) {table : Bool}
    (htable : k'.variant.dither → k.variant.dither ∧ (r.table → table)) :
    k'.launch source' dest' { r with table } = .ok (k'.written source' dest' { r with table }) := by
  obtain ⟨-, -, -, -, hregions⟩ := refusal?_eq_none_iff.1 (launch_eq_ok_iff.1 h).1
  refine launch_eq_ok_iff.2 ⟨refusal?_eq_none_iff.2 ?_, rfl⟩
  refine ⟨hdepth, hdest.depth, hchannels, hdest.channels, fun hsome => ?_⟩
  obtain ⟨hempty, hneeds, hread, -⟩ := hregions hsome
  refine ⟨hempty, fun hdither => ?_, hcovers hread, hdest.covers⟩
  obtain ⟨hdithers, htable⟩ := htable hdither
  exact htable (hneeds hdithers)

/-- Two launches write the same values: one into a slot of each pixel of its region, the other one into a slot
of each pixel of a region of the same sides. -/
def WriteAlike (dest : View) (result : Vector (Sample dest.depth) dest.size) (slot : Nat) (dest' : View)
    (result' : Vector (Sample dest'.depth) dest'.size) (slot' width height : Nat) : Prop :=
  ∀ x < width, ∀ y < height, ∃ s s', dest.window.get? result x y slot = some s ∧
    dest'.window.get? result' x y slot' = some s' ∧ s.val = s'.val

/-! ## §3 Channels apart -/

/-- Two kernels that finish sums alike write the same values of channels that read alike on the region. -/
theorem exists_launch_of_readsLikeOn {result : Vector (Sample dest.depth) dest.size}
    (h : k.launch source dest r = .ok result)
    (hslot : k.variant.layout.source? k.variant.channels slot = some c)
    (hvariant : k.variant.FinishesLike k'.variant)
    (hslot' : k'.variant.layout.source? k'.variant.channels slot' = some c')
    (hreads : source.ReadsLikeOn c source' c' r.sourceWidth r.sourceHeight)
    (hchannels : source'.window.channels = k'.variant.channels) (hdest : k'.Suits dest' r) :
    ∃ result', k'.launch source' dest' r = .ok result' ∧
      WriteAlike dest result slot dest' result' slot' r.destWidth r.destHeight := by
  have hdepth : source'.depth = k'.variant.source := by
    rw [← hreads.depth, ← hvariant.source]
    exact (refusal?_eq_none_iff.1 (launch_eq_ok_iff.1 h).1).1
  have hlaunch : k'.launch source' dest' r = .ok (k'.written source' dest' r) :=
    launch_eq_ok_of_suits h hdepth hchannels hreads.covers_iff.1 hdest
      fun hdither => ⟨hvariant.dither.trans hdither, id⟩
  refine ⟨_, hlaunch, fun x hx y hy => ?_⟩
  obtain ⟨hfits, rfl⟩ := fits_of_launch h (by omega) (by omega)
  obtain ⟨hfits', -⟩ := fits_of_launch hlaunch (by omega) (by omega)
  obtain ⟨s, hs, hvalue⟩ := hfits.exists_get?_written hslot hx hy
  obtain ⟨s', hs', hvalue'⟩ := hfits'.exists_get?_written hslot' hx hy
  -- both launches have the same sides, so the taps of a pixel are the same, and the reads are alike
  have hsum : ∀ across down, (⟨source.corner _ _ hfits.covers_source, r.mode⟩ : Texture).sum across down c =
      (⟨source'.corner _ _ hfits'.covers_source, r.mode⟩ : Texture).sum across down c' :=
    Texture.sum_congr rfl (hreads.corner hfits.covers_source hfits'.covers_source)
  rw [hsum, hvariant.finish_val] at hvalue
  exact ⟨s, s', hs, hs', hvalue.trans hvalue'.symm⟩

end Kernel

/-- The variant for one channel with the depths and the dithering of a variant. -/
def Variant.single (v : Variant) : Variant := { v with channels := 1, layout := .combined }

namespace Kernel

variable {v : Variant} {k : Kernel} {source dest : View} {r : Request} {slot c : Nat}

/-- Where there is a kernel, there is one for one channel: one channel is always supported. -/
theorem exists_select?_single (hk : select? v = some k) :
    ∃ single, select? v.single = some single ∧ single.variant = k.variant.single := by
  have hsupported : v.single.normalized.Supported := ⟨Nat.le_refl 1, show 1 ≤ 4 by decide⟩
  refine ⟨⟨_, hsupported, Variant.normalized_normalized _⟩, dif_pos hsupported, ?_⟩
  rw [variant_of_select? hk]
  rfl

/-- Channels are filtered apart. What a launch writes of a channel, into whichever slot its layout has for it, is
what the kernel for one channel makes of the plane of that channel alone. So what other channels hold does not
matter, nor does the kernel: every launch of a kernel with the same depths and dithering writes the same of a
channel that shows the same in the region. -/
theorem launch_alone (hk : select? v = some k) {result : Vector (Sample dest.depth) dest.size}
    (h : k.launch source dest r = .ok result) (hslot : v.layout.source? v.channels slot = some c) :
    (∃ single, select? v.single = some single ∧ ∀ dest', single.Suits dest' r →
      ∃ result', single.launch (source.alone c).view dest' r = .ok result' ∧
        WriteAlike dest result slot dest' result' 0 r.destWidth r.destHeight) ∧
    ∀ (k' : Kernel) (source' dest' : View) (slot' c' : Nat), k.variant.FinishesLike k'.variant →
      k'.variant.layout.source? k'.variant.channels slot' = some c' →
      source.ReadsLikeOn c source' c' r.sourceWidth r.sourceHeight →
      source'.window.channels = k'.variant.channels → k'.Suits dest' r →
      ∃ result', k'.launch source' dest' r = .ok result' ∧
        WriteAlike dest result slot dest' result' slot' r.destWidth r.destHeight := by
  have hslot' : k.variant.layout.source? k.variant.channels slot = some c := by
    rw [variant_of_select? hk]
    exact hslot
  refine ⟨?_, fun k' source' dest' slot' c' hfinishes hslot₂ hreads hchannels hdest =>
    exists_launch_of_readsLikeOn h hslot' hfinishes hslot₂ hreads hchannels hdest⟩
  obtain ⟨single, hsingle, hvariant⟩ := exists_select?_single hk
  have hc : c < source.window.channels := by
    have hplanes := (refusal?_eq_none_iff.1 (launch_eq_ok_iff.1 h).1).2.2.1
    rw [hplanes]
    exact k.supported.lt_channels hslot'
  have hfinishes : k.variant.FinishesLike single.variant := by
    rw [hvariant]
    exact ⟨rfl, rfl, rfl⟩
  exact ⟨single, hsingle, fun dest' hdest => exists_launch_of_readsLikeOn h hslot' hfinishes
    (by rw [hvariant]; rfl) (View.readsLikeOn_alone hc _ _) (by rw [hvariant]; rfl) hdest⟩

/-- Two channels of three by two pixels, in rows with padding, of which the second one is drawn larger with a
border around it and dithered. The kernel for one channel draws the same of that channel alone, and so does the
kernel for both of another picture that has the second channel. -/
theorem launch_alone_split :
    ∃ (k single both : Kernel) (source other dest dest' dest₂ : View) (r : Request) (border : Sample .sixteen)
        (result : Vector (Sample dest.depth) dest.size) (result' : Vector (Sample dest'.depth) dest'.size)
        (result₂ : Vector (Sample dest₂.depth) dest₂.size),
      k.variant = ⟨2, .sixteen, .eight, true, .split .second⟩ ∧
      single.variant = ⟨1, .sixteen, .eight, true, .combined⟩ ∧
      both.variant = ⟨2, .sixteen, .eight, true, .combined⟩ ∧ r.mode = .border border ∧
      k.launch source dest r = .ok result ∧ single.launch (source.alone 1).view dest' r = .ok result' ∧
      both.launch other dest₂ r = .ok result₂ ∧ WriteAlike dest result 0 dest' result' 0 70 66 ∧
      WriteAlike dest result 0 dest₂ result₂ 1 70 66 := by
  let k : Kernel := ⟨⟨2, .sixteen, .eight, true, .split .second⟩, rfl, rfl⟩
  let both : Kernel := ⟨⟨2, .sixteen, .eight, true, .combined⟩, by decide, rfl⟩
  let source : View :=
    ⟨.sixteen, 16, .ofFn fun i => Sample.saturate .sixteen (4000 * i.val),
      ⟨3, 2, 2, 8, 0, 16, by decide, by decide, by decide⟩⟩
  let other : View :=
    ⟨.sixteen, 16, .ofFn fun i => Sample.saturate .sixteen (if i.val % 2 = 1 then 4000 * i.val else 9),
      ⟨3, 2, 2, 8, 0, 16, by decide, by decide, by decide⟩⟩
  let dest : View :=
    ⟨.eight, 5000, .replicate 5000 (Sample.saturate .eight 0),
      ⟨71, 66, 1, 75, 10, 4990, by decide, by decide, by decide⟩⟩
  let dest' : View :=
    ⟨.eight, 4620, .replicate 4620 (Sample.saturate .eight 9),
      ⟨70, 66, 1, 70, 0, 4620, by decide, by decide, by decide⟩⟩
  let dest₂ : View :=
    ⟨.eight, 9240, .replicate 9240 (Sample.saturate .eight 9),
      ⟨70, 66, 2, 140, 0, 9240, by decide, by decide, by decide⟩⟩
  let border : Sample .sixteen := Sample.saturate .sixteen 7000
  let r : Request := ⟨3, 2, 70, 66, .border border, true⟩
  have hfits : k.Fits source dest r :=
    ⟨rfl, rfl, rfl, rfl, fun _ => rfl, by decide, by decide, by decide, by decide⟩
  have hk : select? k.variant = some k := rfl
  have hslot : k.variant.layout.source? k.variant.channels 0 = some 1 := rfl
  obtain ⟨⟨single, hsingle, halone⟩, hother⟩ := launch_alone hk hfits.launch_eq_ok hslot
  have hvariant := variant_of_select? hsingle
  have hsuits : single.Suits dest' r := by
    refine ⟨?_, ?_, by decide⟩ <;> rw [hvariant] <;> rfl
  obtain ⟨result', h', halike⟩ := halone dest' hsuits
  have hreads : source.ReadsLikeOn 1 other 1 r.sourceWidth r.sourceHeight := ⟨rfl, Iff.rfl, by decide +kernel⟩
  obtain ⟨result₂, h₂, halike₂⟩ := hother both other dest₂ 1 1 ⟨rfl, rfl, rfl⟩ rfl hreads rfl (by decide)
  exact ⟨k, single, both, source, other, dest, dest', dest₂, r, border, _, result', result₂, rfl, hvariant, rfl,
    rfl, hfits.launch_eq_ok, h', h₂, halike, halike₂⟩

end Kernel

/-! ## §4 Dithered and rounded -/

namespace Variant

/-- The variant without dithering. -/
def rounded (v : Variant) : Variant := { v with dither := false }

/-- A sum of samples of 16 bits is finished to no less than the step of 8 bits below it, and to no more than the
one above, as far as there is one. The bias does not reach the step after that. -/
theorem finish_within_step {v : Variant} (hsource : v.source = .sixteen) (hdest : v.dest = .eight) {sum : Nat}
    (hsum : sum ≤ 4 * v.source.top) (x y : Nat) :
    sum / 1024 ≤ (v.finish sum (v.bias x y) v.dest).val ∧
      (v.finish sum (v.bias x y) v.dest).val ≤ min (sum / 1024 + 1) 255 := by
  have hbias := v.bias_lt_two_pow (by rw [hsource, hdest]; decide) x y
  obtain ⟨channels, source, dest, dither, layout⟩ := v
  obtain rfl : source = .sixteen := hsource
  obtain rfl : dest = .eight := hdest
  generalize Variant.bias _ x y = bias at hbias ⊢
  change bias < 2 ^ 10 at hbias
  change sum ≤ 4 * 65535 at hsum
  rw [finish_narrowing]
  omega

end Variant

namespace Kernel

variable {v : Variant} {k : Kernel} {source dest : View} {r : Request}

/-- A launch that narrows writes no less than the step below the sum of the reads of a pixel, and no more than
the one above. -/
theorem Fits.exists_within_step (h : k.Fits source dest r) (hsource : k.variant.source = .sixteen)
    (hdest : k.variant.dest = .eight) {slot c : Nat}
    (hslot : k.variant.layout.source? k.variant.channels slot = some c) {x y : Nat} (hx : x < r.destWidth)
    (hy : y < r.destHeight) {sum : Nat}
    (hsum : sum = (⟨source.corner _ _ h.covers_source, r.mode⟩ : Texture).sum
      ((AxisFilter.between r.sourceWidth r.destWidth).taps x)
      ((AxisFilter.between r.sourceHeight r.destHeight).taps y) c) :
    ∃ s, dest.window.get? (k.written source dest r) x y slot = some s ∧
      sum / 1024 ≤ s.val ∧ s.val ≤ min (sum / 1024 + 1) 255 := by
  obtain ⟨s, hs, hvalue⟩ := h.exists_get?_written hslot hx hy
  have htop : sum ≤ 4 * k.variant.source.top := by
    rw [hsum, ← h.sourceDepth]
    exact ((Texture.within_top _ c).sum _ _).2
  rw [← hsum] at hvalue
  exact ⟨s, hs, hvalue ▸ Variant.finish_within_step hsource hdest htop x y⟩

/-- Where there is a kernel, there is one that only rounds. -/
theorem exists_select?_rounded (hk : select? v = some k) :
    ∃ rounding, select? v.rounded = some rounding ∧ rounding.variant = k.variant.rounded := by
  have hvariant := variant_of_select? hk
  -- the channels and the layout are the same, and they decide whether there is a kernel
  have hsupported : v.rounded.normalized.Supported := by
    have hsupported := k.supported
    rw [hvariant] at hsupported
    exact hsupported
  refine ⟨⟨_, hsupported, Variant.normalized_normalized _⟩, dif_pos hsupported, ?_⟩
  rw [hvariant]
  rfl

/-- Dithering moves a sample by one step at most. Where a launch dithers, the kernel that only rounds makes its
launch as well, also without the table, and both write the step below the sum of the four reads of a pixel or the
one above it. -/
theorem launch_near_rounded (hk : select? v = some k) (hdither : k.variant.dither = true)
    {result : Vector (Sample dest.depth) dest.size} (h : k.launch source dest r = .ok result) :
    ∃ rounding, select? v.rounded = some rounding ∧ ∀ dest' table, rounding.Suits dest' r →
      ∃ result', rounding.launch source dest' { r with table } = .ok result' ∧
        ∀ x < r.destWidth, ∀ y < r.destHeight, ∀ slot c,
          v.layout.source? v.channels slot = some c →
          ∃ read sum s s', source.part 0 0 r.sourceWidth r.sourceHeight = .ok read ∧
            sum = (⟨read, r.mode⟩ : Texture).sum ((AxisFilter.between r.sourceWidth r.destWidth).taps x)
              ((AxisFilter.between r.sourceHeight r.destHeight).taps y) c ∧
            dest.window.get? result x y slot = some s ∧ dest'.window.get? result' x y slot = some s' ∧
            (s.val = sum / 1024 ∨ s.val = min (sum / 1024 + 1) 255) ∧
            (s'.val = sum / 1024 ∨ s'.val = min (sum / 1024 + 1) 255) ∧
            s.val ≤ s'.val + 1 ∧ s'.val ≤ s.val + 1 := by
  obtain ⟨hsource, hdest⟩ := depths_of_dither hdither
  obtain ⟨rounding, hrounding, hrounded⟩ := exists_select?_rounded hk
  refine ⟨rounding, hrounding, fun dest' table hdest' => ?_⟩
  obtain ⟨hdepth, -, hchannels, -⟩ := refusal?_eq_none_iff.1 (launch_eq_ok_iff.1 h).1
  have hlaunch : rounding.launch source dest' { r with table } = .ok _ :=
    launch_eq_ok_of_suits h (by rw [hrounded]; exact hdepth) (by rw [hrounded]; exact hchannels) id hdest'
      fun hdithers => by
        rw [hrounded] at hdithers
        cases hdithers
  refine ⟨_, hlaunch, fun x hx y hy slot c hslot => ?_⟩
  obtain ⟨hfits, rfl⟩ := fits_of_launch h (Nat.zero_lt_of_lt hx) (Nat.zero_lt_of_lt hy)
  obtain ⟨hfits', -⟩ := fits_of_launch hlaunch (Nat.zero_lt_of_lt hx) (Nat.zero_lt_of_lt hy)
  have hread : source.part 0 0 r.sourceWidth r.sourceHeight =
      .ok (source.corner _ _ hfits.covers_source) := by
    rw [View.part_origin, dif_pos hfits.covers_source]
  have hslot' : k.variant.layout.source? k.variant.channels slot = some c := by
    rw [variant_of_select? hk]
    exact hslot
  -- both samples are finished from one sum
  obtain ⟨sum, hsum⟩ : ∃ sum, sum = (⟨source.corner _ _ hfits.covers_source, r.mode⟩ : Texture).sum
      ((AxisFilter.between r.sourceWidth r.destWidth).taps x)
      ((AxisFilter.between r.sourceHeight r.destHeight).taps y) c := ⟨_, rfl⟩
  obtain ⟨s, hs, hbelow, habove⟩ := hfits.exists_within_step hsource hdest hslot' hx hy hsum
  obtain ⟨s', hs', hbelow', habove'⟩ := hfits'.exists_within_step (by rw [hrounded]; exact hsource)
    (by rw [hrounded]; exact hdest) (by rw [hrounded]; exact hslot') hx hy hsum
  exact ⟨_, sum, s, s', hread, hsum, hs, hs', by omega, by omega, by omega, by omega⟩

/-- Three channels of five by three pixels that differ everywhere, drawn smaller, with the table and without. No
two samples that are written are more than one step apart. -/
theorem launch_near_rounded_combined :
    ∃ (k rounding : Kernel) (source dest dest' : View) (r : Request)
        (result : Vector (Sample dest.depth) dest.size) (result' : Vector (Sample dest'.depth) dest'.size),
      k.variant = ⟨3, .sixteen, .eight, true, .combined⟩ ∧ rounding.variant = k.variant.rounded ∧
      k.launch source dest r = .ok result ∧ rounding.launch source dest' { r with table := false } = .ok result' ∧
      ∀ x < 3, ∀ y < 2, ∀ slot < 3, ∃ s s', dest.window.get? result x y slot = some s ∧
        dest'.window.get? result' x y slot = some s' ∧ s.val ≤ s'.val + 1 ∧ s'.val ≤ s.val + 1 := by
  let k : Kernel := ⟨⟨3, .sixteen, .eight, true, .combined⟩, by decide, rfl⟩
  let source : View :=
    ⟨.sixteen, 50, .ofFn fun i => Sample.saturate .sixteen (i.val * i.val * 26),
      ⟨5, 3, 3, 17, 0, 50, by decide, by decide, by decide⟩⟩
  let dest : View :=
    ⟨.eight, 20, .replicate 20 (Sample.saturate .eight 0),
      ⟨3, 2, 3, 9, 1, 19, by decide, by decide, by decide⟩⟩
  let dest' : View :=
    ⟨.eight, 30, .replicate 30 (Sample.saturate .eight 0),
      ⟨4, 2, 3, 15, 0, 30, by decide, by decide, by decide⟩⟩
  let r : Request := ⟨5, 3, 3, 2, .clamp, true⟩
  have hfits : k.Fits source dest r :=
    ⟨rfl, rfl, rfl, rfl, fun _ => rfl, by decide, by decide, by decide, by decide⟩
  have hk : select? k.variant = some k := rfl
  obtain ⟨rounding, hrounding, hnear⟩ := launch_near_rounded hk rfl hfits.launch_eq_ok
  have hvariant : rounding.variant = k.variant.rounded := variant_of_select? hrounding
  have hsuits : rounding.Suits dest' r := by
    refine ⟨?_, ?_, by decide⟩ <;> rw [hvariant] <;> rfl
  obtain ⟨result', h', hsamples⟩ := hnear dest' false hsuits
  refine ⟨k, rounding, source, dest, dest', r, _, result', rfl, hvariant, hfits.launch_eq_ok, h',
    fun x hx y hy slot hslot => ?_⟩
  have hsource : k.variant.layout.source? k.variant.channels slot = some slot := if_pos hslot
  obtain ⟨-, -, s, s', -, -, hs, hs', -, -, hnear⟩ := hsamples x hx y hy slot slot hsource
  exact ⟨s, s', hs, hs', hnear⟩

end Kernel

end Resample
