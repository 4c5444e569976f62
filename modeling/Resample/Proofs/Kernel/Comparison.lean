import Mathlib.Tactic.MkIffOfInductiveProp
import Resample.Proofs.Grid.Bounds
import Resample.Proofs.Grid.Comparison
import Resample.Proofs.Kernel.Channels
import Resample.Proofs.Kernel.Depths

/-!
# Launches on two sources

Two launches that differ in their sources alone read them at the same places with the same weights. So what
holds of the samples of the two regions, pair by pair, is carried to the samples that the launches write.

A launch keeps the order of pictures: no sample of the darker one becomes brighter than that of the other,
whatever is dithered, scaled or read beyond the edges. And a number that is added to every sample of the region
goes through the launch as the depths scale it, unless it meets the greatest sample of the container. That
happens to dithered samples only: the bias of a pixel takes a value of the last step one step too far.

## Contents

- §1 regions side by side, §2 finished sums, §3 launches side by side, §4 order, §5 raised sources
-/

namespace Resample

/-! ## §1 Regions side by side -/

/-- Every sample of the first view is in a relation to that of the second, throughout the rectangle of the given
sides at the origin, which both views have or neither has. Beyond it the views may differ in everything. -/
@[mk_iff comparesOn_iff]
structure View.ComparesOn (R : Nat → Nat → Prop) (v v' : View) (width height : Nat) : Prop where
  depth : v.depth = v'.depth
  channels : v.window.channels = v'.window.channels
  covers_iff : v.window.Covers width height ↔ v'.window.Covers width height
  samples : ∀ x < width, ∀ y < height, ∀ c < v.window.channels,
    ∀ s, v.window.get? v.data x y c = some s → ∀ s', v'.window.get? v'.data x y c = some s' → R s.val s'.val

theorem View.comparesOn_iff_all {R : Nat → Nat → Prop} [DecidableRel R] {v v' : View} {width height : Nat} :
    v.ComparesOn R v' width height ↔
      v.depth = v'.depth ∧ v.window.channels = v'.window.channels ∧
      (v.window.Covers width height ↔ v'.window.Covers width height) ∧
      ∀ x < width, ∀ y < height, ∀ c < v.window.channels,
        (v.window.get? v.data x y c).all fun s =>
          (v'.window.get? v'.data x y c).all fun s' => R s.val s'.val := by
  simp only [comparesOn_iff, Option.all_eq_true, decide_eq_true_eq]

instance (R : Nat → Nat → Prop) [DecidableRel R] (v v' : View) (width height : Nat) :
    Decidable (v.ComparesOn R v' width height) :=
  decidable_of_iff' _ View.comparesOn_iff_all

/-- What holds of the samples of two rectangles holds of all reads of them, if it holds of the border. -/
theorem View.ComparesOn.corner {R : Nat → Nat → Prop} {v v' : View} {width height : Nat}
    (h : v.ComparesOn R v' width height) (hcovers : v.window.Covers width height)
    (hcovers' : v'.window.Covers width height) (hwidth : 0 < width) (hheight : 0 < height) {c : Nat}
    (hc : c < v.window.channels) {mode : AddressMode}
    (hborder : ∀ value, mode = .border value →
      R (min value.val v.depth.top) (min value.val v.depth.top)) :
    Texture.Compares R ⟨v.corner width height hcovers, mode⟩ ⟨v'.corner width height hcovers', mode⟩ c := by
  intro x y
  -- the rectangles have the same sides, so both reads fall off them, or both are led to one pixel
  have hmissing : mode.index? x width = none ∨ mode.index? y height = none →
      R ((⟨v.corner width height hcovers, mode⟩ : Texture).fetch x y c)
        ((⟨v'.corner width height hcovers', mode⟩ : Texture).fetch x y c) := by
    intro hnone
    obtain ⟨value, rfl⟩ : ∃ value, mode = .border value := hnone.elim
      (AddressMode.exists_border_of_index?_eq_none · hwidth)
      (AddressMode.exists_border_of_index?_eq_none · hheight)
    rw [Texture.fetch_corner_of_none hcovers hnone, Texture.fetch_corner_of_none hcovers' hnone, ← h.depth]
    exact hborder value rfl
  cases hi : mode.index? x width with
  | none => exact hmissing (.inl hi)
  | some i =>
    cases hj : mode.index? y height with
    | none => exact hmissing (.inr hj)
    | some j =>
      have hx : i < width := AddressMode.lt_of_index?_eq_some hi
      have hy : j < height := AddressMode.lt_of_index?_eq_some hj
      have hsample := Window.get?_of_contains (hcovers.contains hx hy hc) v.data
      have hsample' := Window.get?_of_contains (hcovers'.contains hx hy (h.channels ▸ hc)) v'.data
      rw [Texture.fetch_corner_of_some hcovers hi hj hsample,
        Texture.fetch_corner_of_some hcovers' hi hj hsample']
      exact h.samples i hx j hy c hc _ hsample _ hsample'

/-! ## §2 Finished sums -/

/-- The second number is the first one raised by `n`, but the greater of the two goes no further than `top`. -/
def RaisedWithin (top : Nat) (n : Int) (a b : Nat) : Prop :=
  if 0 ≤ n then (b : Int) = min (top : Int) (a + n) else (a : Int) = min (top : Int) (b - n)

namespace Variant

/-- A sum that is no greater is finished to a sample that is no greater. -/
theorem finish_le_finish (v : Variant) {sum sum' : Nat} (h : sum ≤ sum') (bias : Nat) (dest : Depth) :
    (v.finish sum bias dest).val ≤ (v.finish sum' bias dest).val := by
  unfold finish
  split
  · simp only [Sample.saturate_val, Nat.shiftRight_eq_div_pow]
    apply min_le_min_right
    apply Nat.div_le_div_right
    exact Nat.add_le_add_right h bias
  · simp only [Sample.saturate_val, Nat.shiftLeft_eq]
    apply min_le_min_right
    exact Nat.mul_le_mul_right _ h

/-- How a sample changes from `a` to `b` where all values that it is made of are raised by `n`, in the depths of
a variant. Where samples are narrowed, that is told for whole steps, and dithered samples end at the greatest
one of the container. -/
def Raises (v : Variant) (n : Int) (a b : Nat) : Prop :=
  match v.source, v.dest with
  | .eight, .sixteen => RaisedBy (256 * n) a b
  | .sixteen, .eight =>
    256 ∣ n → if v.dither then RaisedWithin 255 (n / 256) a b else RaisedBy (n / 256) a b
  | _, _ => RaisedBy n a b

/-- A sum of four values that are raised is finished to a sample that is raised in the depths of the variant. -/
theorem finish_raises (v : Variant) {n : Int} {sum sum' : Nat} (h : RaisedBy (4 * n) sum sum')
    (hsum : sum ≤ 4 * v.source.top) (hsum' : sum' ≤ 4 * v.source.top) (x y : Nat) :
    v.Raises n (v.finish sum (v.bias x y) v.dest).val (v.finish sum' (v.bias x y) v.dest).val := by
  have hbias := v.bias_lt_two_pow (x := x) (y := y)
  have hfixed : v.dither = false → v.bias x y = 2 := fun h => bias_of_not_dither h x y
  obtain ⟨channels, source, dest, dither, layout⟩ := v
  generalize Variant.bias _ x y = bias at hbias hfixed
  unfold RaisedBy at h
  unfold Raises RaisedBy
  cases source <;> cases dest
  case eight.sixteen =>
    change sum ≤ 4 * 255 at hsum
    change sum' ≤ 4 * 255 at hsum'
    rw [finish_widening, finish_widening]
    simp only
    omega
  case sixteen.eight =>
    intro hstep
    change sum ≤ 4 * 65535 at hsum
    change sum' ≤ 4 * 65535 at hsum'
    rw [finish_narrowing, finish_narrowing]
    cases dither with
    | false =>
      obtain rfl : bias = 2 := hfixed rfl
      rw [if_neg (by simp)]
      omega
    | true =>
      -- a bias that leads the greater sample beyond the container does so for it alone
      rw [if_pos rfl]
      unfold RaisedWithin
      split <;> omega
  -- of one depth, the bias does not complete a step
  all_goals
    have hbias : bias < 2 ^ 2 := hbias (Nat.le_refl _)
    rw [finish_keeping, finish_keeping]
    simp only at hsum hsum' ⊢
    omega

end Variant

/-! ## §3 Launches side by side -/

namespace Kernel

variable {k : Kernel} {source source' dest : View} {r : Request}

/-- A launch asks of its source the depth, the channels and the region. -/
theorem refusal?_eq_of_covers_iff (hdepth : source.depth = source'.depth)
    (hchannels : source.window.channels = source'.window.channels)
    (hcovers : source.window.Covers r.sourceWidth r.sourceHeight ↔
      source'.window.Covers r.sourceWidth r.sourceHeight) :
    k.refusal? source dest r = k.refusal? source' dest r := by
  unfold refusal?
  simp only [hdepth, hchannels, hcovers]

/-- Where a launch is made, so is one on a source that compares to its own, and each sample that both write is
the finished sum of reads at the same taps, of two textures that compare as the sources do. -/
theorem exists_launch_of_comparesOn {R : Nat → Nat → Prop} {result : Vector (Sample dest.depth) dest.size}
    (h : k.launch source dest r = .ok result)
    (hcompares : source.ComparesOn R source' r.sourceWidth r.sourceHeight)
    (hborder : ∀ value, r.mode = .border value →
      R (min value.val source.depth.top) (min value.val source.depth.top)) :
    ∃ result', k.launch source' dest r = .ok result' ∧
      ∀ x < r.destWidth, ∀ y < r.destHeight, ∀ slot c,
        k.variant.layout.source? k.variant.channels slot = some c →
        ∃ (t t' : Texture) (across down : TapPair) (s s' : Sample dest.depth),
          t.view.depth = k.variant.source ∧ t'.view.depth = k.variant.source ∧ t.Compares R t' c ∧
          dest.window.get? result x y slot = some s ∧ dest.window.get? result' x y slot = some s' ∧
          s.val = (k.variant.finish (t.sum across down c) (k.variant.bias x y) k.variant.dest).val ∧
          s'.val = (k.variant.finish (t'.sum across down c) (k.variant.bias x y) k.variant.dest).val := by
  have hrefusal : k.refusal? source' dest r = none :=
    (refusal?_eq_of_covers_iff hcompares.depth hcompares.channels hcompares.covers_iff).symm.trans
      (launch_eq_ok_iff.1 h).1
  have hlaunch : k.launch source' dest r = .ok (k.written source' dest r) :=
    launch_eq_ok_iff.2 ⟨hrefusal, rfl⟩
  refine ⟨_, hlaunch, fun x hx y hy slot c hslot => ?_⟩
  obtain ⟨hfits, rfl⟩ := fits_of_launch h (by omega) (by omega)
  obtain ⟨hfits', -⟩ := fits_of_launch hlaunch (by omega) (by omega)
  obtain ⟨s, hs, hvalue⟩ := hfits.exists_get?_written hslot hx hy
  obtain ⟨s', hs', hvalue'⟩ := hfits'.exists_get?_written hslot hx hy
  have hreads := hcompares.corner hfits.covers_source hfits'.covers_source hfits.sourceWidth_pos
    hfits.sourceHeight_pos (hfits.lt_channels hslot) hborder
  exact ⟨_, _, _, _, s, s', hfits.sourceDepth, hfits'.sourceDepth, hreads, hs, hs', hvalue, hvalue'⟩

/-! ## §4 Order -/

/-- Scaling keeps the order of pictures. Where no sample of one region is above that of another, and a launch on
the first is made, one on the second is made too, and no sample that the first writes is above that of the
second: in every depth, mode and size, dithered or not. -/
theorem launch_le_launch {result : Vector (Sample dest.depth) dest.size}
    (h : k.launch source dest r = .ok result)
    (hle : source.ComparesOn (· ≤ ·) source' r.sourceWidth r.sourceHeight) :
    ∃ result', k.launch source' dest r = .ok result' ∧
      ∀ x < r.destWidth, ∀ y < r.destHeight, ∀ slot c,
        k.variant.layout.source? k.variant.channels slot = some c →
        ∃ s s', dest.window.get? result x y slot = some s ∧ dest.window.get? result' x y slot = some s' ∧
          s.val ≤ s'.val := by
  obtain ⟨result', h', hsamples⟩ := exists_launch_of_comparesOn h hle fun value _ => Nat.le_refl _
  refine ⟨result', h', fun x hx y hy slot c hslot => ?_⟩
  obtain ⟨t, t', across, down, s, s', -, -, hreads, hs, hs', hvalue, hvalue'⟩ :=
    hsamples x hx y hy slot c hslot
  refine ⟨s, s', hs, hs', ?_⟩
  rw [hvalue, hvalue']
  exact k.variant.finish_le_finish (hreads.sum_le across down) _ _

/-- The second channel of three by two pixels, and a picture that is brighter by more in some places than in
others. Drawn larger with a border around them and dithered, no pixel of the first is above that of the second. -/
theorem launch_le_launch_border :
    ∃ (k : Kernel) (source source' dest : View) (r : Request) (border : Sample .sixteen)
        (result result' : Vector (Sample dest.depth) dest.size),
      k.variant.dither = true ∧ k.variant.layout = .split .second ∧ r.mode = .border border ∧
      source.ComparesOn (· ≤ ·) source' r.sourceWidth r.sourceHeight ∧
      k.launch source dest r = .ok result ∧ k.launch source' dest r = .ok result' ∧
      ∀ x < 70, ∀ y < 66, ∃ s s', dest.window.get? result x y 0 = some s ∧
        dest.window.get? result' x y 0 = some s' ∧ s.val ≤ s'.val := by
  let k : Kernel := ⟨⟨2, .sixteen, .eight, true, .split .second⟩, rfl, rfl⟩
  let source : View :=
    ⟨.sixteen, 16, .ofFn fun i => Sample.saturate .sixteen (4000 * i.val),
      ⟨3, 2, 2, 8, 0, 16, by decide, by decide, by decide⟩⟩
  let source' : View :=
    ⟨.sixteen, 12, .ofFn fun i => Sample.saturate .sixteen (9000 * (i.val % 6) + 8000 * (i.val / 6 * 4)),
      ⟨3, 2, 2, 6, 0, 12, by decide, by decide, by decide⟩⟩
  let dest : View :=
    ⟨.eight, 5000, .replicate 5000 (Sample.saturate .eight 0),
      ⟨71, 66, 1, 75, 10, 4990, by decide, by decide, by decide⟩⟩
  let border : Sample .sixteen := Sample.saturate .sixteen 7000
  let r : Request := ⟨3, 2, 70, 66, .border border, true⟩
  have hfits : k.Fits source dest r :=
    ⟨rfl, rfl, rfl, rfl, fun _ => rfl, by decide, by decide, by decide, by decide⟩
  have hle : source.ComparesOn (· ≤ ·) source' r.sourceWidth r.sourceHeight  := by
    decide +kernel
  obtain ⟨result', h', hsamples⟩ := launch_le_launch hfits.launch_eq_ok hle
  exact ⟨k, source, source', dest, r, border, _, result', rfl, rfl, rfl, hle, hfits.launch_eq_ok, h',
    fun x hx y hy => hsamples x hx y hy 0 1 rfl⟩

/-! ## §5 Raised sources -/

/-- A number that is added to every sample of the region goes straight through a launch. Where reads that fall
off the region are led back into it, every sample that is written is raised by that number as well, scaled as
the depths are. Samples that are narrowed are so by whole steps, and the greater one of two dithered samples
goes no further than its container. -/
theorem launch_raises {result : Vector (Sample dest.depth) dest.size}
    (h : k.launch source dest r = .ok result) (hmode : r.mode = .clamp ∨ r.mode = .mirror) {n : Int}
    (hraised : source.ComparesOn (RaisedBy n) source' r.sourceWidth r.sourceHeight) :
    ∃ result', k.launch source' dest r = .ok result' ∧
      ∀ x < r.destWidth, ∀ y < r.destHeight, ∀ slot c,
        k.variant.layout.source? k.variant.channels slot = some c →
        ∃ s s', dest.window.get? result x y slot = some s ∧ dest.window.get? result' x y slot = some s' ∧
          k.variant.Raises n s.val s'.val := by
  have hborder : ∀ value, r.mode ≠ .border value := by
    rintro value hvalue
    rw [hvalue] at hmode
    obtain hclamp | hmirror := hmode
    · cases hclamp
    · cases hmirror
  obtain ⟨result', h', hsamples⟩ :=
    exists_launch_of_comparesOn h hraised fun value hvalue => absurd hvalue (hborder value)
  refine ⟨result', h', fun x hx y hy slot c hslot => ?_⟩
  obtain ⟨t, t', across, down, s, s', hdepth, hdepth', hreads, hs, hs', hvalue, hvalue'⟩ :=
    hsamples x hx y hy slot c hslot
  refine ⟨s, s', hs, hs', ?_⟩
  rw [hvalue, hvalue']
  apply Variant.finish_raises
  · exact hreads.sum_raisedBy across down
  · exact hdepth ▸ ((t.within_top c).sum across down).2
  · exact hdepth' ▸ ((t'.within_top c).sum across down).2

/-- The second channel of three by two pixels, mirrored, drawn larger and dithered. Where the channels are raised
by two steps of 256, no dithered sample reaches the end of its container, and all are raised by two. -/
theorem launch_raises_mirror :
    ∃ (k : Kernel) (source source' dest : View) (r : Request)
        (result result' : Vector (Sample dest.depth) dest.size),
      k.variant.dither = true ∧ r.mode = .mirror ∧
      source.ComparesOn (RaisedBy 512) source' r.sourceWidth r.sourceHeight ∧
      k.launch source dest r = .ok result ∧ k.launch source' dest r = .ok result' ∧
      ∀ x < 70, ∀ y < 66, ∃ s s', dest.window.get? result x y 0 = some s ∧
        dest.window.get? result' x y 0 = some s' ∧ s'.val = min 255 (s.val + 2) := by
  let k : Kernel := ⟨⟨2, .sixteen, .eight, true, .split .second⟩, rfl, rfl⟩
  let source : View :=
    ⟨.sixteen, 16, .ofFn fun i => Sample.saturate .sixteen (4201 * i.val),
      ⟨3, 2, 2, 8, 0, 16, by decide, by decide, by decide⟩⟩
  let source' : View :=
    ⟨.sixteen, 20, .ofFn fun i => Sample.saturate .sixteen (4201 * (i.val % 10 + 8 * (i.val / 10)) + 512),
      ⟨4, 2, 2, 10, 0, 20, by decide, by decide, by decide⟩⟩
  let dest : View :=
    ⟨.eight, 5000, .replicate 5000 (Sample.saturate .eight 0),
      ⟨71, 66, 1, 75, 10, 4990, by decide, by decide, by decide⟩⟩
  let r : Request := ⟨3, 2, 70, 66, .mirror, true⟩
  have hfits : k.Fits source dest r :=
    ⟨rfl, rfl, rfl, rfl, fun _ => rfl, by decide, by decide, by decide, by decide⟩
  have hraised : source.ComparesOn (RaisedBy 512) source' r.sourceWidth r.sourceHeight  := by
    decide +kernel
  obtain ⟨result', h', hsamples⟩ := launch_raises hfits.launch_eq_ok (.inr rfl) hraised
  refine ⟨k, source, source', dest, r, _, result', rfl, rfl, hraised, hfits.launch_eq_ok, h',
    fun x hx y hy => ?_⟩
  obtain ⟨s, s', hs, hs', hvalue⟩ := hsamples x hx y hy 0 1 rfl
  have hraise : RaisedWithin 255 (512 / 256) s.val s'.val := hvalue ⟨2, rfl⟩
  unfold RaisedWithin at hraise
  rw [if_pos (by decide)] at hraise
  exact ⟨s, s', hs, hs', by omega⟩

/-- White, and white lowered by one step of 256, both dithered. Where the threshold takes white beyond the
container, the lowered sample is white as well, and not one below. -/
theorem exists_lowered_alike :
    ∃ (k : Kernel) (source source' dest : View) (r : Request)
        (result result' : Vector (Sample dest.depth) dest.size),
      k.variant.dither = true ∧ r.mode = .clamp ∧
      source.ComparesOn (RaisedBy (-256)) source' r.sourceWidth r.sourceHeight ∧
      k.launch source dest r = .ok result ∧ k.launch source' dest r = .ok result' ∧
      (dest.window.get? result 1 0 0).map Fin.val = some 255 ∧
      (dest.window.get? result' 1 0 0).map Fin.val = some 255 ∧
      ¬ ∀ x < 2, ∀ s, dest.window.get? result x 0 0 = some s →
        ∀ s', dest.window.get? result' x 0 0 = some s' → (s'.val : Int) = min 255 (s.val + -256 / 256 : Int) := by
  let k : Kernel := ⟨⟨1, .sixteen, .eight, true, .combined⟩, by decide, rfl⟩
  let source : View :=
    ⟨.sixteen, 2, .replicate 2 (Sample.saturate .sixteen 65535),
      ⟨2, 1, 1, 2, 0, 2, by decide, by decide, by decide⟩⟩
  let source' : View :=
    ⟨.sixteen, 2, .replicate 2 (Sample.saturate .sixteen 65279),
      ⟨2, 1, 1, 2, 0, 2, by decide, by decide, by decide⟩⟩
  let dest : View :=
    ⟨.eight, 2, .replicate 2 (Sample.saturate .eight 9),
      ⟨2, 1, 1, 2, 0, 2, by decide, by decide, by decide⟩⟩
  let r : Request := ⟨2, 1, 2, 1, .clamp, true⟩
  have hfits : k.Fits source dest r :=
    ⟨rfl, rfl, rfl, rfl, fun _ => rfl, by decide, by decide, by decide, by decide⟩
  have hfits' : k.Fits source' dest r :=
    ⟨rfl, rfl, rfl, rfl, fun _ => rfl, by decide, by decide, by decide, by decide⟩
  have hlowered : source.ComparesOn (RaisedBy (-256)) source' r.sourceWidth r.sourceHeight := by
    decide +kernel
  have hslot : k.variant.layout.source? k.variant.channels 0 = some 0 := rfl
  have hwhite : (dest.window.get? (k.written source dest r) 1 0 0).map Fin.val = some 255 := by
    have hvalue : ((r.pass k.variant (source.corner 2 1 (by decide))).mapped .eight 1 0 0).val = 255 := by
      decide +kernel
    rw [hfits.get?_written_of_source? hslot (by decide) (by decide), Pass.valueAt_eq_mapped]
    exact congrArg some hvalue
  have hwhite' : (dest.window.get? (k.written source' dest r) 1 0 0).map Fin.val = some 255 := by
    have hvalue : ((r.pass k.variant (source'.corner 2 1 (by decide))).mapped .eight 1 0 0).val = 255 := by
      decide +kernel
    rw [hfits'.get?_written_of_source? hslot (by decide) (by decide), Pass.valueAt_eq_mapped]
    exact congrArg some hvalue
  refine ⟨k, source, source', dest, r, _, _, rfl, rfl, hlowered, hfits.launch_eq_ok, hfits'.launch_eq_ok,
    hwhite, hwhite', fun hall => ?_⟩
  obtain ⟨s, hs, hvalue⟩ := Option.map_eq_some_iff.1 hwhite
  obtain ⟨s', hs', hvalue'⟩ := Option.map_eq_some_iff.1 hwhite'
  have hone := hall 1 (by decide) s hs s' hs'
  rw [hvalue, hvalue'] at hone
  exact absurd hone (by decide)

end Kernel

end Resample
