import Resample.Proofs.Grid.Bounds
import Resample.Proofs.Kernel.Depths

/-!
# Bounds of what a launch makes

Every sample that a launch makes of a channel is a rounded mean of values of that channel, brought to another
depth. So it stays between the bounds of these values in that depth, at every scale: neither the rounding of
the reads nor the one of their sum leads beyond them. Only dithering may go one step further, and does not where
the upper bound is a whole step. In border mode the value of the border is one of the values.

## Contents

- §1 finished sums, §2 channels within bounds, §3 launches
-/

namespace Resample

/-! ## §1 Finished sums -/

namespace Variant

/-- Bounds of the samples that are made of values between two bounds. -/
def range (v : Variant) (low high : Nat) : Nat × Nat :=
  match v.source, v.dest with
  | .eight, .sixteen => (256 * low, 256 * high)
  | .sixteen, .eight =>
    (low / 256, if v.dither ∧ ¬ 256 ∣ high then min 255 (high / 256 + 1) else high / 256)
  | _, _ => (low, high)

/-- Bounds that meet are met by what is made of them, unless they are dithered between two steps. -/
theorem range_same (v : Variant) {n : Nat} (h : v.dither = false ∨ 256 ∣ n) :
    (v.range n n).2 = (v.range n n).1 := by
  unfold range
  split
  · rfl
  · refine if_neg ?_
    rintro ⟨hdither, hstep⟩
    exact h.elim (fun hnot => Bool.false_ne_true (hnot.symm.trans hdither)) hstep
  · rfl

/-- A sum between four times two bounds is finished between their bounds. -/
theorem finish_between (v : Variant) {low high sum : Nat} (hlow : 4 * low ≤ sum) (hhigh : sum ≤ 4 * high)
    (htop : low ≤ v.source.top) (x y : Nat) :
    (v.range low high).1 ≤ (v.finish sum (v.bias x y) v.dest).val ∧
      (v.finish sum (v.bias x y) v.dest).val ≤ (v.range low high).2 := by
  have hbias := v.bias_lt_two_pow (x := x) (y := y)
  have hfixed : v.dither = false → v.bias x y = 2 := fun h => bias_of_not_dither h x y
  obtain ⟨channels, source, dest, dither, layout⟩ := v
  generalize Variant.bias _ x y = bias at hbias hfixed
  unfold range
  cases source <;> cases dest
  case eight.sixteen =>
    change low ≤ 255 at htop
    rw [finish_widening]
    simp only
    omega
  case sixteen.eight =>
    have hbias : bias < 2 ^ 10 := hbias (show 8 ≤ 16 by decide)
    change low ≤ 65535 at htop
    rw [finish_narrowing]
    simp only
    cases dither with
    | false =>
      obtain rfl : bias = 2 := hfixed rfl
      rw [if_neg (by simp)]
      omega
    | true =>
      -- the bias completes a step only where the bound is no whole one
      by_cases hstep : 256 ∣ high
      · rw [if_neg fun h => h.2 hstep]
        omega
      · rw [if_pos ⟨rfl, hstep⟩]
        omega
  -- of one depth, the bias does not complete a step
  all_goals
    have hbias : bias < 2 ^ 2 := hbias (Nat.le_refl _)
    rw [finish_keeping]
    simp only at htop ⊢
    omega

end Variant

/-! ## §2 Channels within bounds -/

/-- Channel `c` has values between two bounds throughout the rectangle of the given sides at the origin. -/
def View.Between (v : View) (width height c low high : Nat) : Prop :=
  ∀ x < width, ∀ y < height, ∀ s, v.window.get? v.data x y c = some s → low ≤ s.val ∧ s.val ≤ high

theorem View.between_iff_all {v : View} {width height c low high : Nat} :
    v.Between width height c low high ↔
      ∀ x < width, ∀ y < height,
        (v.window.get? v.data x y c).all fun s => low ≤ s.val ∧ s.val ≤ high := by
  simp only [View.Between, Option.all_eq_true, decide_eq_true_eq]

instance (v : View) (width height c low high : Nat) : Decidable (v.Between width height c low high) :=
  decidable_of_iff' _ View.between_iff_all

/-- The reads of the rectangle are between bounds of its values, and of the border where there is one. -/
theorem View.Between.within {v : View} {width height c low high : Nat} (h : v.Between width height c low high)
    (hcovers : v.window.Covers width height) (hwidth : 0 < width) (hheight : 0 < height)
    (hc : c < v.window.channels) {mode : AddressMode}
    (hborder : ∀ value, mode = .border value →
      low ≤ min value.val v.depth.top ∧ min value.val v.depth.top ≤ high) :
    (⟨v.corner width height hcovers, mode⟩ : Texture).Within c low high := by
  apply Texture.within_of_pixels
  · exact ⟨hwidth, hheight, hc⟩
  · intro x y (s : Sample v.depth) hs
    obtain ⟨hin, hs⟩ :=
      Option.ite_none_right_eq_some.1 ((v.window.get?_corner hcovers v.data x y c).symm.trans hs)
    exact h x hin.1 y hin.2 s hs
  · rintro value rfl
    exact hborder value rfl

/-! ## §3 Launches -/

namespace Kernel

variable {k : Kernel} {source dest : View} {r : Request}

/-- The filter does not overshoot. Where the values of a channel are between two bounds throughout the region of
a launch, as is the border value in border mode, every sample that the launch makes of the channel is between
the bounds that the depths make of them. So a uniform channel stays uniform at every scale, unless it is
dithered and lies between two steps; above the last step, the bounds leave the last step only. -/
theorem launch_between {result : Vector (Sample dest.depth) dest.size}
    (h : k.launch source dest r = .ok result) {slot c : Nat}
    (hslot : k.variant.layout.source? k.variant.channels slot = some c) {low high : Nat}
    (hbetween : source.Between r.sourceWidth r.sourceHeight c low high)
    (hborder : ∀ value, r.mode = .border value →
      low ≤ min value.val source.depth.top ∧ min value.val source.depth.top ≤ high) :
    ∀ x < r.destWidth, ∀ y < r.destHeight, ∃ s, dest.window.get? result x y slot = some s ∧
      (k.variant.range low high).1 ≤ s.val ∧ s.val ≤ (k.variant.range low high).2 ∧
      (low = high → k.variant.dither = false ∨ 256 ∣ low → s.val = (k.variant.range low low).1) := by
  intro x hx y hy
  obtain ⟨hfits, rfl⟩ := fits_of_launch h (by omega) (by omega)
  have hc : c < source.window.channels := by
    rw [hfits.sourceChannels]
    exact k.supported.lt_channels hslot
  have hwithin := hbetween.within hfits.covers_source hfits.sourceWidth_pos hfits.sourceHeight_pos hc hborder
  have htop : low ≤ k.variant.source.top := by
    have hin : source.window.Contains 0 0 c :=
      ⟨Nat.lt_of_lt_of_le hfits.sourceWidth_pos hfits.covers_source.1,
        Nat.lt_of_lt_of_le hfits.sourceHeight_pos hfits.covers_source.2, hc⟩
    have hfirst := hbetween 0 hfits.sourceWidth_pos 0 hfits.sourceHeight_pos _
      (Window.get?_of_contains hin source.data)
    rw [← hfits.sourceDepth]
    exact Nat.le_trans hfirst.1 (Sample.le_top _)
  obtain ⟨hlow, hhigh⟩ := hwithin.sum ((AxisFilter.between r.sourceWidth r.destWidth).taps x)
    ((AxisFilter.between r.sourceHeight r.destHeight).taps y)
  obtain ⟨hle, hge⟩ := k.variant.finish_between hlow hhigh htop x y
  refine ⟨_, hfits.get?_written_of_source? hslot hx hy, ?_⟩
  unfold Pass.valueAt Pass.sampleAt Request.pass
  rw [hfits.destDepth]
  refine ⟨hle, hge, ?_⟩
  rintro rfl hsteps
  rw [Variant.range_same _ hsteps] at hge
  exact Nat.le_antisymm hge hle

/-- The second channel of three by two pixels is between 6000 and 18000, as is the border around them. Drawn
larger and dithered, it stays between the 23rd and the 71st of 256 steps. -/
theorem launch_between_border :
    ∃ (k : Kernel) (source dest : View) (r : Request) (border : Sample .sixteen)
        (result : Vector (Sample dest.depth) dest.size),
      k.variant.dither = true ∧ k.variant.layout = .split .second ∧ r.mode = .border border ∧
      border.val = 7000 ∧ source.Between r.sourceWidth r.sourceHeight 1 6000 18000 ∧
      k.launch source dest r = .ok result ∧
      ∀ x < 70, ∀ y < 66, ∃ s, dest.window.get? result x y 0 = some s ∧ 23 ≤ s.val ∧ s.val ≤ 71 := by
  let k : Kernel := ⟨⟨2, .sixteen, .eight, true, .split .second⟩, rfl, rfl⟩
  let source : View :=
    ⟨.sixteen, 16, .ofFn fun i => Sample.saturate .sixteen
        (if i.val % 2 = 1 ∧ i.val % 8 < 6 then 5000 + 1000 * i.val else 60000),
      ⟨3, 2, 2, 8, 0, 16, by decide, by decide, by decide⟩⟩
  let dest : View :=
    ⟨.eight, 5000, .replicate 5000 (Sample.saturate .eight 0),
      ⟨71, 66, 1, 75, 10, 4990, by decide, by decide, by decide⟩⟩
  let border : Sample .sixteen := Sample.saturate .sixteen 7000
  let r : Request := ⟨3, 2, 70, 66, .border border, true⟩
  have hfits : k.Fits source dest r :=
    ⟨rfl, rfl, rfl, rfl, fun _ => rfl, by decide, by decide, by decide, by decide⟩
  have hbetween : source.Between r.sourceWidth r.sourceHeight 1 6000 18000 := by decide +kernel
  have hborder : ∀ value, r.mode = .border value →
      6000 ≤ min value.val source.depth.top ∧ min value.val source.depth.top ≤ 18000 := by
    rintro value ⟨⟩
    decide
  have hslot : k.variant.layout.source? k.variant.channels 0 = some 1 := rfl
  refine ⟨k, source, dest, r, border, _, rfl, rfl, rfl, rfl, hbetween, hfits.launch_eq_ok,
    fun x hx y hy => ?_⟩
  obtain ⟨s, hs, hlow, hhigh, -⟩ := launch_between hfits.launch_eq_ok hslot hbetween hborder x hx y hy
  exact ⟨s, hs, hlow, hhigh⟩

/-- Half a step, dithered, becomes the step below it in one place and the step above it in another: the channel
is uniform no more. -/
theorem exists_dithered_apart :
    ∃ (k : Kernel) (source dest : View) (r : Request) (result : Vector (Sample dest.depth) dest.size),
      k.variant.dither = true ∧ r.mode = .clamp ∧ source.Between r.sourceWidth r.sourceHeight 0 128 128 ∧
      k.launch source dest r = .ok result ∧
      [0, 1].map (fun x => (dest.window.get? result x 0 0).map Fin.val) = [some 0, some 1] := by
  let k : Kernel := ⟨⟨1, .sixteen, .eight, true, .combined⟩, by decide, rfl⟩
  let source : View :=
    ⟨.sixteen, 2, .replicate 2 (Sample.saturate .sixteen 128),
      ⟨2, 1, 1, 2, 0, 2, by decide, by decide, by decide⟩⟩
  let dest : View :=
    ⟨.eight, 2, .replicate 2 (Sample.saturate .eight 9),
      ⟨2, 1, 1, 2, 0, 2, by decide, by decide, by decide⟩⟩
  let r : Request := ⟨2, 1, 2, 1, .clamp, true⟩
  have hfits : k.Fits source dest r :=
    ⟨rfl, rfl, rfl, rfl, fun _ => rfl, by decide, by decide, by decide, by decide⟩
  have hslot : k.variant.layout.source? k.variant.channels 0 = some 0 := rfl
  refine ⟨k, source, dest, r, _, rfl, rfl, by decide +kernel, hfits.launch_eq_ok, ?_⟩
  have hvalues : [0, 1].map (fun x =>
      ((r.pass k.variant (source.corner 2 1 (by decide))).mapped .eight x 0 0).val) = [0, 1] := by
    decide +kernel
  simp only [List.map_cons, List.map_nil]
  rw [hfits.get?_written_of_source? hslot (show 0 < 2 by decide) (show 0 < 1 by decide),
    hfits.get?_written_of_source? hslot (show 1 < 2 by decide) (show 0 < 1 by decide),
    Pass.valueAt_eq_mapped, Pass.valueAt_eq_mapped]
  exact congrArg (List.map some) hvalues

end Kernel

end Resample
