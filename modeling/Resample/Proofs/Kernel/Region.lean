import Resample.Proofs.Kernel.Channels

/-!
# The region of a launch

A launch reads the rectangle at the origin of its source, and nothing else: not the pixels to the right of it
and below it, not the padding of the rows, not what is around the view. Reads that fall off the rectangle are
led back into it, or to the border value, by its own sides. So two views that show the same pixels there are
the same source, however their buffers are laid out.

## Contents

- §1 views that agree on a rectangle, §2 passes with the same values, §3 launches
-/

namespace Resample

/-! ## §1 Views that agree on a rectangle -/

/-- Two views show the same pixels in the rectangle of the given sides at the origin. Their sides, strides and
buffers may differ. -/
structure View.AgreeOn (v v' : View) (width height : Nat) : Prop where
  depth : v.depth = v'.depth
  channels : v.window.channels = v'.window.channels
  pixels : ∀ x < width, ∀ y < height, ∀ c < v.window.channels,
    (v.window.get? v.data x y c).map Fin.val = (v'.window.get? v'.data x y c).map Fin.val

namespace View.AgreeOn

variable {v v' : View} {width height : Nat}

/-- Channels that neither view has agree as well. -/
theorem value (h : v.AgreeOn v' width height) {x y : Nat} (hx : x < width) (hy : y < height) (c : Nat) :
    (v.window.get? v.data x y c).map Fin.val = (v'.window.get? v'.data x y c).map Fin.val := by
  by_cases hc : c < v.window.channels
  · exact h.pixels x hx y hy c hc
  · rw [Window.get?_of_not_contains fun hin => hc hin.2.2,
      Window.get?_of_not_contains fun hin => hc (h.channels ▸ hin.2.2)]
    rfl

/-- The rectangle is a part of both views or of neither, as its last pixel is. -/
theorem covers_iff (h : v.AgreeOn v' width height) (hwidth : 0 < width) (hheight : 0 < height)
    (hchannels : 0 < v.window.channels) :
    v.window.Covers width height ↔ v'.window.Covers width height := by
  have hlast : ∀ {size : Nat} (w : Window size), 0 < w.channels →
      (w.Covers width height ↔ w.Contains (width - 1) (height - 1) 0) := by
    intro size w hpos
    unfold Window.Covers Window.Contains
    omega
  have hsome := congrArg Option.isSome (h.value (x := width - 1) (y := height - 1) (by omega) (by omega) 0)
  rw [Option.isSome_map, Option.isSome_map, Bool.eq_iff_iff, Window.isSome_get?_iff,
    Window.isSome_get?_iff] at hsome
  rw [hlast _ hchannels, hlast _ (h.channels ▸ hchannels), hsome]

/-- The rectangle reads alike in both, channel by channel. -/
theorem readsLikeOn (h : v.AgreeOn v' width height)
    (hcovers : v.window.Covers width height ↔ v'.window.Covers width height) (c : Nat) :
    v.ReadsLikeOn c v' c width height :=
  ⟨h.depth, hcovers, fun _ hx _ hy => h.value hx hy c⟩

end View.AgreeOn

/-! ## §2 Passes with the same values -/

/-- Passes of one variant whose pixels have the same values write the same. -/
theorem Pass.write_congr {p p' : Pass} {dest : Depth} {size : Nat} (hvariant : p.variant = p'.variant)
    (hvalue : ∀ x y c, p.valueAt dest x y c = p'.valueAt dest x y c) (w : Window size)
    (buffer : Vector (Sample dest) size) : p.write w buffer = p'.write w buffer := by
  rw [write_eq_writeAll, write_eq_writeAll]
  unfold writes bandWrites rowWrites pixelWrites
  simp only [hvariant, hvalue]

/-! ## §3 Launches -/

namespace Kernel

variable {k : Kernel} {source source' dest : View} {r : Request}

/-- Views that agree on the region are refused alike. -/
theorem refusal?_congr (h : source.AgreeOn source' r.sourceWidth r.sourceHeight) :
    k.refusal? source dest r = k.refusal? source' dest r := by
  unfold refusal?
  rw [h.depth, h.channels]
  by_cases hchannels : source'.window.channels = k.variant.channels
  · by_cases hempty : r.sourceWidth = 0 ∨ r.sourceHeight = 0
    · -- a region of no pixels is refused before any view is asked for it
      simp only [if_pos hempty]
    · have hpos : 0 < source.window.channels := by
        have hsupported := k.supported
        unfold Variant.Supported at hsupported
        rw [h.channels, hchannels]
        split at hsupported <;> omega
      simp only [h.covers_iff (by omega) (by omega) hpos]
  · simp only [if_pos hchannels]

/-- Views that agree on the region leave the same samples in the destination. -/
theorem written_congr (h : source.AgreeOn source' r.sourceWidth r.sourceHeight)
    (hrefusal : k.refusal? source dest r = none) :
    k.written source dest r = k.written source' dest r := by
  unfold written
  by_cases hnothing : r.destWidth = 0 ∨ r.destHeight = 0
  · rw [if_pos hnothing, if_pos hnothing]
  · obtain ⟨-, -, -, -, hregions⟩ := refusal?_eq_none_iff.1 hrefusal
    obtain ⟨-, -, hread, hwrite⟩ := hregions hnothing
    obtain ⟨-, -, -, -, hregions'⟩ := refusal?_eq_none_iff.1 (refusal?_congr h ▸ hrefusal)
    obtain ⟨-, -, hread', -⟩ := hregions' hnothing
    rw [if_neg hnothing, if_neg hnothing, dif_pos ⟨hread, hwrite⟩, dif_pos ⟨hread', hwrite⟩]
    have hsum : ∀ c across down, (⟨source.corner _ _ hread, r.mode⟩ : Texture).sum across down c =
        (⟨source'.corner _ _ hread', r.mode⟩ : Texture).sum across down c :=
      fun c => Texture.sum_congr rfl ((h.readsLikeOn (iff_of_true hread hread') c).corner hread hread')
    apply Pass.write_congr
    · rfl
    · intro x y c
      unfold Pass.valueAt Pass.sampleAt Request.pass
      simp only [hsum]

/-- A launch depends on the source through the pixels of its region alone: views that agree there are refused
for the same reason, or leave the same buffer behind. -/
theorem launch_eq_of_agreeOn (k : Kernel) (dest : View)
    (h : source.AgreeOn source' r.sourceWidth r.sourceHeight) :
    k.launch source dest r = k.launch source' dest r := by
  rw [launch_eq_elim, launch_eq_elim, ← refusal?_congr h]
  cases hrefusal : k.refusal? source dest r with
  | some e => rfl
  | none => rw [written_congr h hrefusal]

/-- Two by two pixels are drawn larger from a plane without padding, and from the corner of a plane with other
sides, a longer stride and other samples everywhere else. All taps of the outer pixels are mirrored. -/
theorem launch_eq_of_agreeOn_mirror :
    ∃ (k : Kernel) (source source' dest : View) (r : Request) (result : Vector (Sample dest.depth) dest.size),
      source.AgreeOn source' r.sourceWidth r.sourceHeight ∧ r.mode = .mirror ∧
      source.window.stride = 2 ∧ source'.window.stride = 5 ∧
      source.data.toList.map Fin.val = [10, 20, 30, 40] ∧
      source'.data.toList.map Fin.val = [255, 10, 20, 255, 255, 255, 30, 40, 255, 255, 255, 255, 255, 255] ∧
      k.launch source dest r = .ok result ∧ k.launch source' dest r = .ok result ∧
      result.toList.map Fin.val = [10, 13, 18, 20, 15, 18, 23, 25, 25, 28, 33, 35, 30, 33, 38, 40] := by
  let k : Kernel := ⟨⟨1, .eight, .eight, false, .combined⟩, by decide, rfl⟩
  let source : View :=
    ⟨.eight, 4, #v[10, 20, 30, 40].map (Sample.saturate .eight),
      ⟨2, 2, 1, 2, 0, 4, by decide, by decide, by decide⟩⟩
  let source' : View :=
    ⟨.eight, 14, #v[255, 10, 20, 255, 255, 255, 30, 40, 255, 255, 255, 255, 255, 255].map
        (Sample.saturate .eight),
      ⟨3, 3, 1, 5, 1, 13, by decide, by decide, by decide⟩⟩
  let dest : View :=
    ⟨.eight, 16, .replicate 16 (Sample.saturate .eight 0),
      ⟨4, 4, 1, 4, 0, 16, by decide, by decide, by decide⟩⟩
  let r : Request := ⟨2, 2, 4, 4, .mirror, false⟩
  have hagree : source.AgreeOn source' r.sourceWidth r.sourceHeight := ⟨rfl, rfl, by decide +kernel⟩
  have hlaunch : k.launch source dest r = .ok (k.written source dest r) := by
    rw [launch_eq_elim]
    rfl
  refine ⟨k, source, source', dest, r, _, hagree, rfl, rfl, rfl, by decide +kernel, by decide +kernel,
    hlaunch, ?_, ?_⟩
  · rw [← launch_eq_of_agreeOn k dest hagree, hlaunch]
  · decide +kernel

end Kernel

end Resample
