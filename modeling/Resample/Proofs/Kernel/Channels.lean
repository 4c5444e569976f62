import Resample.Proofs.Grid.Bounds
import Resample.Proofs.Kernel.Outcome

/-!
# Channels of a launch

What a launch draws into a slot of a pixel depends on the one channel of the source that goes there. The
other channels, the slot and the layout of the kernel are of no account: two launches that read channels
with the same values, and agree on depths, sides, mode and dithering, draw the same values.

## Contents

- §1 channels that read alike, §2 reads of a texture, §3 the picture of a launch
-/

namespace Resample

/-! ## §1 Channels that read alike -/

/-- A channel of one view reads like a channel of another one: the views have the same depth and sides, and
the channels the same values. -/
structure View.ReadsLike (v : View) (c : Nat) (v' : View) (c' : Nat) : Prop where
  depth : v.depth = v'.depth
  width : v.window.width = v'.window.width
  height : v.window.height = v'.window.height
  value : ∀ x y, (v.window.get? v.data x y c).map Fin.val = (v'.window.get? v'.data x y c').map Fin.val

/-- A channel of one view reads like a channel of another one throughout the rectangle of the given sides at the
origin, which both views have or neither has. Beyond it the views may differ in everything. -/
structure View.ReadsLikeOn (v : View) (c : Nat) (v' : View) (c' width height : Nat) : Prop where
  depth : v.depth = v'.depth
  covers_iff : v.window.Covers width height ↔ v'.window.Covers width height
  value : ∀ x < width, ∀ y < height,
    (v.window.get? v.data x y c).map Fin.val = (v'.window.get? v'.data x y c').map Fin.val

section Channels

variable {v v' : View} {c c' : Nat}

/-- Channels that read alike do so on every rectangle at the origin. -/
theorem View.ReadsLike.on (h : v.ReadsLike c v' c') (width height : Nat) :
    v.ReadsLikeOn c v' c' width height where
  depth := h.depth
  covers_iff := by
    unfold Window.Covers
    rw [h.width, h.height]
  value := fun x _ y _ => h.value x y

/-- Where channels read alike on a rectangle, those of the rectangle read alike. -/
theorem View.ReadsLikeOn.corner {width height : Nat} (h : v.ReadsLikeOn c v' c' width height)
    (hcovers : v.window.Covers width height) (hcovers' : v'.window.Covers width height) :
    (v.corner width height hcovers).ReadsLike c (v'.corner width height hcovers') c' := by
  refine ⟨h.depth, rfl, rfl, fun x y => ?_⟩
  unfold View.corner
  simp only
  rw [Window.get?_corner, Window.get?_corner]
  split
  · next hin => exact h.value x hin.1 y hin.2
  · rfl

end Channels

/-! ## §2 Reads of a texture -/

namespace Texture

/-- A read goes through the rule of the mode on both axes, and then to the samples. -/
theorem fetch_eq_getD (t : Texture) (x y : Int) (c : Nat) :
    t.fetch x y c =
      ((t.mode.index? x t.view.window.width).bind fun i =>
        (t.mode.index? y t.view.window.height).bind fun j =>
          (t.view.window.get? t.view.data i j c).map Fin.val).getD (t.mode.missing t.view.depth) := by
  unfold fetch texel?
  cases t.mode.index? x t.view.window.width with
  | none => rfl
  | some i =>
    cases t.mode.index? y t.view.window.height with
    | none => rfl
    | some j =>
      simp only [Option.bind_eq_bind, Option.bind_some]
      cases t.view.window.get? t.view.data i j c <;> rfl

/-- A read of a rectangle that the mode leads to a pixel gives the sample of the pixel. -/
theorem fetch_corner_of_some {v : View} {width height : Nat} (hcovers : v.window.Covers width height)
    {mode : AddressMode} {x y : Int} {i j c : Nat} (hi : mode.index? x width = some i)
    (hj : mode.index? y height = some j) {s : Sample v.depth} (hs : v.window.get? v.data i j c = some s) :
    (⟨v.corner width height hcovers, mode⟩ : Texture).fetch x y c = s.val := by
  have hregion : i < width ∧ j < height :=
    ⟨AddressMode.lt_of_index?_eq_some hi, AddressMode.lt_of_index?_eq_some hj⟩
  have hsample : (v.corner width height hcovers).window.get? v.data i j c = some s :=
    (Window.get?_corner v.window hcovers v.data i j c).trans ((if_pos hregion).trans hs)
  rw [fetch_eq_getD]
  change ((mode.index? x width).bind fun i => (mode.index? y height).bind fun j =>
    ((v.corner width height hcovers).window.get? v.data i j c).map Fin.val).getD _ = s.val
  rw [hi, Option.bind_some, hj, Option.bind_some, hsample]
  rfl

/-- A read of a rectangle that the mode leads to no pixel gives what is missing. -/
theorem fetch_corner_of_none {v : View} {width height : Nat} (hcovers : v.window.Covers width height)
    {mode : AddressMode} {x y : Int} (h : mode.index? x width = none ∨ mode.index? y height = none)
    (c : Nat) :
    (⟨v.corner width height hcovers, mode⟩ : Texture).fetch x y c = mode.missing v.depth := by
  rw [fetch_eq_getD]
  change ((mode.index? x width).bind fun i => (mode.index? y height).bind fun j =>
    ((v.corner width height hcovers).window.get? v.data i j c).map Fin.val).getD _ = _
  obtain hi | hj := h
  · rw [hi]
    rfl
  · rw [hj]
    cases mode.index? x width <;> rfl

variable {t t' : Texture} {c c' : Nat}

/-- Channels that read alike give the same value at an index pair. -/
theorem fetch_congr (hmode : t.mode = t'.mode) (h : t.view.ReadsLike c t'.view c') (x y : Int) :
    t.fetch x y c = t'.fetch x y c' := by
  have hmissing : t.mode.missing t.view.depth = t'.mode.missing t'.view.depth := by rw [hmode, h.depth]
  rw [fetch_eq_getD, fetch_eq_getD, hmissing, hmode, h.width, h.height]
  simp only [h.value]

/-- Textures that read alike do so between texels. -/
theorem fetchBetween_congr (hmode : t.mode = t'.mode) (h : t.view.ReadsLike c t'.view c')
    (across down : Tap) : t.fetchBetween across down c = t'.fetchBetween across down c' := by
  unfold fetchBetween
  simp only [fetch_congr hmode h]

/-- Textures that read alike do so in the sum of four reads. -/
theorem sum_congr (hmode : t.mode = t'.mode) (h : t.view.ReadsLike c t'.view c')
    (across down : TapPair) : t.sum across down c = t'.sum across down c' := by
  unfold sum
  simp only [fetchBetween_congr hmode h]

end Texture

/-! ## §3 The picture of a launch -/

/-- Two variants finish sums alike: they have the same depths, and both dither or neither does. -/
structure Variant.FinishesLike (v v' : Variant) : Prop where
  source : v.source = v'.source
  dest : v.dest = v'.dest
  dither : v.dither = v'.dither

theorem Variant.FinishesLike.finish_val {v v' : Variant} (h : v.FinishesLike v') (sum x y : Nat) :
    (v.finish sum (v.bias x y) v.dest).val = (v'.finish sum (v'.bias x y) v'.dest).val := by
  obtain ⟨channels, source, dest, dither, layout⟩ := v
  obtain ⟨channels', source', dest', dither', layout'⟩ := v'
  obtain ⟨rfl, rfl, rfl⟩ := h
  rfl

/-- Where two launches write channels that read alike, they draw the same values. -/
theorem Kernel.picture_congr {k k' : Kernel} (hvariant : k.variant.FinishesLike k'.variant)
    {source source' : View} {c c' : Nat} {r r' : Request}
    (hreads : source.ReadsLikeOn c source' c' r.sourceWidth r.sourceHeight) {slot slot' : Nat}
    (hslot : k.variant.layout.source? k.variant.channels slot = some c)
    (hslot' : k'.variant.layout.source? k'.variant.channels slot' = some c')
    (hr : r' = { r with table := r'.table }) (x y : Nat) :
    (k.picture source k.variant.dest r x y slot).map Fin.val =
      (k'.picture source' k'.variant.dest r' x y slot').map Fin.val := by
  -- whether the dither table is at hand does not tell in the values
  generalize r'.table = table at hr
  subst hr
  unfold picture
  by_cases hcovers : source.window.Covers r.sourceWidth r.sourceHeight
  · have hcovers' := hreads.covers_iff.1 hcovers
    have hsum : ∀ across down, (⟨source.corner _ _ hcovers, r.mode⟩ : Texture).sum across down c =
        (⟨source'.corner _ _ hcovers', r.mode⟩ : Texture).sum across down c' :=
      Texture.sum_congr rfl (hreads.corner hcovers hcovers')
    rw [dif_pos hcovers, dif_pos hcovers']
    by_cases hregion : x < r.destWidth ∧ y < r.destHeight
    · rw [if_pos hregion, if_pos hregion]
      unfold Pass.picture Pass.valueAt Pass.sampleAt Request.pass
      simp only [hslot, hslot', Option.map_some, Option.some.injEq, hsum]
      exact hvariant.finish_val _ x y
    · rw [if_neg hregion, if_neg hregion]
      rfl
  · rw [dif_neg hcovers, dif_neg (mt hreads.covers_iff.2 hcovers)]
    rfl

end Resample
