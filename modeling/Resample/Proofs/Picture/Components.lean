import Resample.Proofs.Picture.Geometry

/-!
# Components of a picture

The components of a picture are numbered from the first one on, whatever planes and channels they are spread
over: luma and both chroma components, or the channels of a packed picture. A layout places each of them in a
plane and a channel of it, and every channel of every plane is the place of one. How large a component is
depends on the sides of the picture and on the halvings of its chroma, but not on the layout.

## Contents

- §1 places, §2 sides of components, §3 components of frames
-/

namespace Resample

/-! ## §1 Places -/

namespace PlaneLayout

/-- Number of components. -/
def components : PlaneLayout → Nat
  | packed channels => channels
  | planar | semiPlanar => 3

/-- The plane of component `j`, and its channel there. -/
def place : PlaneLayout → Nat → Nat × Nat
  | packed _, j => (0, j)
  | planar, j => (j, 0)
  | semiPlanar, 0 => (0, 0)
  | semiPlanar, j + 1 => (1, j)

end PlaneLayout

namespace PixelFormat

variable {f g : PixelFormat}

/-- The places of the components are channels of the planes, and there are no components beyond. -/
theorem place_lt_iff {j : Nat} :
    (f.layout.place j).1 < f.planeCount ∧
        (f.layout.place j).2 < f.planeChannels (f.layout.place j).1 ↔
      j < f.layout.components := by
  unfold planeCount planeChannels
  cases f.layout with
  | packed channels => simp [PlaneLayout.place, PlaneLayout.components]
  | planar => simp [PlaneLayout.place, PlaneLayout.components]
  | semiPlanar =>
    cases j with
    | zero => simp [PlaneLayout.place, PlaneLayout.components]
    | succ j =>
      simp only [PlaneLayout.place, PlaneLayout.components, if_true]
      omega

/-- Every channel of every plane is the place of a component. -/
theorem exists_place {i c : Nat} (hi : i < f.planeCount) (hc : c < f.planeChannels i) :
    ∃ j, f.layout.place j = (i, c) := by
  unfold planeCount at hi
  unfold planeChannels at hc
  cases hlayout : f.layout with
  | packed channels =>
    rw [hlayout] at hi
    exact ⟨c, by rw [PlaneLayout.place, Nat.lt_one_iff.1 hi]⟩
  | planar =>
    rw [hlayout] at hc
    exact ⟨i, by rw [PlaneLayout.place, Nat.lt_one_iff.1 hc]⟩
  | semiPlanar =>
    rw [hlayout] at hi hc
    simp only at hi hc
    by_cases hchroma : i = 1
    · exact ⟨c + 1, by rw [PlaneLayout.place, hchroma]⟩
    · rw [if_neg hchroma] at hc
      exact ⟨0, by rw [PlaneLayout.place, show i = 0 by omega, Nat.lt_one_iff.1 hc]⟩

/-! ## §2 Sides of components -/

/-- Two formats have chroma of the same sides. -/
def SameSubsampling (f g : PixelFormat) : Prop :=
  f.chromaShiftX = g.chromaShiftX ∧ f.chromaShiftY = g.chromaShiftY

instance (f g : PixelFormat) : Decidable (f.SameSubsampling g) := inferInstanceAs (Decidable (_ ∧ _))

/-- Two formats differ in their layout only, as far as samples are concerned: they have the same containers,
and chroma of the same sides. -/
structure SameSamples (f g : PixelFormat) : Prop where
  subsampling : f.SameSubsampling g
  container : f.container = g.container

/-- Packed formats have no smaller components. -/
theorem shifts_of_packed {channels : Nat} (h : f.layout = .packed channels) :
    f.chromaShiftX = 0 ∧ f.chromaShiftY = 0 := by
  cases f <;> first | exact ⟨rfl, rfl⟩ | simp [layout] at h

end PixelFormat

namespace Shape

/-- Sides of component `j`. -/
def componentSides (s : Shape) (j : Nat) : Nat × Nat :=
  if j = 0 then (s.width, s.height)
  else chromaSides s.width s.height s.format.chromaShiftX s.format.chromaShiftY

/-- A component is as large as the plane that it is placed in. -/
theorem planeSides_place (s : Shape) (j : Nat) :
    s.planeSides (s.format.layout.place j).1 = s.componentSides j := by
  unfold planeSides PixelFormat.planeSides componentSides
  cases hlayout : s.format.layout with
  | packed channels =>
    -- without halvings, chroma has the sides of the picture
    obtain ⟨hx, hy⟩ := PixelFormat.shifts_of_packed hlayout
    rw [hx, hy]
    simp [PlaneLayout.place, chromaSides, halved]
  | planar => rfl
  | semiPlanar => cases j <;> rfl

/-- The components of a picture that has pixels have pixels. -/
theorem componentSides_pos {s : Shape} (hwidth : 0 < s.width) (hheight : 0 < s.height) (j : Nat) :
    0 < (s.componentSides j).1 ∧ 0 < (s.componentSides j).2 := by
  rw [← planeSides_place]
  exact planeSides_pos hwidth hheight _

/-- The sides of components do not depend on the layout. -/
theorem componentSides_congr {f g : PixelFormat} (h : f.SameSubsampling g) (width height j : Nat) :
    componentSides ⟨f, width, height⟩ j = componentSides ⟨g, width, height⟩ j := by
  unfold componentSides
  rw [h.1, h.2]

/-- Whether the pictures of a shape have a pixel `(x, y)` of component `j`. -/
def HasComponent (s : Shape) (j x y : Nat) : Prop :=
  j < s.format.layout.components ∧ x < (s.componentSides j).1 ∧ y < (s.componentSides j).2

/-- A shape has the pixels of a component in its place. -/
theorem hasSample_place_iff {s : Shape} {j x y : Nat} :
    s.HasSample (s.format.layout.place j).1 x y (s.format.layout.place j).2 ↔ s.HasComponent j x y := by
  unfold HasSample HasComponent planeGeometry
  simp only [planeSides_place]
  rw [← PixelFormat.place_lt_iff]
  constructor
  · rintro ⟨hi, hx, hy, hc⟩
    exact ⟨⟨hi, hc⟩, hx, hy⟩
  · rintro ⟨⟨hi, hc⟩, hx, hy⟩
    exact ⟨hi, hx, hy, hc⟩

end Shape

/-! ## §3 Components of frames -/

namespace Frame

/-- The value of pixel `(x, y)` of component `j`. -/
def component? (f : Frame) (j x y : Nat) : Option Nat :=
  f.sample? (f.shape.format.layout.place j).1 x y (f.shape.format.layout.place j).2

/-- A frame of a shape has exactly the components of the shape. -/
theorem Matches.isSome_component?_iff {f : Frame} {s : Shape} (h : f.Matches s) {j x y : Nat} :
    (f.component? j x y).isSome ↔ s.HasComponent j x y := by
  unfold component?
  rw [h.isSome_sample?_iff, h.shape, Shape.hasSample_place_iff]

/-- A frame that has pixels tells by them how many components there are. -/
theorem Matches.lt_components_iff {f : Frame} {s : Shape} (h : f.Matches s) (hwidth : 0 < s.width)
    (hheight : 0 < s.height) {j : Nat} : j < s.format.layout.components ↔ (f.component? j 0 0).isSome := by
  rw [h.isSome_component?_iff]
  exact (and_iff_left (Shape.componentSides_pos hwidth hheight j)).symm

/-- Frames with equal components have as many of them. -/
theorem Matches.components_eq {f g : Frame} {s t : Shape} (hf : f.Matches s) (hg : g.Matches t)
    (hs : 0 < s.width ∧ 0 < s.height) (ht : 0 < t.width ∧ 0 < t.height)
    (h : ∀ j x y, f.component? j x y = g.component? j x y) :
    s.format.layout.components = t.format.layout.components := by
  have hlt : ∀ j, j < s.format.layout.components ↔ j < t.format.layout.components := by
    intro j
    rw [hf.lt_components_iff hs.1 hs.2, hg.lt_components_iff ht.1 ht.2, h]
  have hself := hlt s.format.layout.components
  have hother := hlt t.format.layout.components
  omega

/-- Frames of a shape with the same components have the same rows. -/
theorem visible_eq_of_component? {f g : Frame} {s : Shape} (hf : f.Matches s) (hg : g.Matches s)
    (h : ∀ j x y, s.HasComponent j x y → f.component? j x y = g.component? j x y) :
    f.visible = g.visible := by
  refine visible_eq_of_sample? (hf.geometry.trans hg.geometry.symm) fun i x y c => ?_
  by_cases hsample : s.HasSample i x y c
  · -- a sample is a component in its place
    obtain ⟨j, hj⟩ := PixelFormat.exists_place hsample.1 hsample.2.2.2
    have hcomponent := h j x y (Shape.hasSample_place_iff.1 (by rwa [hj]))
    unfold component? at hcomponent
    rwa [hf.shape, hg.shape, hj] at hcomponent
  · rw [Option.not_isSome_iff_eq_none.1 (mt hf.isSome_sample?_iff.1 hsample),
      Option.not_isSome_iff_eq_none.1 (mt hg.isSome_sample?_iff.1 hsample)]

end Frame

end Resample
