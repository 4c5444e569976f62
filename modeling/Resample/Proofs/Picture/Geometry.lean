import Resample.Picture.Frame
import Resample.Proofs.Grid.Writes
import Resample.Proofs.Steps

/-!
# Geometry and samples of frames

A raster is told by its geometry and by the samples that it shows; the padding of its rows is of no
account. The planes of a frame conform to its shape if their geometries are those that the shape asks
for, and two frames are alike if they carry the same properties and show the same samples in planes of
the same geometry.

## Contents

- §1 planes of a format, §2 geometry of rasters, §3 geometry of frames, §4 samples, §5 alike frames,
  §6 copies
-/

namespace Resample

/-! ## §1 Planes of a format -/

/-- A side that has pixels still has some after halvings. -/
theorem halved_pos {side : Nat} (h : 0 < side) (shift : Nat) : 0 < halved side shift := by
  have hpow : 0 < 2 ^ shift := Nat.two_pow_pos shift
  unfold halved
  rw [Nat.shiftRight_eq_div_pow, Nat.one_shiftLeft]
  exact Nat.div_pos (by omega) hpow

/-- Halvings do not make a side longer. -/
theorem halved_le (side shift : Nat) : halved side shift ≤ side := by
  have hpow : 0 < 2 ^ shift := Nat.two_pow_pos shift
  have hside : side ≤ side * 2 ^ shift := Nat.le_mul_of_pos_right _ hpow
  unfold halved
  rw [Nat.shiftRight_eq_div_pow, Nat.one_shiftLeft]
  refine Nat.le_of_lt_succ ((Nat.div_lt_iff_lt_mul hpow).2 ?_)
  rw [Nat.succ_mul]
  omega

/-- Every format has a plane. -/
theorem PixelFormat.planeCount_pos (f : PixelFormat) : 0 < f.planeCount := by
  cases f <;> decide

/-- Every plane of a format has a channel. -/
theorem PixelFormat.planeChannels_pos (f : PixelFormat) (i : Nat) : 0 < f.planeChannels i := by
  unfold planeChannels
  cases f <;> by_cases hi : i = 1 <;> simp [layout, hi]

/-- No plane of a format has many channels. -/
theorem PixelFormat.planeChannels_le (f : PixelFormat) (i : Nat) : f.planeChannels i ≤ 4 := by
  unfold planeChannels
  cases f <;> by_cases hi : i = 1 <;> simp [layout, hi]

/-- A format of a narrower container has fewer bits. -/
theorem PixelFormat.bits_lt_of_container {f g : PixelFormat} (h : f.container.bits < g.container.bits) :
    f.bits < g.bits := by
  unfold container at h
  by_cases hf : 8 < f.bits
  · rw [if_pos hf] at h
    split at h <;> exact absurd h (by decide)
  · rw [if_neg hf] at h
    split at h
    · omega
    · exact absurd h (by decide)

namespace Shape

/-- The planes of a picture that has pixels have pixels. -/
theorem planeSides_pos {s : Shape} (hwidth : 0 < s.width) (hheight : 0 < s.height) (i : Nat) :
    0 < (s.planeSides i).1 ∧ 0 < (s.planeSides i).2 := by
  unfold planeSides PixelFormat.planeSides chromaSides
  split
  · exact ⟨hwidth, hheight⟩
  · exact ⟨halved_pos hwidth _, halved_pos hheight _⟩

/-- No plane of a picture has longer sides than the picture. -/
theorem planeSides_le (s : Shape) (i : Nat) :
    (s.planeSides i).1 ≤ s.width ∧ (s.planeSides i).2 ≤ s.height := by
  unfold planeSides PixelFormat.planeSides chromaSides
  split
  · exact ⟨Nat.le_refl _, Nat.le_refl _⟩
  · exact ⟨halved_le .., halved_le ..⟩

end Shape

/-! ## §2 Geometry of rasters -/

/-- What a raster is besides its samples and its padding. -/
structure Geometry where
  depth : Depth
  width : Nat
  height : Nat
  channels : Nat
deriving DecidableEq, Repr

/-- The geometry of a raster. -/
def Raster.geometry (r : Raster) : Geometry :=
  ⟨r.depth, r.plane.width, r.plane.height, r.plane.channels⟩

/-- The geometry that a shape asks for in plane `i`. -/
def Shape.planeGeometry (s : Shape) (i : Nat) : Geometry :=
  ⟨s.format.container, (s.planeSides i).1, (s.planeSides i).2, s.format.planeChannels i⟩

/-- A raster fits as plane `i` if it has the geometry of that plane. -/
theorem Shape.planeFits_iff {s : Shape} {i : Nat} {r : Raster} :
    s.PlaneFits i r ↔ r.geometry = s.planeGeometry i := by
  unfold PlaneFits Raster.geometry planeGeometry
  rw [Geometry.mk.injEq, Prod.ext_iff]
  constructor
  · rintro ⟨⟨hwidth, hheight⟩, hchannels, hdepth⟩
    exact ⟨hdepth, hwidth, hheight, hchannels⟩
  · rintro ⟨hdepth, hwidth, hheight, hchannels⟩
    exact ⟨⟨hwidth, hheight⟩, hchannels, hdepth⟩

/-- A raster of zeros has rows that are long enough, and fits into memory. -/
theorem Raster.exists_of_zeros {depth : Depth} {width height channels : Nat} {r : Raster}
    (h : Raster.zeros depth width height channels = .ok r) :
    ∃ (stride : Nat) (hrow : width * channels ≤ stride), stride * height < Plane.unallocatable ∧
      r = ⟨depth, ⟨width, height, channels, stride, Vector.replicate _ default, hrow⟩⟩ := by
  unfold Raster.zeros at h
  simp only at h
  split at h
  · obtain ⟨plane, hplane, hraster⟩ := bind_eq_ok_iff.1 h
    cases hraster
    unfold Plane.padded at hplane
    obtain ⟨-, -, hplane⟩ := bind_eq_ok_iff.1 hplane
    split at hplane
    · next hrow =>
      split at hplane
      · next hsize =>
        cases hplane
        exact ⟨_, hrow, hsize, rfl⟩
      · cases hplane
    · cases hplane
  · cases h

/-- The raster of zeros has the geometry that was asked for. -/
theorem Raster.geometry_zeros {depth : Depth} {width height channels : Nat} {r : Raster}
    (h : Raster.zeros depth width height channels = .ok r) :
    r.geometry = ⟨depth, width, height, channels⟩ := by
  obtain ⟨stride, hrow, -, rfl⟩ := Raster.exists_of_zeros h
  rfl

/-- A raster that is not empty can be made only if its sides are not too long. -/
theorem Raster.sides_lt_of_zeros {depth : Depth} {width height channels : Nat} {r : Raster}
    (h : Raster.zeros depth width height channels = .ok r) (hwidth : 0 < width) (hheight : 0 < height)
    (hchannels : 0 < channels) : width < Plane.unallocatable ∧ height < Plane.unallocatable := by
  obtain ⟨stride, hrow, hsize, -⟩ := Raster.exists_of_zeros h
  have hlong : width ≤ stride := Nat.le_trans (Nat.le_mul_of_pos_right _ hchannels) hrow
  exact ⟨Nat.lt_of_le_of_lt (Nat.le_trans hlong (Nat.le_mul_of_pos_right _ hheight)) hsize,
    Nat.lt_of_le_of_lt (Nat.le_mul_of_pos_left _ (by omega)) hsize⟩

/-- A raster of zeros of a few channels can be made if its rows, aligned, fit into memory. -/
theorem Raster.exists_zeros {depth : Depth} {width height channels : Nat} (hpos : 0 < channels)
    (hchannels : channels ≤ 4) (hrow : 4 * width + alignment ≤ Word.top)
    (hsize : (4 * width + alignment) * height < Plane.unallocatable) :
    ∃ r, Raster.zeros depth width height channels = .ok r := by
  have hlength : width * channels ≤ 4 * width := by
    rw [Nat.mul_comm 4]
    exact Nat.mul_le_mul_left _ hchannels
  have hunit : 0 < alignment := by decide
  -- a row is aligned upwards, by less than a unit
  have hstride : width * channels ≤ (width * channels + alignment - 1) / alignment * alignment ∧
      (width * channels + alignment - 1) / alignment * alignment ≤ 4 * width + alignment := by
    have hdiv := Nat.div_add_mod (width * channels + alignment - 1) alignment
    have hmod := Nat.mod_lt (width * channels + alignment - 1) hunit
    rw [Nat.mul_comm alignment] at hdiv
    omega
  have hfits : (width * channels + alignment - 1) / alignment * alignment * height <
      Plane.unallocatable := Nat.lt_of_le_of_lt (Nat.mul_le_mul_right _ hstride.2) hsize
  unfold Raster.zeros Plane.padded checkChannels
  simp only
  rw [if_pos (by omega), if_pos ⟨hpos, hchannels⟩, dif_pos hstride.1, if_pos hfits]
  exact ⟨_, rfl⟩

/-! ## §3 Geometry of frames -/

/-- The geometries of the planes of a shape. -/
def Shape.geometry (s : Shape) : List Geometry :=
  (List.range s.format.planeCount).map s.planeGeometry

namespace Frame

/-- The geometries of the planes of a frame. -/
def geometry (f : Frame) : List Geometry := f.planes.map Raster.geometry

theorem getElem?_geometry (f : Frame) (i : Nat) :
    f.geometry[i]? = (f.plane? i).map Raster.geometry := List.getElem?_map

/-- The planes of a frame conform if they have the geometries that the shape asks for. -/
theorem conforms_iff {f : Frame} : f.Conforms ↔ f.geometry = f.shape.geometry := by
  unfold Conforms Shape.Fits geometry Shape.geometry
  constructor
  · -- plane for plane, since there are as many
    rintro ⟨hlength, hfits⟩
    apply List.ext_getElem (by simpa using hlength)
    intro i hi _
    have hlt : i < f.planes.length := by simpa using hi
    have hmem : (f.planes[i], i) ∈ f.planes.zipIdx :=
      List.mk_mem_zipIdx_iff_getElem?.2 (List.getElem?_eq_getElem _)
    rw [List.getElem_map, List.getElem_map, List.getElem_range]
    exact Shape.planeFits_iff.1 (hfits _ hmem)
  · intro h
    have hlength : f.planes.length = f.shape.format.planeCount := by
      simpa using congrArg List.length h
    refine ⟨hlength, ?_⟩
    rintro ⟨r, i⟩ hmem
    have hplane : f.planes[i]? = some r := List.mk_mem_zipIdx_iff_getElem?.1 hmem
    have hi : i < f.planes.length := (List.getElem?_eq_some_iff.1 hplane).1
    have hentry := congrArg (·[i]?) h
    simp only [List.getElem?_map, hplane, List.getElem?_range (hlength ▸ hi), Option.map_some,
      Option.some.injEq] at hentry
    exact Shape.planeFits_iff.2 hentry

/-- A frame with another plane of the same geometry has the same geometries. -/
theorem geometry_setPlane {f : Frame} {i : Nat} {old r : Raster} (hold : f.plane? i = some old)
    (h : r.geometry = old.geometry) : (f.setPlane i r).geometry = f.geometry := by
  unfold geometry setPlane
  rw [List.map_set]
  apply List.ext_getElem?
  intro j
  rw [List.getElem?_set]
  split
  · next hij =>
    subst hij
    -- the new plane stands where the old one stood
    obtain ⟨hlt, hget⟩ := List.getElem?_eq_some_iff.1 hold
    rw [if_pos (by simpa using hlt), List.getElem?_map, List.getElem?_eq_getElem hlt, hget, h]
    rfl
  · rfl

/-- A frame is of a shape: it is declared to be, and its planes conform. -/
structure Matches (f : Frame) (s : Shape) : Prop where
  shape : f.shape = s
  geometry : f.geometry = s.geometry

instance (f : Frame) (s : Shape) : Decidable (f.Matches s) :=
  decidable_of_iff (f.shape = s ∧ f.geometry = s.geometry)
    ⟨fun h => ⟨h.1, h.2⟩, fun h => ⟨h.shape, h.geometry⟩⟩

theorem matches_iff {f : Frame} {s : Shape} : f.Matches s ↔ f.shape = s ∧ f.Conforms := by
  constructor
  · intro h
    exact ⟨h.shape, conforms_iff.2 (h.shape ▸ h.geometry)⟩
  · rintro ⟨rfl, h⟩
    exact ⟨rfl, conforms_iff.1 h⟩

/-- A frame of a shape has the planes of the shape. -/
theorem Matches.exists_plane {f : Frame} {s : Shape} (h : f.Matches s) {i : Nat}
    (hi : i < s.format.planeCount) : ∃ r, f.plane? i = some r ∧ r.geometry = s.planeGeometry i := by
  have hentry := f.getElem?_geometry i
  rw [h.geometry, Shape.geometry, List.getElem?_map, List.getElem?_range hi, Option.map_some] at hentry
  obtain ⟨r, hr, hgeometry⟩ := Option.map_eq_some_iff.1 hentry.symm
  exact ⟨r, hr, hgeometry⟩

/-- A frame of a shape has no other planes than those of the shape. -/
theorem Matches.lt_planeCount {f : Frame} {s : Shape} (h : f.Matches s) {i : Nat} {r : Raster}
    (hplane : f.plane? i = some r) : i < s.format.planeCount := by
  have hlength : f.planes.length = s.format.planeCount := by
    simpa [Frame.geometry, Shape.geometry] using congrArg List.length h.geometry
  exact hlength ▸ (List.getElem?_eq_some_iff.1 hplane).1

/-- A new frame is of its shape. -/
theorem matches_zeros {s : Shape} {f : Frame} (h : Frame.zeros s = .ok f) : f.Matches s := by
  obtain ⟨planes, hplanes, hframe⟩ := bind_eq_ok_iff.1 h
  cases hframe
  exact ⟨rfl, map_eq_of_mapM_eq_ok (fun i r hr => Raster.geometry_zeros hr) hplanes⟩

/-- A picture that is not too large can be made. -/
theorem exists_zeros {s : Shape} (hrow : 4 * s.width + Raster.alignment ≤ Word.top)
    (hsize : (4 * s.width + Raster.alignment) * s.height < Plane.unallocatable) :
    ∃ f, Frame.zeros s = .ok f := by
  have hplane : ∀ i ∈ List.range s.format.planeCount, ∃ r,
      Raster.zeros s.format.container (s.planeSides i).1 (s.planeSides i).2 (s.format.planeChannels i) =
        .ok r := by
    rintro i -
    obtain ⟨hwidth, hheight⟩ := s.planeSides_le i
    refine Raster.exists_zeros (s.format.planeChannels_pos i) (s.format.planeChannels_le i) (by omega) ?_
    exact Nat.lt_of_le_of_lt (Nat.mul_le_mul (by omega) hheight) hsize
  obtain ⟨planes, hplanes⟩ := exists_mapM_eq_ok hplane
  exact ⟨_, bind_eq_ok_iff.2 ⟨planes, hplanes, rfl⟩⟩

/-- The rows of all planes of a frame are of a length that can be allocated. -/
def ShortRows (f : Frame) : Prop := ∀ r ∈ f.planes, r.plane.stride < Plane.unallocatable

/-- The rows of a new frame that has pixels are of such a length. -/
theorem shortRows_zeros {s : Shape} {f : Frame} (h : Frame.zeros s = .ok f) (hwidth : 0 < s.width)
    (hheight : 0 < s.height) : f.ShortRows := by
  obtain ⟨planes, hplanes, hframe⟩ := bind_eq_ok_iff.1 h
  cases hframe
  intro r hr
  obtain ⟨i, -, hraster⟩ := exists_of_mem_mapM_ok hplanes hr
  obtain ⟨stride, hrow, hsize, rfl⟩ := Raster.exists_of_zeros hraster
  exact Nat.lt_of_le_of_lt (Nat.le_mul_of_pos_right _ (Shape.planeSides_pos hwidth hheight i).2) hsize

/-- A picture that is not empty can be made only if its sides are not too long. -/
theorem sides_lt_of_zeros {s : Shape} {f : Frame} (h : Frame.zeros s = .ok f) (hwidth : 0 < s.width)
    (hheight : 0 < s.height) : s.width < Plane.unallocatable ∧ s.height < Plane.unallocatable := by
  obtain ⟨planes, hplanes, -⟩ := bind_eq_ok_iff.1 h
  have hplane : 0 ∈ List.range s.format.planeCount := List.mem_range.2 s.format.planeCount_pos
  obtain ⟨r, hr⟩ := exists_eq_ok_of_mapM hplanes hplane
  exact Raster.sides_lt_of_zeros hr hwidth hheight (s.format.planeChannels_pos 0)

end Frame

/-! ## §4 Samples -/

/-- The value of channel `c` of pixel `(x, y)`. -/
def Raster.sample? (r : Raster) (x y c : Nat) : Option Nat :=
  (r.plane.window.get? r.plane.data x y c).map Fin.val

/-- The samples of other data are in the places where those of the raster were. -/
theorem Raster.sample?_withData (r : Raster) (data : Vector (Sample r.depth) _) (x y c : Nat) :
    (r.withData data).sample? x y c = (r.plane.window.get? data x y c).map Fin.val := rfl

/-- A raster has exactly the samples of its geometry. -/
theorem Raster.isSome_sample?_iff {r : Raster} {x y c : Nat} :
    (r.sample? x y c).isSome ↔
      x < r.geometry.width ∧ y < r.geometry.height ∧ c < r.geometry.channels := by
  unfold Raster.sample?
  rw [Option.isSome_map, Window.isSome_get?_iff]
  rfl

/-- The value of channel `c` of pixel `(x, y)` of plane `i`. -/
def Frame.sample? (f : Frame) (i x y c : Nat) : Option Nat :=
  (f.plane? i).bind fun r => r.sample? x y c

/-- A raster with another value in channel `c` of pixel `(x, y)`. -/
def Raster.put (r : Raster) (x y c : Nat) (v : Sample r.depth) : Raster :=
  r.withData (r.plane.data.setIfInBounds (r.plane.window.position x y c) v)

/-- The value that was put is the only one that changes. -/
theorem Raster.sample?_put {r : Raster} {x y c : Nat} (hin : r.plane.window.Contains x y c)
    (v : Sample r.depth) (x' y' c' : Nat) :
    (r.put x y c v).sample? x' y' c' =
      if x' = x ∧ y' = y ∧ c' = c then some v.val else r.sample? x' y' c' := by
  unfold put
  rw [sample?_withData, sample?]
  by_cases hin' : r.plane.window.Contains x' y' c'
  · rw [Window.get?_of_contains hin', Window.get?_of_contains hin', Option.map_some, Option.map_some,
      Vector.getElem_setIfInBounds]
    by_cases hplace : r.plane.window.position x y c = r.plane.window.position x' y' c'
    · obtain ⟨rfl, rfl, rfl⟩ := hin.eq_of_position_eq hin' hplace
      rw [if_pos rfl, if_pos ⟨rfl, rfl, rfl⟩]
    · rw [if_neg hplace, if_neg]
      rintro ⟨rfl, rfl, rfl⟩
      exact hplace rfl
  · rw [Window.get?_of_not_contains hin', Window.get?_of_not_contains hin', if_neg]
    rintro ⟨rfl, rfl, rfl⟩
    exact hin' hin

/-- Whether the pictures of a shape have a channel `c` of a pixel `(x, y)` in a plane `i`. -/
def Shape.HasSample (s : Shape) (i x y c : Nat) : Prop :=
  i < s.format.planeCount ∧ x < (s.planeGeometry i).width ∧ y < (s.planeGeometry i).height ∧
    c < (s.planeGeometry i).channels

/-- The first plane of a picture has the sides of the picture. -/
theorem Shape.hasSample_first {s : Shape} {x y : Nat} (hx : x < s.width) (hy : y < s.height) :
    s.HasSample 0 x y 0 :=
  ⟨s.format.planeCount_pos, hx, hy, s.format.planeChannels_pos 0⟩

/-- A frame of a shape has exactly the samples of the shape. -/
theorem Frame.Matches.isSome_sample?_iff {f : Frame} {s : Shape} (h : f.Matches s) {i x y c : Nat} :
    (f.sample? i x y c).isSome ↔ s.HasSample i x y c := by
  unfold Shape.HasSample
  by_cases hi : i < s.format.planeCount
  · obtain ⟨r, hr, hgeometry⟩ := h.exists_plane hi
    rw [Frame.sample?, hr, Option.bind_some, Raster.isSome_sample?_iff, hgeometry]
    exact (and_iff_right hi).symm
  · -- neither the frame nor the shape has such a plane
    have hnone : f.plane? i = none :=
      Option.eq_none_iff_forall_ne_some.2 fun r hr => hi (h.lt_planeCount hr)
    simp [Frame.sample?, hnone, hi]

/-- No sample is greater than its container allows. -/
theorem Frame.Matches.sample?_le_top {f : Frame} {s : Shape} (h : f.Matches s) {i x y c n : Nat}
    (hn : f.sample? i x y c = some n) : n ≤ s.format.container.top := by
  obtain ⟨r, hr, hrn⟩ := Option.bind_eq_some_iff.1 hn
  obtain ⟨v, -, rfl⟩ := Option.map_eq_some_iff.1 hrn
  obtain ⟨r', hr', hgeometry⟩ := h.exists_plane (h.lt_planeCount hr)
  obtain rfl : r = r' := Option.some.inj (hr.symm.trans hr')
  have hdepth : r.depth = s.format.container := congrArg Geometry.depth hgeometry
  exact hdepth ▸ Sample.le_top v

/-- All samples of a new frame are zero. -/
theorem Frame.sample?_zeros {s : Shape} {f : Frame} (h : Frame.zeros s = .ok f) {i x y c : Nat}
    (hsample : s.HasSample i x y c) : f.sample? i x y c = some 0 := by
  have hsome := (matches_zeros h).isSome_sample?_iff.2 hsample
  obtain ⟨planes, hplanes, hframe⟩ := bind_eq_ok_iff.1 h
  cases hframe
  obtain ⟨n, hn⟩ := Option.isSome_iff_exists.1 hsome
  obtain ⟨r, hr, hrn⟩ := Option.bind_eq_some_iff.1 hn
  obtain ⟨i', -, hraster⟩ := exists_of_mem_mapM_ok hplanes (List.mem_of_getElem? hr)
  obtain ⟨stride, hrow, -, rfl⟩ := Raster.exists_of_zeros hraster
  obtain ⟨v, hv, rfl⟩ := Option.map_eq_some_iff.1 hrn
  have hin := Window.contains_of_get?_eq_some hv
  rw [Window.get?_of_contains hin] at hv
  -- every sample of the buffer is the first value of the depth
  rw [hn, ← Option.some.inj hv, Vector.getElem_replicate]
  rfl

/-- Another plane changes the samples of that plane only. -/
theorem Frame.sample?_setPlane {f : Frame} {i : Nat} {old r : Raster} (hold : f.plane? i = some old)
    (j x y c : Nat) :
    (f.setPlane i r).sample? j x y c = if i = j then r.sample? x y c else f.sample? j x y c := by
  have hi : i < f.planes.length := (List.getElem?_eq_some_iff.1 hold).1
  unfold Frame.sample? plane? setPlane
  rw [List.getElem?_set, if_pos hi]
  split <;> rfl

/-! ## §5 Alike frames -/

/-- Two frames are alike: they carry the same properties, their planes have the same geometries, and
every sample of the one is the sample of the other. -/
structure Frame.Alike (f g : Frame) : Prop where
  shape : f.shape = g.shape
  pts : f.pts = g.pts
  aspect : f.aspect = g.aspect
  geometry : f.geometry = g.geometry
  sample : ∀ i x y c, f.sample? i x y c = g.sample? i x y c

/-- Rasters of one geometry that show the same samples have the same rows. -/
theorem Raster.samples_eq {r r' : Raster} (hgeometry : r.geometry = r'.geometry)
    (hsample : ∀ x y c, r.sample? x y c = r'.sample? x y c) :
    r.plane.samples.map Fin.val = r'.plane.samples.map Fin.val := by
  have hsides := Geometry.mk.inj hgeometry
  exact Window.samples_map_congr ⟨hsides.2.1.symm, hsides.2.2.1.symm, hsides.2.2.2.symm⟩ hsample

/-- Frames of the same geometries that show the same samples have the same rows. -/
theorem Frame.visible_eq_of_sample? {f g : Frame} (hgeometry : f.geometry = g.geometry)
    (hsample : ∀ i x y c, f.sample? i x y c = g.sample? i x y c) : f.visible = g.visible := by
  unfold visible
  apply List.ext_getElem?
  intro i
  rw [List.getElem?_map, List.getElem?_map]
  -- the frames have the same number of planes, since they have the same number of geometries
  have hentry := congrArg (·[i]?) hgeometry
  simp only [Frame.getElem?_geometry, plane?] at hentry
  have hplane := hsample i
  simp only [Frame.sample?, plane?] at hplane
  cases hf : f.planes[i]? with
  | none =>
    cases hg : g.planes[i]? with
    | none => rfl
    | some r' => simp [hf, hg] at hentry
  | some r =>
    cases hg : g.planes[i]? with
    | none => simp [hf, hg] at hentry
    | some r' =>
      simp only [hf, hg, Option.map_some, Option.some.injEq, Option.bind_some] at hentry hplane ⊢
      exact Raster.samples_eq hentry hplane

/-! ## §6 Copies -/

/-- A copy between rasters of one geometry is made, and shows the samples of the source. -/
theorem Raster.exists_copyFrom {r source : Raster} (h : source.geometry = r.geometry) :
    ∃ copied, r.copyFrom source = .ok copied ∧ copied.geometry = r.geometry ∧
      ∀ x y c, copied.sample? x y c = source.sample? x y c := by
  obtain ⟨depth, plane⟩ := r
  obtain ⟨sourceDepth, sourcePlane⟩ := source
  -- of one depth, the samples are of one type
  obtain ⟨rfl, hwidth, hheight, hchannels⟩ := Geometry.mk.inj h
  have hshape : plane.window.SameShape sourcePlane.window := ⟨hwidth, hheight, hchannels⟩
  refine ⟨⟨_, { plane with
    data := plane.window.putAll plane.data sourcePlane.window sourcePlane.data }⟩, ?_, rfl, ?_⟩
  · unfold Raster.copyFrom Plane.copyFrom
    rw [dif_pos rfl, if_pos hshape]
    rfl
  · intro x y c
    exact congrArg (Option.map Fin.val) (Window.get?_putAll hshape plane.data sourcePlane.data x y c)

/-- A copy is made only between rasters of one geometry. -/
theorem Raster.geometry_eq_of_copyFrom {r source copied : Raster}
    (h : r.copyFrom source = .ok copied) : source.geometry = r.geometry := by
  obtain ⟨depth, plane⟩ := r
  obtain ⟨sourceDepth, sourcePlane⟩ := source
  unfold Raster.copyFrom Plane.copyFrom at h
  by_cases hdepth : sourceDepth = depth
  · subst hdepth
    rw [dif_pos rfl] at h
    by_cases hshape : plane.window.SameShape sourcePlane.window
    · obtain ⟨hwidth, hheight, hchannels⟩ := hshape
      unfold Raster.geometry
      rw [Geometry.mk.injEq]
      exact ⟨rfl, hwidth, hheight, hchannels⟩
    · rw [if_neg hshape] at h
      exact absurd h (by simp [bind, Except.bind])
  · rw [dif_neg hdepth] at h
    exact absurd h (by simp [throw, throwThe, MonadExceptOf.throw])

end Resample
