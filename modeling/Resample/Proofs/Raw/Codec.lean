import Mathlib.Algebra.GroupWithZero.Nat
import Resample.Proofs.Grid.Packing
import Resample.Proofs.Picture.Geometry
import Resample.Raw.Codec

/-!
# Bytes of frames

A frame and its bytes tell the same, up to what is not visible: bytes are taken apart into planes at the ends
that the shape gives, and into samples there, and put together they are the bytes again; the frame that comes
back from the bytes of another one has rows without padding and shows the same samples. So byte strings of the
length of a shape and visible pictures of the shape correspond to each other.

## Contents

- §1 bytes of samples, §2 bytes of rasters, §3 bytes of frames, §4 frames from bytes, §5 round trips
-/

namespace Resample

/-! ## §1 Bytes of samples -/

namespace Sample

variable {d : Depth}

/-- A sample has the bytes of its container. -/
theorem length_toBytes (s : Sample d) : s.toBytes.length = d.bytes := by
  cases d <;> rfl

/-- The bytes of a sample are its digits to the base of 256, the lowest first. -/
theorem getElem?_toBytes (s : Sample d) {j : Nat} (hj : j < d.bytes) :
    s.toBytes[j]? = some (UInt8.ofNat (s.val / 256 ^ j)) := by
  cases d with
  | eight =>
    obtain rfl : j = 0 := Nat.lt_one_iff.1 hj
    simp [toBytes]
  | sixteen =>
    have hj : j < 2 := hj
    obtain rfl | rfl : j = 0 ∨ j = 1 := by omega
    · simp only [toBytes, List.getElem?_cons_zero, Nat.pow_zero, Nat.div_one, Option.some.injEq]
      exact UInt8.ofNat_mod_size
    · simp [toBytes]

/-- Helper: a byte, made a sample, is the byte of that sample. -/
private theorem toBytes_truncate_eight (b : UInt8) : (truncate .eight b.toNat).toBytes = [b] := by
  have hb := b.toNat_lt
  have hval : (truncate .eight b.toNat).val = b.toNat := Nat.mod_eq_of_lt hb
  simp only [toBytes, hval, UInt8.ofNat_toNat]

/-- Helper: two bytes, made a sample, are the bytes of that sample. -/
private theorem toBytes_truncate_sixteen (low high : UInt8) :
    (truncate .sixteen (low.toNat + 256 * high.toNat)).toBytes = [low, high] := by
  have hlow := low.toNat_lt
  have hhigh := high.toNat_lt
  have hval : (truncate .sixteen (low.toNat + 256 * high.toNat)).val = low.toNat + 256 * high.toNat :=
    Nat.mod_eq_of_lt (show _ < 65536 by omega)
  have hrest : (low.toNat + 256 * high.toNat) % 256 = low.toNat := by omega
  have hquotient : (low.toNat + 256 * high.toNat) / 256 = high.toNat := by omega
  simp only [toBytes, hval, hrest, hquotient, UInt8.ofNat_toNat]

/-- Bytes that are whole samples are the bytes of these samples. -/
theorem toBytes_ofBytes {bytes : List UInt8} {n : Nat} (h : bytes.length = n * d.bytes) :
    (ofBytes d bytes).length = n ∧ (ofBytes d bytes).flatMap toBytes = bytes := by
  induction n generalizing bytes with
  | zero =>
    obtain rfl : bytes = [] := List.eq_nil_of_length_eq_zero (by omega)
    cases d <;> exact ⟨rfl, rfl⟩
  | succ n ih =>
    rw [Nat.succ_mul] at h
    cases d with
    | eight =>
      obtain ⟨b, rest, rfl⟩ : ∃ b rest, bytes = b :: rest := List.exists_cons_of_length_eq_add_one h
      obtain ⟨hlength, hbytes⟩ := ih (Nat.succ.inj h)
      exact ⟨congrArg (· + 1) hlength, congr (congrArg (· ++ ·) (toBytes_truncate_eight b)) hbytes⟩
    | sixteen =>
      obtain ⟨low, rest, rfl⟩ : ∃ b rest, bytes = b :: rest := List.exists_cons_of_length_eq_add_one h
      obtain ⟨high, rest, rfl⟩ : ∃ b rest', rest = b :: rest' :=
        List.exists_cons_of_length_eq_add_one (Nat.succ.inj h)
      obtain ⟨hlength, hbytes⟩ := ih (Nat.succ.inj (Nat.succ.inj h))
      exact ⟨congrArg (· + 1) hlength,
        congr (congrArg (· ++ ·) (toBytes_truncate_sixteen low high)) hbytes⟩

/-- Samples come back from their bytes. -/
theorem ofBytes_toBytes (samples : List (Sample d)) : ofBytes d (samples.flatMap toBytes) = samples := by
  induction samples with
  | nil => cases d <;> rfl
  | cons s rest ih =>
    cases d with
    | eight =>
      -- the byte holds the whole sample
      have hs : truncate .eight (UInt8.ofNat s.val).toNat = s := by
        apply Fin.ext
        have hlt : s.val < 256 := s.isLt
        change (s.val % 256) % 256 = s.val
        omega
      exact congr (congrArg List.cons hs) ih
    | sixteen =>
      -- rest and quotient by 256 make the sample again
      have hs : truncate .sixteen
          ((UInt8.ofNat (s.val % 256)).toNat + 256 * (UInt8.ofNat (s.val / 256)).toNat) = s := by
        apply Fin.ext
        have hlt : s.val < 65536 := s.isLt
        change (s.val % 256 % 256 + 256 * (s.val / 256 % 256)) % 65536 = s.val
        omega
      exact congr (congrArg List.cons hs) ih

end Sample

/-! ## §2 Bytes of rasters -/

/-- Bytes of the visible samples of a raster. -/
def Geometry.byteCount (g : Geometry) : Nat := g.width * g.height * g.channels * g.depth.bytes

/-- Bytes before channel `c` of pixel `(x, y)` of a raster. -/
def Geometry.byteOffset (g : Geometry) (x y c : Nat) : Nat :=
  ((y * g.width + x) * g.channels + c) * g.depth.bytes

namespace Raster

/-- The bytes of a raster. -/
def toBytes (r : Raster) : List UInt8 := r.plane.samples.toList.flatMap Sample.toBytes

/-- Helper: the samples of a plane have one number of bytes. -/
private theorem length_sampleBytes (r : Raster) :
    ∀ s ∈ r.plane.samples.toList, s.toBytes.length = r.depth.bytes := fun s _ => s.length_toBytes

/-- A raster has the bytes that its geometry says. -/
theorem length_toBytes (r : Raster) : r.toBytes.length = r.geometry.byteCount := by
  unfold toBytes
  rw [length_flatMap_of_forall r.length_sampleBytes, Array.length_toList, Plane.samples,
    Window.size_samples]
  unfold Window.rowLength Geometry.byteCount
  rw [← Nat.mul_assoc, Nat.mul_comm r.plane.window.height]
  rfl

/-- The bytes of a sample stand where the geometry says. -/
theorem getElem?_toBytes {r : Raster} {x y c n : Nat} (hn : r.sample? x y c = some n) {j : Nat}
    (hj : j < r.depth.bytes) :
    r.toBytes[r.geometry.byteOffset x y c + j]? = some (UInt8.ofNat (n / 256 ^ j)) := by
  obtain ⟨s, hs, rfl⟩ := Option.map_eq_some_iff.1 hn
  have hsample := r.plane.window.getElem?_samples r.plane.data (Window.contains_of_get?_eq_some hs)
  have hindex : y * r.plane.window.rowLength + (x * r.plane.window.channels + c) =
      (y * r.plane.width + x) * r.plane.channels + c := by
    rw [← Nat.add_assoc, Nat.add_mul, Nat.mul_assoc]
    rfl
  rw [hs, hindex, ← Array.getElem?_toList] at hsample
  exact (getElem?_flatMap_of_forall r.length_sampleBytes hsample hj).trans (Sample.getElem?_toBytes s hj)

/-- Rasters of one geometry have the same bytes if they show the same. -/
theorem toBytes_eq_iff {r r' : Raster} (h : r.geometry = r'.geometry) :
    r.toBytes = r'.toBytes ↔ r.plane.samples.map Fin.val = r'.plane.samples.map Fin.val := by
  obtain ⟨depth, plane⟩ := r
  obtain ⟨depth', plane'⟩ := r'
  obtain rfl : depth = depth' := congrArg Geometry.depth h
  constructor
  · intro hbytes
    have hsamples := congrArg (Sample.ofBytes depth) hbytes
    unfold toBytes at hsamples
    rw [Sample.ofBytes_toBytes, Sample.ofBytes_toBytes] at hsamples
    rw [Array.toList_inj.1 hsamples]
  · intro hvalues
    have hsamples : plane.samples = plane'.samples :=
      (Array.map_inj_right fun _ _ => Fin.ext).1 hvalues
    unfold toBytes
    rw [hsamples]

end Raster

/-! ## §3 Bytes of frames -/

/-- Bytes before channel `c` of pixel `(x, y)` of plane `i` of a picture: the planes before that one, and the
pixels before that one. -/
def Shape.byteOffset (s : Shape) (i x y c : Nat) : Nat :=
  ((List.range i).map s.planeBytes).sum + (s.planeGeometry i).byteOffset x y c

theorem Shape.byteCount_eq_sum (s : Shape) :
    s.byteCount = ((List.range s.format.planeCount).map s.planeBytes).sum := by
  unfold byteCount
  rw [List.sum_eq_foldr, List.foldr_map]

namespace Frame

variable {f g : Frame} {s : Shape}

theorem toBytes_eq_flatMap (f : Frame) : f.toBytes = f.planes.flatMap Raster.toBytes := rfl

/-- Helper: rasters have together the bytes that their geometries say. -/
private theorem length_flatMap_toBytes (rasters : List Raster) :
    (rasters.flatMap Raster.toBytes).length =
      ((rasters.map Raster.geometry).map Geometry.byteCount).sum := by
  rw [List.length_flatMap, List.map_map]
  congr 1
  exact List.map_congr_left fun r _ => r.length_toBytes

/-- A frame of a shape has the bytes that the shape says. -/
theorem Matches.length_toBytes (h : f.Matches s) : f.toBytes.length = s.byteCount := by
  have hgeometry : f.planes.map Raster.geometry = s.geometry := h.geometry
  rw [toBytes_eq_flatMap, length_flatMap_toBytes, hgeometry, Shape.byteCount_eq_sum, Shape.geometry,
    List.map_map]
  rfl

/-- The bytes of a sample stand where the shape says, the low one first. -/
theorem Matches.getElem?_toBytes (h : f.Matches s) {i x y c n : Nat} (hn : f.sample? i x y c = some n)
    {j : Nat} (hj : j < s.format.container.bytes) :
    f.toBytes[s.byteOffset i x y c + j]? = some (UInt8.ofNat (n / 256 ^ j)) := by
  obtain ⟨r, hr, hrn⟩ := Option.bind_eq_some_iff.1 hn
  have hi := h.lt_planeCount hr
  obtain ⟨r', hr', hgeometry⟩ := h.exists_plane hi
  obtain rfl : r = r' := Option.some.inj (hr.symm.trans hr')
  have hdepth : r.depth = s.format.container := congrArg Geometry.depth hgeometry
  have hbytes := Raster.getElem?_toBytes hrn (hdepth ▸ hj)
  -- the planes before this one have the bytes that the shape says
  have hbefore : ((f.planes.take i).flatMap Raster.toBytes).length =
      ((List.range i).map s.planeBytes).sum := by
    have hplanes : f.planes.map Raster.geometry = s.geometry := h.geometry
    rw [length_flatMap_toBytes, List.map_take, hplanes, Shape.geometry, ← List.map_take, List.take_range,
      Nat.min_eq_left (Nat.le_of_lt hi), List.map_map]
    rfl
  unfold Shape.byteOffset
  rw [← hbytes, ← hgeometry, Nat.add_assoc, ← hbefore, toBytes_eq_flatMap]
  exact getElem?_flatMap_of_getElem? hr (List.getElem?_eq_some_iff.1 hbytes).1

/-- Frames of the same geometries have the same bytes if they show the same. -/
theorem toBytes_eq_iff (h : f.geometry = g.geometry) : f.toBytes = g.toBytes ↔ f.visible = g.visible := by
  have hplanes : ∀ rasters rasters' : List Raster,
      rasters.map Raster.geometry = rasters'.map Raster.geometry →
      (rasters.flatMap Raster.toBytes = rasters'.flatMap Raster.toBytes ↔
        rasters.map (fun r => r.plane.samples.map Fin.val) =
          rasters'.map fun r => r.plane.samples.map Fin.val) := by
    intro rasters
    induction rasters with
    | nil =>
      intro rasters' hgeometry
      obtain rfl : rasters' = [] := List.map_eq_nil_iff.1 hgeometry.symm
      exact iff_of_true rfl rfl
    | cons r rest ih =>
      intro rasters' hgeometry
      obtain ⟨r', rest', rfl, hfirst, hrest⟩ := List.map_eq_cons_iff.1 hgeometry.symm
      -- the first planes end at the same place
      have hlength : r.toBytes.length = r'.toBytes.length := by
        rw [r.length_toBytes, r'.length_toBytes, hfirst]
      rw [List.flatMap_cons, List.flatMap_cons, List.map_cons, List.map_cons, List.cons.injEq,
        ← Raster.toBytes_eq_iff hfirst.symm, ← ih rest' hrest.symm]
      exact ⟨fun hbytes => List.append_inj hbytes hlength, fun ⟨hr, hothers⟩ => hr ▸ hothers ▸ rfl⟩
  exact hplanes f.planes g.planes h

/-! ## §4 Frames from bytes -/

/-- Bytes of the length of a plane are a plane. -/
theorem exists_planeOfBytes (hwidth : s.width < 2 ^ 60) {i : Nat} {bytes : List UInt8}
    (hbytes : bytes.length = s.planeBytes i) :
    ∃ r, planeOfBytes s i bytes = .ok r ∧ r.geometry = s.planeGeometry i ∧ r.toBytes = bytes := by
  obtain ⟨hcount, hsamples⟩ := Sample.toBytes_ofBytes (d := s.format.container) hbytes
  have hchannels := s.format.planeChannels_le i
  -- a row has no more than four samples for each pixel of the picture's width
  have hrow : (s.planeSides i).1 * s.format.planeChannels i ≤ Word.top := by
    have hside := (s.planeSides_le i).1
    have hproduct := Nat.mul_le_mul hside hchannels
    have htop : Word.top = 2 ^ 64 - 1 := by decide
    omega
  have hsize : (Sample.ofBytes s.format.container bytes).toArray.size =
      (s.planeSides i).1 * s.format.planeChannels i * (s.planeSides i).2 := by
    rw [List.size_toArray, hcount]
    exact Nat.mul_right_comm ..
  obtain ⟨p, hp⟩ := Plane.exists_ofArray ⟨s.format.planeChannels_pos i, hchannels⟩ hsize hrow
  obtain ⟨hw, hh, hc, hdata⟩ := Plane.eq_of_ofArray hp
  refine ⟨⟨s.format.container, p⟩, bind_eq_ok_iff.2 ⟨p, hp, rfl⟩, ?_, ?_⟩
  · unfold Raster.geometry Shape.planeGeometry
    rw [Geometry.mk.injEq]
    exact ⟨rfl, hw, hh, hc⟩
  · unfold Raster.toBytes
    rw [hdata]
    exact hsamples

/-- Bytes of the length of planes one after another are these planes. -/
theorem exists_planesOfBytes (hwidth : s.width < 2 ^ 60) {indices : List Nat} {bytes : List UInt8}
    (hbytes : bytes.length = (indices.map s.planeBytes).sum) :
    ∃ planes, planesOfBytes s indices bytes = .ok planes ∧
      planes.map Raster.geometry = indices.map s.planeGeometry ∧
      planes.flatMap Raster.toBytes = bytes := by
  induction indices generalizing bytes with
  | nil =>
    obtain rfl : bytes = [] := List.eq_nil_of_length_eq_zero hbytes
    exact ⟨[], rfl, rfl, rfl⟩
  | cons i rest ih =>
    rw [List.map_cons, List.sum_cons] at hbytes
    have hfirst : (bytes.take (s.planeBytes i)).length = s.planeBytes i := by
      rw [List.length_take]
      omega
    have hothers : (bytes.drop (s.planeBytes i)).length = (rest.map s.planeBytes).sum := by
      rw [List.length_drop]
      omega
    -- the first plane takes its bytes, and the others are made of those that follow
    obtain ⟨r, hr, hgeometry, htaken⟩ := exists_planeOfBytes hwidth hfirst
    obtain ⟨planes, hplanes, hgeometries, hdropped⟩ := ih hothers
    refine ⟨r :: planes, bind_eq_ok_iff.2 ⟨r, hr, bind_eq_ok_iff.2 ⟨planes, hplanes, rfl⟩⟩, ?_, ?_⟩
    · rw [List.map_cons, List.map_cons, hgeometry, hgeometries]
    · rw [List.flatMap_cons, htaken, hdropped, List.take_append_drop]

/-- Planes with the geometries of a shape make a frame of it. -/
theorem ofPlanes_of_geometry {planes : List Raster} (h : planes.map Raster.geometry = s.geometry) :
    Frame.ofPlanes s planes = .ok { shape := s, planes, pts := none, aspect := .unknown } := by
  have hfits : s.Fits planes :=
    conforms_iff (f := { shape := s, planes, pts := none, aspect := .unknown }).2 h
  have hnone : misfit? s planes = none := by
    unfold misfit?
    rw [if_neg fun hlength => hlength hfits.1, Option.map_eq_none_iff, List.find?_eq_none]
    intro entry hentry
    simpa using hfits.2 entry hentry
  unfold Frame.ofPlanes
  rw [hnone]

/-- Bytes of the length of a frame are a frame, without presentation time and with an unknown aspect ratio. -/
theorem exists_ofBytes (hwidth : s.width < 2 ^ 60) {bytes : List UInt8}
    (hbytes : bytes.length = s.byteCount) :
    ∃ f, Frame.ofBytes s bytes = .ok f ∧ f.Matches s ∧ f.toBytes = bytes ∧ f.pts = none ∧
      f.aspect = .unknown := by
  obtain ⟨planes, hplanes, hgeometry, htoBytes⟩ :=
    exists_planesOfBytes hwidth (hbytes.trans s.byteCount_eq_sum)
  refine ⟨{ shape := s, planes, pts := none, aspect := .unknown }, ?_, ⟨rfl, hgeometry⟩, htoBytes, rfl, rfl⟩
  unfold Frame.ofBytes
  rw [if_neg fun hne => hne hbytes, hplanes, mapError_ok]
  change (Frame.ofPlanes s planes).mapError (RawError.misfit s) = _
  rw [ofPlanes_of_geometry hgeometry, mapError_ok]

/-- Bytes of another length are none. -/
theorem ofBytes_eq_error {bytes : List UInt8} (hbytes : bytes.length ≠ s.byteCount) :
    Frame.ofBytes s bytes = .error (.length s bytes.length) := by
  unfold Frame.ofBytes
  rw [if_pos hbytes]
  rfl

/-! ## §5 Round trips -/

/-- Bytes are a frame of a shape exactly if they are as many as the shape says, and then they are the bytes
of that frame. A frame of the shape, whatever its strides and its padding, has its bytes where the shape says,
the low byte of a sample first, and no others, and the frame that they are shows the same samples. -/
theorem bytes_round_trip (hwidth : s.width < 2 ^ 60) :
    (∀ bytes, (∃ f, Frame.ofBytes s bytes = .ok f) ↔ bytes.length = s.byteCount) ∧
    (∀ bytes f, Frame.ofBytes s bytes = .ok f → f.Matches s ∧ f.toBytes = bytes) ∧
    ∀ f : Frame, f.Matches s →
      f.toBytes.length = s.byteCount ∧
      (∀ i x y c n, f.sample? i x y c = some n → ∀ j < s.format.container.bytes,
        f.toBytes[s.byteOffset i x y c + j]? = some (UInt8.ofNat (n / 256 ^ j))) ∧
      ∃ g, Frame.ofBytes s f.toBytes = .ok g ∧ g.Matches s ∧ g.visible = f.visible := by
  -- what a frame comes from has the length of one, and that length determines the frame
  have hdecoded : ∀ bytes f, Frame.ofBytes s bytes = .ok f →
      bytes.length = s.byteCount ∧ f.Matches s ∧ f.toBytes = bytes := by
    intro bytes f hf
    by_cases hbytes : bytes.length = s.byteCount
    · obtain ⟨f', hf', hmatches, htoBytes, -⟩ := exists_ofBytes hwidth hbytes
      obtain rfl : f' = f := Except.ok.inj (hf'.symm.trans hf)
      exact ⟨hbytes, hmatches, htoBytes⟩
    · rw [ofBytes_eq_error hbytes] at hf
      cases hf
  refine ⟨fun bytes => ⟨fun ⟨f, hf⟩ => (hdecoded bytes f hf).1, fun hbytes => ?_⟩,
    fun bytes f hf => (hdecoded bytes f hf).2, fun f hf => ⟨hf.length_toBytes, ?_, ?_⟩⟩
  · obtain ⟨f, hf, -⟩ := exists_ofBytes hwidth hbytes
    exact ⟨f, hf⟩
  · exact fun i x y c n hn j hj => hf.getElem?_toBytes hn hj
  · -- the frame that comes back has the same bytes, so it shows the same
    obtain ⟨g, hg, hmatches, htoBytes, -⟩ := exists_ofBytes hwidth hf.length_toBytes
    exact ⟨g, hg, hmatches, (toBytes_eq_iff (hmatches.geometry.trans hf.geometry.symm)).1 htoBytes⟩

/-- A picture of three pixels in a row, of 16 bits, with a chroma plane of two pixels, and behind every row
samples that are not visible. -/
theorem bytes_round_trip_padded :
    ∃ (s : Shape) (f : Frame), s.width < 2 ^ 60 ∧ f.Matches s ∧ s.byteCount = 14 ∧
      (∃ r ∈ f.planes, r.plane.width * r.plane.channels < r.plane.stride) ∧
      f.toBytes = [1, 0, 2, 3, 255, 255, 4, 0, 5, 0, 6, 0, 7, 8] ∧ f.toBytes.length = s.byteCount ∧
      f.toBytes[s.byteOffset 1 1 0 1 + 1]? = some 8 ∧
      (∃ g, Frame.ofBytes s f.toBytes = .ok g ∧ g.visible = f.visible) ∧
      ¬ ∃ g, Frame.ofBytes s (0 :: f.toBytes) = .ok g := by
  let s : Shape := ⟨.p010, 3, 1⟩
  let luma : Raster :=
    ⟨.sixteen, 3, 1, 1, 4, #v[1, 770, 65535, 99].map (Sample.saturate .sixteen), by decide⟩
  let chroma : Raster :=
    ⟨.sixteen, 2, 1, 2, 5, #v[4, 5, 6, 2055, 99].map (Sample.saturate .sixteen), by decide⟩
  let f : Frame := ⟨s, [luma, chroma], none, .unknown⟩
  have hmatches : f.Matches s := by decide
  have hbytes : f.toBytes = [1, 0, 2, 3, 255, 255, 4, 0, 5, 0, 6, 0, 7, 8] := by decide +kernel
  have hsample : f.sample? 1 1 0 1 = some 2055 := by decide +kernel
  obtain ⟨haccepted, -, hframes⟩ := bytes_round_trip (s := s) (by decide)
  obtain ⟨hlength, hplace, g, hg, -, hvisible⟩ := hframes f hmatches
  refine ⟨s, f, by decide, hmatches, by decide, ⟨chroma, by simp [f], by decide⟩, hbytes, hlength,
    hplace 1 1 0 1 2055 hsample 1 (by decide), ⟨g, hg, hvisible⟩, fun hlonger => ?_⟩
  have hwrong := (haccepted _).1 hlonger
  rw [List.length_cons, hlength] at hwrong
  omega

end Frame

end Resample
