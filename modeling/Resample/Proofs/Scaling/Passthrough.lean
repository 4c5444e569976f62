import Resample.Proofs.Kernel.Identity
import Resample.Proofs.Scaling.Run

/-!
# Copying and launching

Where the shape stays the same, a scaler may copy the planes or launch its kernels. Both give the same
frames as long as the center of every pixel is a value of the 32-bit format, that is up to `2 ^ 23` pixels a
side. In a picture that is longer, the kernels mix the texels of the first pixel beyond that with those of
its neighbour, and the results differ.

## Contents

- §1 scalers that keep the shape, §2 short pictures, §3 long pictures, §4 both ways compared
-/

namespace Resample.Scaler

/-! ## §1 Scalers that keep the shape -/

/-- A scaler that keeps the shape: each job filters a plane into the plane of its number, as it is. -/
structure KeepsShape (s : Scaler) : Prop where
  shape : s.output.shape = s.input.shape
  plane : ∀ job ∈ s.jobs, job.sourcePlane = job.destPlane
  keeps : ∀ job ∈ s.jobs, job.kernel.variant.Keeps

/-- A scaler that was configured for the shape of its input keeps the shape. -/
theorem keepsShape_of_configure {config : Config} {input : Stream} {s : Scaler}
    (h : configure config input = .ok s) (hshape : s.output.shape = input.shape) : s.KeepsShape := by
  have hsound := sound_of_configure h
  obtain ⟨-, -, size, jobs, -, hjobs, rfl⟩ := configure_eq_ok_iff.1 h
  have hsame : outShape config input size = input.shape := hshape
  have hformat : config.format.resolve input.shape.format = input.shape.format :=
    congrArg Shape.format hsame
  have hdither : dithers config input = false := by
    unfold dithers
    rw [hformat]
    simp
  rw [hsame] at hjobs
  refine ⟨hsame, fun job hjob => (eq_combined_of_mem_jobsFor? hjobs hjob).1, fun job hjob => ?_⟩
  have hfits := hsound.fits job hjob
  refine ⟨?_, ?_, (eq_combined_of_mem_jobsFor? hjobs hjob).2⟩
  · -- both planes have the container of the one format
    have hsource : _ = job.kernel.variant.source := congrArg Geometry.depth hfits.sourceGeometry
    have hdest : _ = job.kernel.variant.dest := congrArg Geometry.depth hfits.destGeometry
    rw [← hsource, ← hdest]
    exact congrArg (fun s : Shape => s.format.container) hsame
  · -- no format has fewer bits than itself
    rw [Bool.eq_false_iff]
    intro hjobDither
    exact absurd (dither_of_mem_jobsFor? hjobs hjob hjobDither) (by simp [hdither])

section Launching

variable {s : Scaler} {source : Frame}

/-- A job of a scaler that keeps the shape launches from a plane to the same size. -/
theorem keepsSize_of_mem_jobs (hs : s.Sound) (hkeeps : s.KeepsShape)
    (hwidth : s.input.shape.width ≤ 2 ^ 61) (hheight : s.input.shape.height ≤ 2 ^ 61) {job : Job}
    (hjob : job ∈ s.jobs) {r : Raster}
    (hr : r.geometry = s.input.shape.planeGeometry job.destPlane) :
    job.kernel.KeepsSize r.view (s.request job) := by
  have hfits := hs.fits job hjob
  have hsides := s.input.shape.planeSides_le job.destPlane
  -- the plane that is read has the geometry of the plane that is written
  have hsource := hkeeps.plane job hjob ▸ hfits.sourceGeometry
  have hdest := hkeeps.shape ▸ hfits.destGeometry
  obtain ⟨-, hplaneWidth, hplaneHeight, -⟩ := Geometry.mk.inj hr
  obtain ⟨hdepth, hsourceWidth, hsourceHeight, hchannels⟩ := Geometry.mk.inj (hr.trans hsource)
  obtain ⟨-, hdestWidth, hdestHeight, -⟩ := Geometry.mk.inj (hr.trans hdest)
  refine
    { variant := hkeeps.keeps job hjob
      depth := hdepth
      channels := hchannels
      sourceWidth := hsourceWidth
      sourceHeight := hsourceHeight
      destWidth := hdestWidth
      destHeight := hdestHeight
      width_le := ?_
      height_le := ?_ }
  · change 2 * r.plane.width ≤ 2 ^ 62
    omega
  · change 2 * r.plane.height ≤ 2 ^ 62
    omega

/-- Where all launches that write a sample agree on its value, that is the picture of the scaler. -/
theorem picture_eq_of_jobs (hs : s.Sound) (hkeeps : s.KeepsShape) (hlaunches : ¬ s.passthrough)
    (hsource : source.Matches s.input.shape) {i x y k u : Nat} {r : Raster}
    (hr : source.plane? i = some r) (hsample : s.output.shape.HasSample i x y k)
    (hvalue : ∀ job ∈ s.jobs, job.destPlane = i →
      (job.kernel.picture r.view job.kernel.variant.dest (s.request job) x y k).map Fin.val = some u) :
    s.picture source i x y k = some u := by
  obtain ⟨hi, hx, hy, hk⟩ := hsample
  -- some job draws the sample
  obtain ⟨job, hjob, hwrites⟩ := hs.writes i hi k hk
  unfold picture
  rw [if_neg hlaunches]
  apply lastOf_eq_some ⟨job, hjob, isSome_jobPicture hs hsource hjob hwrites hx hy⟩
  -- and every job that draws it gives it this value
  intro job' hjob' v hv
  unfold jobPicture at hv
  rw [hkeeps.plane job' hjob'] at hv
  by_cases hplane : job'.destPlane = i
  · rw [hplane, hr, Option.bind_some, if_pos rfl, hvalue job' hjob' hplane] at hv
    exact (Option.some.inj hv).symm
  · simp [hplane] at hv

/-! ## §2 Short pictures -/

/-- Launches of a picture that is not too long show what the frame shows. -/
theorem picture_eq_sample? (hs : s.Sound) (hkeeps : s.KeepsShape) (hlaunches : ¬ s.passthrough)
    (hwidth : s.input.shape.width ≤ exactPixels) (hheight : s.input.shape.height ≤ exactPixels)
    (hsource : source.Matches s.input.shape) {i x y k : Nat}
    (hsample : s.output.shape.HasSample i x y k) :
    s.picture source i x y k = source.sample? i x y k := by
  have hshown := hsample
  rw [hkeeps.shape, ← hsource.isSome_sample?_iff] at hshown
  obtain ⟨u, hu⟩ := Option.isSome_iff_exists.1 hshown
  obtain ⟨r, hr, hru⟩ := Option.bind_eq_some_iff.1 hu
  obtain ⟨v, hv, rfl⟩ := Option.map_eq_some_iff.1 hru
  have hsides := s.input.shape.planeSides_le i
  have hlong : exactPixels ≤ 2 ^ 61 := by decide
  obtain ⟨hi, hx, hy, -⟩ := hkeeps.shape ▸ hsample
  have hx' : x < (s.input.shape.planeSides i).1 := hx
  have hy' : y < (s.input.shape.planeSides i).2 := hy
  obtain ⟨r', hr', hgeometry⟩ := hsource.exists_plane hi
  obtain rfl : r = r' := Option.some.inj (hr.symm.trans hr')
  rw [hu]
  refine picture_eq_of_jobs hs hkeeps hlaunches hsource hr hsample fun job hjob hplane => ?_
  subst hplane
  exact (keepsSize_of_mem_jobs hs hkeeps (by omega) (by omega) hjob hgeometry).picture_of_lt hv
    (by omega) (by omega)

/-! ## §3 Long pictures -/

/-- Any two samples of the first plane of a picture can be the least and the greatest of the depth. -/
theorem exists_contrast {shape : Shape} {new : Frame} (hnew : new.Matches shape)
    {x₀ y₀ x₁ y₁ : Nat} (h₀ : shape.HasSample 0 x₀ y₀ 0) (h₁ : shape.HasSample 0 x₁ y₁ 0)
    (hne : ¬ (x₀ = x₁ ∧ y₀ = y₁)) :
    ∃ (frame : Frame) (r : Raster), frame.Matches shape ∧ frame.plane? 0 = some r ∧
      r.geometry = shape.planeGeometry 0 ∧ r.sample? x₀ y₀ 0 = some 0 ∧
      r.sample? x₁ y₁ 0 = some shape.format.container.top := by
  obtain ⟨r, hr, hgeometry⟩ := hnew.exists_plane h₀.1
  have hdepth : r.depth = shape.format.container := congrArg Geometry.depth hgeometry
  have hcontains : ∀ {x y}, shape.HasSample 0 x y 0 → r.plane.window.Contains x y 0 := by
    rintro x y ⟨-, hx, hy, hc⟩
    rw [← hgeometry] at hx hy hc
    exact ⟨hx, hy, hc⟩
  -- the one sample is put out first, then the other one lit
  let dark := r.put x₀ y₀ 0 (Sample.saturate r.depth 0)
  let both := dark.put x₁ y₁ 0 (Sample.saturate r.depth r.depth.top)
  have hboth : ∀ x y, both.sample? x y 0 = if x = x₁ ∧ y = y₁ ∧ 0 = 0 then some r.depth.top
      else if x = x₀ ∧ y = y₀ ∧ 0 = 0 then some 0 else r.sample? x y 0 := by
    intro x y
    have hbright := Raster.sample?_put (r := dark) (hcontains h₁)
      (Sample.saturate r.depth r.depth.top) x y 0
    rw [Raster.sample?_put (hcontains h₀), Sample.saturate_val, Sample.saturate_val,
      Nat.min_self, Nat.zero_min] at hbright
    exact hbright
  refine ⟨new.setPlane 0 both, both, ⟨hnew.shape, ?_⟩, ?_, hgeometry, ?_, ?_⟩
  · exact (Frame.geometry_setPlane hr (show both.geometry = r.geometry from rfl)).trans hnew.geometry
  · have hlength : 0 < new.planes.length := (List.getElem?_eq_some_iff.1 hr).1
    unfold Frame.setPlane Frame.plane?
    rw [List.getElem?_set, if_pos rfl, if_pos hlength]
  · rw [hboth, if_neg fun h => hne ⟨h.1, h.2.1⟩, if_pos ⟨rfl, rfl, rfl⟩]
  · rw [hboth, if_pos ⟨rfl, rfl, rfl⟩, hdepth]

/-- Helper: a sample that is shown is held by the window. -/
private theorem exists_get?_of_sample? {r : Raster} {x y c n : Nat} (h : r.sample? x y c = some n) :
    ∃ v, r.view.window.get? r.view.data x y c = some v ∧ v.val = n := Option.map_eq_some_iff.1 h

/-- Helper: where the launches show the mean of two samples in the place of one of them, a frame of high
contrast is not shown as it is. -/
private theorem exists_picture_eq_mean (hs : s.Sound) (hkeeps : s.KeepsShape)
    (hlaunches : ¬ s.passthrough) {new : Frame} (hnew : new.Matches s.input.shape) {x₀ y₀ x₁ y₁ : Nat}
    (h₀ : s.input.shape.HasSample 0 x₀ y₀ 0) (h₁ : s.input.shape.HasSample 0 x₁ y₁ 0)
    (hne : ¬ (x₀ = x₁ ∧ y₀ = y₁))
    (hmean : ∀ job ∈ s.jobs, ∀ {r : Raster}, r.geometry = s.input.shape.planeGeometry job.destPlane →
      ∀ {v w : Sample r.depth}, r.view.window.get? r.view.data x₀ y₀ 0 = some v →
        r.view.window.get? r.view.data x₁ y₁ 0 = some w →
        (job.kernel.picture r.view job.kernel.variant.dest (s.request job) x₁ y₁ 0).map Fin.val =
          some ((v.val + w.val + 1) / 2)) :
    ∃ frame : Frame, frame.Matches s.input.shape ∧
      frame.sample? 0 x₁ y₁ 0 = some s.input.shape.format.container.top ∧
      s.picture frame 0 x₁ y₁ 0 = some ((s.input.shape.format.container.top + 1) / 2) := by
  obtain ⟨frame, r, hframe, hr, hgeometry, hdark, hbright⟩ := exists_contrast hnew h₀ h₁ hne
  obtain ⟨v, hv, hdarkVal⟩ := exists_get?_of_sample? hdark
  obtain ⟨w, hw, hbrightVal⟩ := exists_get?_of_sample? hbright
  have hpicture : s.picture frame 0 x₁ y₁ 0 = some ((v.val + w.val + 1) / 2) := by
    refine picture_eq_of_jobs hs hkeeps hlaunches hframe hr (hkeeps.shape ▸ h₁) fun job hjob hplane => ?_
    exact hmean job hjob (hplane ▸ hgeometry) hv hw
  refine ⟨frame, hframe, ?_, ?_⟩
  · rw [Frame.sample?, hr, Option.bind_some, hbright]
  · rw [hpicture, hdarkVal, hbrightVal, Nat.zero_add]

/-- Helper: the half of the greatest value of a depth is not the greatest. -/
private theorem half_top_ne (d : Depth) : (d.top + 1) / 2 ≠ d.top := by
  cases d <;> decide

section Long

variable (hs : s.Sound) (hkeeps : s.KeepsShape) (hlaunches : ¬ s.passthrough) {new : Frame}
  (hnew : Frame.zeros s.input.shape = .ok new)

include hs hkeeps hnew

/-- Helper: the jobs of a scaler for pictures that can be made launch from planes to the same size. -/
private theorem keepsSize_of_zeros {job : Job} (hjob : job ∈ s.jobs) {r : Raster}
    (hr : r.geometry = s.input.shape.planeGeometry job.destPlane) :
    job.kernel.KeepsSize r.view (s.request job) := by
  have hsides := Frame.sides_lt_of_zeros hnew hs.inputWidth_pos hs.inputHeight_pos
  have hbound : Plane.unallocatable ≤ 2 ^ 61 := by decide
  exact keepsSize_of_mem_jobs hs hkeeps (by omega) (by omega) hjob hr

include hlaunches

/-- Launches of a picture that is too wide do not show every frame as it is. -/
theorem exists_picture_column (hlong : exactPixels < s.input.shape.width) :
    ∃ frame : Frame, frame.Matches s.input.shape ∧
      frame.sample? 0 exactPixels 0 0 = some s.input.shape.format.container.top ∧
      s.picture frame 0 exactPixels 0 0 = some ((s.input.shape.format.container.top + 1) / 2) := by
  have hheight := hs.inputHeight_pos
  have hleft : s.input.shape.HasSample 0 (exactPixels - 1) 0 0 :=
    Shape.hasSample_first (by omega) hheight
  exact exists_picture_eq_mean hs hkeeps hlaunches (Frame.matches_zeros hnew) hleft
    (Shape.hasSample_first hlong hheight) (fun h => absurd h.1 (by decide))
    fun job hjob {r} hr {v w} hv hw =>
      (keepsSize_of_zeros hs hkeeps hnew hjob hr).picture_column hv hw (by decide)

/-- Launches of a picture that is too high do not show every frame as it is. -/
theorem exists_picture_row (hlong : exactPixels < s.input.shape.height) :
    ∃ frame : Frame, frame.Matches s.input.shape ∧
      frame.sample? 0 0 exactPixels 0 = some s.input.shape.format.container.top ∧
      s.picture frame 0 0 exactPixels 0 = some ((s.input.shape.format.container.top + 1) / 2) := by
  have hwidth := hs.inputWidth_pos
  have habove : s.input.shape.HasSample 0 0 (exactPixels - 1) 0 :=
    Shape.hasSample_first hwidth (by omega)
  exact exists_picture_eq_mean hs hkeeps hlaunches (Frame.matches_zeros hnew) habove
    (Shape.hasSample_first hwidth hlong) (fun h => absurd h.2 (by decide))
    fun job hjob {r} hr {v w} hv hw =>
      (keepsSize_of_zeros hs hkeeps hnew hjob hr).picture_row hv hw (by decide)

/-- Launches show every frame as it is exactly if the picture is not too long. -/
theorem picture_eq_sample?_iff :
    (∀ frame : Frame, frame.Matches s.input.shape → ∀ i x y k, s.output.shape.HasSample i x y k →
      s.picture frame i x y k = frame.sample? i x y k) ↔
    s.input.shape.width ≤ exactPixels ∧ s.input.shape.height ≤ exactPixels := by
  constructor
  · -- a side that is too long has a frame whose bright pixel is launched half as bright
    intro h
    constructor
    · refine Nat.le_of_not_lt fun hlong => ?_
      obtain ⟨frame, hframe, hbright, hmean⟩ := exists_picture_column hs hkeeps hlaunches hnew hlong
      have hshown := h frame hframe 0 exactPixels 0 0
        (hkeeps.shape ▸ Shape.hasSample_first hlong hs.inputHeight_pos)
      exact half_top_ne _ (Option.some.inj (hmean.symm.trans (hshown.trans hbright)))
    · refine Nat.le_of_not_lt fun hlong => ?_
      obtain ⟨frame, hframe, hbright, hmean⟩ := exists_picture_row hs hkeeps hlaunches hnew hlong
      have hshown := h frame hframe 0 0 exactPixels 0
        (hkeeps.shape ▸ Shape.hasSample_first hs.inputWidth_pos hlong)
      exact half_top_ne _ (Option.some.inj (hmean.symm.trans (hshown.trans hbright)))
  · rintro ⟨hwidth, hheight⟩ frame hframe i x y k hsample
    exact picture_eq_sample? hs hkeeps hlaunches hwidth hheight hframe hsample

end Long

end Launching

/-! ## §4 Both ways compared -/

/-- Scalers that differ only in whether they may copy have the same shapes and launches. -/
theorem configure_passthrough {config : Config} {input : Stream} {copying launching : Scaler}
    (hcopying : configure { config with passthrough := true } input = .ok copying)
    (hlaunching : configure { config with passthrough := false } input = .ok launching)
    (hshape : copying.output.shape = input.shape) :
    copying.passthrough ∧ ¬ launching.passthrough ∧ launching.output = copying.output := by
  obtain ⟨-, -, size, jobs, hsize, hjobs, rfl⟩ := configure_eq_ok_iff.1 hcopying
  obtain ⟨-, -, size', jobs', hsize', hjobs', rfl⟩ := configure_eq_ok_iff.1 hlaunching
  obtain rfl : size = size' := Except.ok.inj (hsize.symm.trans hsize')
  refine ⟨?_, ?_, rfl⟩
  · have hsame : outShape { config with passthrough := true } input size = input.shape := hshape
    simp [ofJobs, hsame]
  · simp [ofJobs]

/-- Where an output keeps the shape of the input, copying and launching give alike frames for every frame
exactly if no side of the picture is longer than `2 ^ 23` pixels. -/
theorem alike_passthrough_iff {config : Config} {input : Stream} {copying launching : Scaler}
    (hcopying : configure { config with passthrough := true } input = .ok copying)
    (hlaunching : configure { config with passthrough := false } input = .ok launching)
    (hshape : copying.output.shape = input.shape) {new : Frame}
    (hnew : Frame.zeros input.shape = .ok new) :
    (∀ frame : Frame, frame.shape = input.shape → frame.Conforms →
      ∃ copied launched, (copying.process frame).1 = .ok copied ∧
        (launching.process frame).1 = .ok launched ∧ launched.Alike copied) ↔
    input.shape.width ≤ exactPixels ∧ input.shape.height ≤ exactPixels := by
  obtain ⟨hpass, hlaunches, houtput⟩ := configure_passthrough hcopying hlaunching hshape
  have hsound := sound_of_configure hlaunching
  have hinput : copying.input.shape = input.shape := by rw [input_of_configure hcopying]
  have hinput' : launching.input.shape = input.shape := by rw [input_of_configure hlaunching]
  have hshape' : launching.output.shape = input.shape := by rw [houtput, hshape]
  have hkeeps := keepsShape_of_configure hlaunching hshape'
  rw [← hinput', ← picture_eq_sample?_iff hsound hkeeps hlaunches (hinput' ▸ hnew)]
  -- both scale every frame, and the results are alike if the launches show the frame as it is
  have hframe : ∀ frame : Frame, frame.Matches input.shape →
      ((∃ copied launched, (copying.process frame).1 = .ok copied ∧
        (launching.process frame).1 = .ok launched ∧ launched.Alike copied) ↔
      ∀ i x y k, launching.output.shape.HasSample i x y k →
        launching.picture frame i x y k = frame.sample? i x y k) := by
    intro frame hframe
    obtain ⟨copied, hcopied, hshows⟩ := exists_shows_process (sound_of_configure hcopying)
      (poolMatches_of_empty (pool_of_configure hcopying)) (hinput ▸ hframe) (hshape ▸ hnew)
    obtain ⟨launched, hlaunched, hshows'⟩ := exists_shows_process hsound
      (poolMatches_of_empty (pool_of_configure hlaunching)) (hinput' ▸ hframe) (hshape' ▸ hnew)
    have halike := hshows'.alike_iff hshows (hinput'.trans hinput.symm) (hshape'.trans hshape.symm)
    simp only [picture_of_passthrough hpass] at halike
    rw [← halike]
    simp [hcopied, hlaunched]
  constructor
  · intro h frame hmatches
    rw [hinput'] at hmatches
    obtain ⟨hframeShape, hconforms⟩ := Frame.matches_iff.1 hmatches
    exact (hframe frame hmatches).1 (h frame (hinput' ▸ hframeShape) hconforms)
  · intro h frame hframeShape hconforms
    have hmatches := Frame.matches_iff.2 ⟨hframeShape, hconforms⟩
    exact (hframe frame (hinput' ▸ hmatches)).2 (h frame hmatches)

/-- Copies and launches of a small gray picture are alike. -/
theorem alike_passthrough_iff_small :
    ∃ copying launching,
      configure { Config.identity with passthrough := true } ⟨⟨.gray8, 2, 2⟩, .unknown⟩ = .ok copying ∧
      configure { Config.identity with passthrough := false } ⟨⟨.gray8, 2, 2⟩, .unknown⟩ = .ok launching ∧
      ∀ frame : Frame, frame.shape = ⟨.gray8, 2, 2⟩ → frame.Conforms →
        ∃ copied launched, (copying.process frame).1 = .ok copied ∧
          (launching.process frame).1 = .ok launched ∧ launched.Alike copied := by
  obtain ⟨jobs, hjobs⟩ : ∃ jobs, jobsFor? ⟨.gray8, 2, 2⟩ ⟨.gray8, 2, 2⟩ false = some jobs := ⟨_, rfl⟩
  obtain ⟨new, hnew⟩ : ∃ new, Frame.zeros ⟨.gray8, 2, 2⟩ = .ok new := ⟨_, rfl⟩
  have hconfigured : ∀ passthrough,
      configure { Config.identity with passthrough } ⟨⟨.gray8, 2, 2⟩, .unknown⟩ = _ :=
    fun passthrough => configure_same_size rfl rfl (by decide) (by decide) (by decide) hjobs
  exact ⟨_, _, hconfigured true, hconfigured false,
    (alike_passthrough_iff (hconfigured true) (hconfigured false) rfl hnew).2 ⟨by decide, by decide⟩⟩

/-- In a row of `2 ^ 23 + 1` gray pixels, the last pixel is copied as it is, but launched as the mean of the
last two. -/
theorem exists_launch_ne_copy :
    ∃ copying launching frame copied launched,
      configure { Config.identity with passthrough := true }
        ⟨⟨.gray8, 8388609, 1⟩, .unknown⟩ = .ok copying ∧
      configure { Config.identity with passthrough := false }
        ⟨⟨.gray8, 8388609, 1⟩, .unknown⟩ = .ok launching ∧
      copying.output.shape = ⟨.gray8, 8388609, 1⟩ ∧ launching.output.shape = ⟨.gray8, 8388609, 1⟩ ∧
      frame.shape = ⟨.gray8, 8388609, 1⟩ ∧ frame.Conforms ∧
      (copying.process frame).1 = .ok copied ∧ (launching.process frame).1 = .ok launched ∧
      copied.sample? 0 8388608 0 0 = some 255 ∧ launched.sample? 0 8388608 0 0 = some 128 := by
  obtain ⟨jobs, hjobs⟩ :
      ∃ jobs, jobsFor? ⟨.gray8, 8388609, 1⟩ ⟨.gray8, 8388609, 1⟩ false = some jobs := ⟨_, rfl⟩
  obtain ⟨new, hnew⟩ : ∃ new, Frame.zeros ⟨.gray8, 8388609, 1⟩ = .ok new := ⟨_, rfl⟩
  have hconfigured : ∀ passthrough,
      configure { Config.identity with passthrough } ⟨⟨.gray8, 8388609, 1⟩, .unknown⟩ = _ :=
    fun passthrough => configure_same_size rfl rfl (by decide) (by decide) (by decide) hjobs
  have hcopying := hconfigured true
  have hlaunching := hconfigured false
  obtain ⟨hpass, hlaunches, -⟩ := configure_passthrough hcopying hlaunching rfl
  have hsound := sound_of_configure hlaunching
  obtain ⟨frame, hframe, hbright, hmean⟩ := exists_picture_column hsound
    (keepsShape_of_configure hlaunching rfl) hlaunches hnew (show exactPixels < 8388609 by decide)
  obtain ⟨hframeShape, hconforms⟩ := Frame.matches_iff.1 hframe
  obtain ⟨copied, hcopied, hshows⟩ := exists_shows_process (sound_of_configure hcopying)
    (poolMatches_of_empty rfl) hframe hnew
  obtain ⟨launched, hlaunched, hshows'⟩ := exists_shows_process hsound (poolMatches_of_empty rfl) hframe hnew
  have hlast : Shape.HasSample ⟨.gray8, 8388609, 1⟩ 0 exactPixels 0 0 :=
    Shape.hasSample_first (by decide) (by decide)
  refine ⟨_, _, frame, copied, launched, hcopying, hlaunching, rfl, rfl, hframeShape, hconforms, hcopied,
    hlaunched, ?_, ?_⟩
  · exact (hshows.sample hlast).trans ((picture_of_passthrough hpass frame 0 exactPixels 0 0).trans hbright)
  · have hhalf : some ((Depth.eight.top + 1) / 2) = some 128 := by decide
    exact (hshows'.sample hlast).trans (hmean.trans hhalf)

end Resample.Scaler
