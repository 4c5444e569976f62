import Resample.Scaling.Scaler
import Resample.Proofs.Kernel.Drawing
import Resample.Proofs.Picture.Geometry
import Resample.Proofs.Size.Output

/-!
# Routes and jobs

The routes between two layouts fit them: each route reads a plane of the one and writes a plane of the
other, with as many channels as these planes have, and together they write every channel of every plane.
The jobs of a scaler are its routes with kernels and sides, so they fit the shapes in the same way. Both
facts are settled when the scaler is configured.

## Contents

- §1 planes of a layout, §2 routes, §3 jobs, §4 configured scalers
-/

namespace Resample

/-! ## §1 Planes of a layout -/

/-- Channels of each plane of a layout. -/
def PlaneLayout.planes : PlaneLayout → List Nat
  | .packed channels => [channels]
  | .planar => [1, 1, 1]
  | .semiPlanar => [1, 2]

/-- The planes of a format are those of its layout. -/
theorem PixelFormat.getElem?_planes_iff {f : PixelFormat} {i n : Nat} :
    f.layout.planes[i]? = some n ↔ i < f.planeCount ∧ f.planeChannels i = n := by
  unfold planeCount planeChannels
  cases f.layout with
  | packed channels =>
    rcases i with _ | i
    · simp [PlaneLayout.planes]
    · simp [PlaneLayout.planes]
  | planar =>
    rcases i with _ | _ | _ | i
    · simp [PlaneLayout.planes]
    · simp [PlaneLayout.planes]
    · simp [PlaneLayout.planes]
    · exact iff_of_false (by simp [PlaneLayout.planes]) fun h => Nat.not_lt.2 (Nat.le_add_left 3 i) h.1
  | semiPlanar =>
    rcases i with _ | _ | i
    · simp [PlaneLayout.planes]
    · simp [PlaneLayout.planes]
    · exact iff_of_false (by simp [PlaneLayout.planes]) fun h => Nat.not_lt.2 (Nat.le_add_left 2 i) h.1

/-! ## §2 Routes -/

namespace Route

/-- A route reads a plane of the source layout and writes a plane of the destination layout, with the
channels that these have. -/
def Joins (r : Route) (source dest : PlaneLayout) : Prop :=
  source.planes[r.sourcePlane]? = some r.channels ∧
    dest.planes[r.destPlane]? = some (r.layout.destChannels r.channels)

/-- A route writes channel `k` of plane `i`. -/
def Writes (r : Route) (i k : Nat) : Prop :=
  r.destPlane = i ∧ (r.layout.source? r.channels k).isSome

instance (r : Route) (source dest : PlaneLayout) : Decidable (r.Joins source dest) :=
  inferInstanceAs (Decidable (_ ∧ _))

instance (r : Route) (i k : Nat) : Decidable (r.Writes i k) := inferInstanceAs (Decidable (_ ∧ _))

/-- Every route between two layouts joins them. -/
theorem joins_of_between? {source dest : PlaneLayout} {routes : List Route}
    (h : between? source dest = some routes) {r : Route} (hr : r ∈ routes) : r.Joins source dest := by
  cases source <;> cases dest <;> simp only [between?, reduceCtorEq, Option.some.injEq,
    Option.ite_none_right_eq_some] at h
  · -- packed to packed: one route, for any number of channels
    obtain ⟨⟨rfl, -⟩, rfl⟩ := h
    obtain rfl := List.mem_singleton.1 hr
    exact ⟨rfl, rfl⟩
  -- between the other layouts the routes are a closed list
  all_goals
    subst h
    revert r
    decide

/-- Every channel of every plane of the destination is written by some route. -/
theorem exists_writes {source dest : PlaneLayout} {routes : List Route}
    (h : between? source dest = some routes) {i n k : Nat} (hplane : dest.planes[i]? = some n)
    (hk : k < n) : ∃ r ∈ routes, r.Writes i k := by
  obtain ⟨hi, rfl⟩ := List.getElem?_eq_some_iff.1 hplane
  clear hplane
  cases source <;> cases dest <;> simp only [between?, reduceCtorEq, Option.some.injEq,
    Option.ite_none_right_eq_some] at h
  · -- the only plane, with all its channels
    obtain ⟨⟨rfl, -⟩, rfl⟩ := h
    obtain rfl : i = 0 := by simpa [PlaneLayout.planes] using hi
    refine ⟨_, List.mem_singleton_self _, rfl, ?_⟩
    simpa [Layout.source?, PlaneLayout.planes] using hk
  all_goals
    subst h
    revert k
    revert i
    decide

/-- Between equal layouts, every route combines the channels of a plane into the plane of its number. -/
theorem eq_combined_of_between?_self {layout : PlaneLayout} {routes : List Route}
    (h : between? layout layout = some routes) {r : Route} (hr : r ∈ routes) :
    r.sourcePlane = r.destPlane ∧ r.layout = .combined := by
  cases layout <;> simp only [between?, Option.some.injEq, Option.ite_none_right_eq_some] at h
  · obtain ⟨-, rfl⟩ := h
    obtain rfl := List.mem_singleton.1 hr
    exact ⟨rfl, rfl⟩
  all_goals
    subst h
    revert r
    decide

/-- There is a kernel for every route, whatever the depths. -/
theorem supported_of_between? {source dest : PlaneLayout} {routes : List Route}
    (h : between? source dest = some routes) {r : Route} (hr : r ∈ routes) :
    Variant.Supported ⟨r.channels, .eight, .eight, false, r.layout⟩ := by
  cases source <;> cases dest <;> simp only [between?, reduceCtorEq, Option.some.injEq,
    Option.ite_none_right_eq_some] at h
  · -- packed to packed: one, three or four channels
    obtain ⟨⟨rfl, hchannels⟩, rfl⟩ := h
    obtain rfl := List.mem_singleton.1 hr
    simp only [Variant.Supported]
    omega
  all_goals
    subst h
    revert r
    decide

end Route

/-! ## §3 Jobs -/

namespace Job

/-- A job reads a plane of the source shape and writes a plane of the destination shape: it has the sides
of these planes, and its kernel has their depths and channels. -/
structure Fits (job : Job) (source dest : Shape) : Prop where
  sourcePlane_lt : job.sourcePlane < source.format.planeCount
  destPlane_lt : job.destPlane < dest.format.planeCount
  sourceGeometry : source.planeGeometry job.sourcePlane =
    ⟨job.kernel.variant.source, job.sourceSides.1, job.sourceSides.2, job.kernel.variant.channels⟩
  destGeometry : dest.planeGeometry job.destPlane =
    ⟨job.kernel.variant.dest, job.destSides.1, job.destSides.2,
      job.kernel.variant.layout.destChannels job.kernel.variant.channels⟩

/-- A job writes channel `k` of plane `i`. -/
def Writes (job : Job) (i k : Nat) : Prop :=
  job.destPlane = i ∧ (job.kernel.variant.layout.source? job.kernel.variant.channels k).isSome

end Job

/-- The job of a route, if there is a kernel for it. -/
def Route.job? (r : Route) (source dest : Shape) (dither : Bool) : Option Job := do
  let kernel ← Kernel.select? (r.variant source.format dest.format dither)
  return { kernel
           sourcePlane := r.sourcePlane
           destPlane := r.destPlane
           sourceSides := source.planeSides r.sourcePlane
           destSides := dest.planeSides r.destPlane }

/-- The kernel of a job is that of the normalized variant of its route. -/
theorem Route.job?_eq_some_iff {r : Route} {source dest : Shape} {dither : Bool} {job : Job} :
    r.job? source dest dither = some job ↔
      ∃ kernel : Kernel, kernel.variant = (r.variant source.format dest.format dither).normalized ∧
        job = ⟨kernel, r.sourcePlane, r.destPlane, source.planeSides r.sourcePlane,
          dest.planeSides r.destPlane⟩ := by
  unfold Route.job? Kernel.select?
  by_cases hsupported : (r.variant source.format dest.format dither).normalized.Supported
  · -- a kernel is its variant, so the one that is found is the only one
    rw [dif_pos hsupported]
    constructor
    · intro h
      exact ⟨⟨_, hsupported, Variant.normalized_normalized _⟩, rfl, (Option.some.inj h).symm⟩
    · rintro ⟨kernel, hvariant, rfl⟩
      obtain ⟨variant, _, _⟩ := kernel
      cases hvariant
      rfl
  · rw [dif_neg hsupported]
    constructor
    · intro h
      exact absurd h (by simp [bind])
    · -- no kernel has a variant that is not supported
      rintro ⟨kernel, hvariant, -⟩
      exact absurd (hvariant ▸ kernel.supported) hsupported

namespace Scaler

variable {source dest : Shape} {dither : Bool} {jobs : List Job}

/-- The jobs between two shapes are those of the routes. -/
theorem jobsFor?_eq_some_iff :
    jobsFor? source dest dither = some jobs ↔
      ∃ routes, Route.between? source.format.layout dest.format.layout = some routes ∧
        routes.mapM (fun r => r.job? source dest dither) = some jobs :=
  Option.bind_eq_some_iff

/-- Between formats with routes there are jobs. -/
theorem exists_jobsFor? (h : (Route.between? source.format.layout dest.format.layout).isSome)
    (dither : Bool) : ∃ jobs, jobsFor? source dest dither = some jobs := by
  obtain ⟨routes, hroutes⟩ := Option.isSome_iff_exists.1 h
  have hjob : ∀ r ∈ routes, ∃ job, r.job? source dest dither = some job := by
    intro r hr
    -- the depths, and whether a kernel dithers, are of no account
    have hsupported : (r.variant source.format dest.format dither).normalized.Supported :=
      Route.supported_of_between? hroutes hr
    exact ⟨_, Route.job?_eq_some_iff.2
      ⟨⟨_, hsupported, Variant.normalized_normalized _⟩, rfl, rfl⟩⟩
  obtain ⟨jobs, hjobs⟩ := exists_mapM_eq_some hjob
  exact ⟨jobs, jobsFor?_eq_some_iff.2 ⟨routes, hroutes, hjobs⟩⟩

/-- Every job fits the shapes. -/
theorem fits_of_mem_jobsFor? (h : jobsFor? source dest dither = some jobs) {job : Job}
    (hjob : job ∈ jobs) : job.Fits source dest := by
  obtain ⟨routes, hroutes, hmap⟩ := jobsFor?_eq_some_iff.1 h
  obtain ⟨r, hr, hjob⟩ := exists_of_mem_mapM hmap hjob
  obtain ⟨kernel, hvariant, rfl⟩ := Route.job?_eq_some_iff.1 hjob
  obtain ⟨hread, hwrite⟩ := Route.joins_of_between? hroutes hr
  obtain ⟨hsourcePlane, hsourceChannels⟩ := PixelFormat.getElem?_planes_iff.1 hread
  obtain ⟨hdestPlane, hdestChannels⟩ := PixelFormat.getElem?_planes_iff.1 hwrite
  refine ⟨hsourcePlane, hdestPlane, ?_, ?_⟩
  · unfold Shape.planeGeometry
    rw [hvariant, hsourceChannels]
    rfl
  · unfold Shape.planeGeometry
    rw [hvariant, hdestChannels]
    rfl

/-- A job dithers where dithering is asked for and the containers are narrowed. -/
theorem dither_eq_of_mem_jobsFor? (h : jobsFor? source dest dither = some jobs) {job : Job}
    (hjob : job ∈ jobs) : job.kernel.variant.dither =
      (dither && dest.format.container.bits < source.format.container.bits) := by
  obtain ⟨routes, -, hmap⟩ := jobsFor?_eq_some_iff.1 h
  obtain ⟨r, -, hjob⟩ := exists_of_mem_mapM hmap hjob
  obtain ⟨kernel, hvariant, rfl⟩ := Route.job?_eq_some_iff.1 hjob
  rw [hvariant]
  rfl

/-- A job dithers only where that is asked for. -/
theorem dither_of_mem_jobsFor? (h : jobsFor? source dest dither = some jobs) {job : Job}
    (hjob : job ∈ jobs) (hdither : job.kernel.variant.dither) : dither := by
  rw [dither_eq_of_mem_jobsFor? h hjob, Bool.and_eq_true] at hdither
  exact hdither.1

/-- Between equal shapes, every job combines the channels of a plane into the plane of its number. -/
theorem eq_combined_of_mem_jobsFor? (h : jobsFor? source source dither = some jobs) {job : Job}
    (hjob : job ∈ jobs) :
    job.sourcePlane = job.destPlane ∧ job.kernel.variant.layout = .combined := by
  obtain ⟨routes, hroutes, hmap⟩ := jobsFor?_eq_some_iff.1 h
  obtain ⟨r, hr, hjob⟩ := exists_of_mem_mapM hmap hjob
  obtain ⟨kernel, hvariant, rfl⟩ := Route.job?_eq_some_iff.1 hjob
  obtain ⟨hplane, hlayout⟩ := Route.eq_combined_of_between?_self hroutes hr
  exact ⟨hplane, by rw [hvariant]; exact hlayout⟩

/-- Every channel of every plane of the destination is written by some job. -/
theorem exists_writes_of_jobsFor? (h : jobsFor? source dest dither = some jobs) {i k : Nat}
    (hi : i < dest.format.planeCount) (hk : k < dest.format.planeChannels i) :
    ∃ job ∈ jobs, job.Writes i k := by
  obtain ⟨routes, hroutes, hmap⟩ := jobsFor?_eq_some_iff.1 h
  obtain ⟨r, hr, hplane, hchannel⟩ :=
    Route.exists_writes hroutes (PixelFormat.getElem?_planes_iff.2 ⟨hi, rfl⟩) hk
  obtain ⟨job, hjob, hroute⟩ := exists_mem_mapM_of_mem hmap hr
  obtain ⟨kernel, hvariant, rfl⟩ := Route.job?_eq_some_iff.1 hroute
  refine ⟨_, hjob, hplane, ?_⟩
  rw [hvariant]
  exact hchannel

end Scaler

/-! ## §4 Configured scalers -/

namespace Scaler

/-- What a configured scaler is, and stays whatever frames it is given: its jobs fit its shapes and write
every channel of the output, no side is zero (of the output, unless a side of the input is read as negative),
the dither table is at hand where a job dithers, and frames are only copied where the shape stays the same. -/
structure Sound (s : Scaler) : Prop where
  fits : ∀ job ∈ s.jobs, job.Fits s.input.shape s.output.shape
  writes : ∀ i < s.output.shape.format.planeCount, ∀ k < s.output.shape.format.planeChannels i,
    ∃ job ∈ s.jobs, job.Writes i k
  table : ∀ job ∈ s.jobs, job.kernel.variant.dither → s.table
  inputWidth_pos : 0 < s.input.shape.width
  inputHeight_pos : 0 < s.input.shape.height
  output_pos : s.input.shape.width ≤ Word.greatest → s.input.shape.height ≤ Word.greatest →
    0 < s.output.shape.width ∧ 0 < s.output.shape.height
  passthrough : s.passthrough → s.output.shape = s.input.shape

/-- The shape of an output of the given size. -/
def outShape (config : Config) (input : Stream) (size : Nat × Nat) : Shape :=
  ⟨config.format.resolve input.shape.format, size.1, size.2⟩

/-- Whether the output has fewer bits than the input, and is to be dithered. -/
def dithers (config : Config) (input : Stream) : Bool :=
  config.dither && (config.format.resolve input.shape.format).bits < input.shape.format.bits

/-- The scaler for an output size and jobs, before it is given any frame. -/
def ofJobs (config : Config) (input : Stream) (size : Nat × Nat) (jobs : List Job) : Scaler where
  input := input
  output :=
    { shape := outShape config input size
      aspect := rescaleAspect input.aspect (input.shape.width, input.shape.height) size }
  mode := config.mode
  jobs := jobs
  passthrough := config.passthrough && outShape config input size = input.shape
  table := dithers config input
  pool := []
  heard := none
  count := 0

/-- Helper: the steps of the configuration. -/
private theorem configure_eq (config : Config) (input : Stream) :
    configure config input =
      if input.shape.width = 0 ∨ input.shape.height = 0 then
        .error (.size (.invalid (Word.signed input.shape.width) (Word.signed input.shape.height)))
      else
        ((Size.outputSize config.width config.height input
          (config.format.resolve input.shape.format)).mapError .size) >>= fun size =>
          match jobsFor? input.shape (outShape config input size) (dithers config input) with
          | none => .error (.unsupported input.shape.format (config.format.resolve input.shape.format))
          | some jobs => .ok (ofJobs config input size jobs) := rfl

/-- A scaler is configured if the input has pixels, there is an output size and there are jobs. -/
theorem configure_eq_ok_iff {config : Config} {input : Stream} {s : Scaler} :
    configure config input = .ok s ↔
      0 < input.shape.width ∧ 0 < input.shape.height ∧ ∃ size jobs,
        Size.outputSize config.width config.height input
          (config.format.resolve input.shape.format) = .ok size ∧
        jobsFor? input.shape (outShape config input size) (dithers config input) = some jobs ∧
        s = ofJobs config input size jobs := by
  rw [configure_eq]
  by_cases hempty : input.shape.width = 0 ∨ input.shape.height = 0
  · rw [if_pos hempty]
    constructor
    · intro h
      cases h
    · rintro ⟨hwidth, hheight, -⟩
      omega
  · rw [if_neg hempty, bind_eq_ok_iff]
    constructor
    · rintro ⟨size, hsize, h⟩
      refine ⟨by omega, by omega, size, ?_⟩
      cases hjobs : jobsFor? input.shape (outShape config input size) (dithers config input) with
      | none => simp [hjobs] at h
      | some jobs =>
        simp only [hjobs, Except.ok.injEq] at h
        exact ⟨jobs, mapError_eq_ok_iff.1 hsize, rfl, h.symm⟩
    · rintro ⟨-, -, size, jobs, hsize, hjobs, rfl⟩
      exact ⟨size, mapError_eq_ok_iff.2 hsize, by rw [hjobs]⟩

/-- A configured scaler is sound. -/
theorem sound_of_configure {config : Config} {input : Stream} {s : Scaler}
    (h : configure config input = .ok s) : s.Sound := by
  obtain ⟨hwidth, hheight, size, jobs, hsize, hjobs, rfl⟩ := configure_eq_ok_iff.1 h
  exact
    { fits := fun job hjob => fits_of_mem_jobsFor? hjobs hjob
      writes := fun i hi k hk => exists_writes_of_jobsFor? hjobs hi hk
      table := fun job hjob hdither => dither_of_mem_jobsFor? hjobs hjob hdither
      inputWidth_pos := hwidth
      inputHeight_pos := hheight
      output_pos := fun hwidthLe hheightLe =>
        have hsides := Size.outputSize_within_limit hwidth hheight hwidthLe hheightLe hsize
        ⟨hsides.1, hsides.2.1⟩
      passthrough := fun hpass => by
        simp only [ofJobs, Bool.and_eq_true, decide_eq_true_eq] at hpass
        exact hpass.2 }

/-- A configured scaler is for the input that it was configured for. -/
theorem input_of_configure {config : Config} {input : Stream} {s : Scaler}
    (h : configure config input = .ok s) : s.input = input := by
  obtain ⟨-, -, size, jobs, -, -, rfl⟩ := configure_eq_ok_iff.1 h
  rfl

/-- A configured scaler keeps no frames yet. -/
theorem pool_of_configure {config : Config} {input : Stream} {s : Scaler}
    (h : configure config input = .ok s) : s.pool = [] := by
  obtain ⟨-, -, size, jobs, -, -, rfl⟩ := configure_eq_ok_iff.1 h
  rfl

/-- A configured scaler has not scaled a frame yet. -/
theorem count_of_configure {config : Config} {input : Stream} {s : Scaler}
    (h : configure config input = .ok s) : s.count = 0 := by
  obtain ⟨-, -, size, jobs, -, -, rfl⟩ := configure_eq_ok_iff.1 h
  rfl

/-- A scaler is configured for the sides of its input if an output may be that large and there are
jobs. -/
theorem configure_same_size {config : Config} {input : Stream} {jobs : List Job}
    (hwidthText : config.width = "iw") (hheightText : config.height = "ih")
    (hwidth : 0 < input.shape.width) (hheight : 0 < input.shape.height)
    (harea : (input.shape.width * input.shape.height : Nat) ≤ Size.productLimit)
    (hjobs : jobsFor? input.shape (outShape config input (input.shape.width, input.shape.height))
      (dithers config input) = some jobs) :
    configure config input =
      .ok (ofJobs config input (input.shape.width, input.shape.height) jobs) := by
  refine configure_eq_ok_iff.2 ⟨hwidth, hheight, _, jobs, ?_, hjobs, rfl⟩
  rw [hwidthText, hheightText]
  exact Size.outputSize_same _ hwidth hheight harea

end Scaler

end Resample
