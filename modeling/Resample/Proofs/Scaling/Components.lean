import Resample.Proofs.Kernel.Channels
import Resample.Proofs.Kernel.PixelMap
import Resample.Proofs.Picture.Components
import Resample.Proofs.Scaling.Serving

/-!
# Scaling by components

A conversion keeps the components apart: the routes between two layouts bring each component of the source to
the same component of the destination, through whatever planes, channels and kernels. So what becomes of a
component depends on that component only, and formats that differ in nothing but their layout are scaled to
the same components.

## Contents

- §1 routes, §2 the launch of a component, §3 the same components in other layouts
-/

namespace Resample

/-! ## §1 Routes -/

namespace Route

variable {source dest : PlaneLayout} {routes : List Route}

/-- Layouts with routes between them have the same number of components. -/
theorem components_of_between? (h : between? source dest = some routes) :
    source.components = dest.components := by
  cases source <;> cases dest <;> simp only [between?, reduceCtorEq, Option.ite_none_right_eq_some] at h
  · exact h.1.1
  all_goals rfl

/-- A route that writes the place of a component reads the place of that component. -/
theorem place_of_between? (h : between? source dest = some routes) {r : Route} (hr : r ∈ routes) {j : Nat}
    (hj : j < dest.components) (hwrites : r.Writes (dest.place j).1 (dest.place j).2) :
    r.sourcePlane = (source.place j).1 ∧
      r.layout.source? r.channels (dest.place j).2 = some (source.place j).2 := by
  cases source <;> cases dest <;> simp only [between?, reduceCtorEq, Option.some.injEq,
    Option.ite_none_right_eq_some] at h
  · -- packed to packed: the channels keep their numbers
    obtain ⟨⟨rfl, -⟩, rfl⟩ := h
    obtain rfl := List.mem_singleton.1 hr
    exact ⟨rfl, if_pos hj⟩
  -- between the other layouts, the routes and the components are closed lists
  all_goals
    subst h
    revert hwrites
    revert r
    revert j
    decide

end Route

/-! ## §2 The launch of a component -/

namespace Scaler

/-- A job that writes the place of a component reads the place of that component. -/
theorem place_of_mem_jobsFor? {source dest : Shape} {dither : Bool} {jobs : List Job}
    (h : jobsFor? source dest dither = some jobs) {job : Job} (hjob : job ∈ jobs) {j : Nat}
    (hj : j < dest.format.layout.components)
    (hwrites : job.Writes (dest.format.layout.place j).1 (dest.format.layout.place j).2) :
    job.sourcePlane = (source.format.layout.place j).1 ∧
      job.kernel.variant.layout.source? job.kernel.variant.channels (dest.format.layout.place j).2 =
        some (source.format.layout.place j).2 := by
  obtain ⟨routes, hroutes, hmap⟩ := jobsFor?_eq_some_iff.1 h
  obtain ⟨r, hr, hroute⟩ := exists_of_mem_mapM hmap hjob
  obtain ⟨kernel, hvariant, rfl⟩ := Route.job?_eq_some_iff.1 hroute
  obtain ⟨hplane, hchannel⟩ := hwrites
  rw [hvariant] at hchannel ⊢
  exact Route.place_of_between? hroutes hr hj ⟨hplane, hchannel⟩

/-- A job makes a component of the output: it launches from the plane of the same component of the frame, all
over it, and brings the channel of the one to the channel of the other. -/
structure Makes (s : Scaler) (source : Frame) (j : Nat) (job : Job) (read : Raster) : Prop where
  mem : job ∈ s.jobs
  sourceDepth : job.kernel.variant.source = s.input.shape.format.container
  destDepth : job.kernel.variant.dest = s.output.shape.format.container
  channel : job.kernel.variant.layout.source? job.kernel.variant.channels
    (s.output.shape.format.layout.place j).2 = some (s.input.shape.format.layout.place j).2
  depth : read.depth = s.input.shape.format.container
  sides : (read.plane.width, read.plane.height) = s.input.shape.componentSides j
  sourceSides : job.sourceSides = s.input.shape.componentSides j
  destSides : job.destSides = s.output.shape.componentSides j
  value : ∀ x y, read.sample? x y (s.input.shape.format.layout.place j).2 = source.component? j x y

/-- Helper: every pixel of a component of the output is drawn by a job that makes the component. -/
private theorem exists_makes_picture {config : Config} {input : Stream} {s : Scaler} (hs : s.Serves config input)
    (hlaunches : ¬ s.passthrough) {source : Frame} (hsource : source.Matches s.input.shape) {j x y : Nat}
    (hcomponent : s.output.shape.HasComponent j x y) :
    ∃ job read, s.Makes source j job read ∧
      s.picture source (s.output.shape.format.layout.place j).1 x y
          (s.output.shape.format.layout.place j).2 =
        (job.kernel.picture read.view job.kernel.variant.dest (s.request job) x y
          (s.output.shape.format.layout.place j).2).map Fin.val := by
  obtain ⟨v, hv⟩ := Option.isSome_iff_exists.1
    (isSome_picture hs.sound hsource (Shape.hasSample_place_iff.2 hcomponent))
  -- what the scaler draws there, one of its jobs draws
  have hlast := hv
  unfold picture at hlast
  rw [if_neg hlaunches] at hlast
  obtain ⟨job, hjob, hdrawn⟩ := exists_of_lastOf_eq_some hlast
  obtain ⟨read, hread, hdrawn⟩ := Option.bind_eq_some_iff.1 hdrawn
  obtain ⟨hplane, hdrawn⟩ := Option.ite_none_right_eq_some.1 hdrawn
  obtain ⟨u, hu, -⟩ := Option.map_eq_some_iff.1 hdrawn
  -- the job writes the place of the component, so it reads it too
  obtain ⟨hsourcePlane, hchannel⟩ := place_of_mem_jobsFor? hs.jobsFor?_eq hjob
    hcomponent.1 ⟨hplane, Kernel.isSome_source?_of_picture hu⟩
  have hfits := hs.sound.fits job hjob
  obtain ⟨hsourceDepth, hsourceWidth, hsourceHeight, -⟩ := Geometry.mk.inj hfits.sourceGeometry
  obtain ⟨hdestDepth, hdestWidth, hdestHeight, -⟩ := Geometry.mk.inj hfits.destGeometry
  rw [hsourcePlane, Shape.planeSides_place] at hsourceWidth hsourceHeight
  rw [hplane, Shape.planeSides_place] at hdestWidth hdestHeight
  obtain ⟨read', hread', hgeometry⟩ := hsource.exists_plane hfits.sourcePlane_lt
  obtain rfl : read = read' := Option.some.inj (hread.symm.trans hread')
  obtain ⟨hdepth, hwidth, hheight, -⟩ := Geometry.mk.inj hgeometry
  rw [hsourcePlane, Shape.planeSides_place] at hwidth hheight
  refine ⟨job, read, ?_, hv.trans hdrawn.symm⟩
  exact
    { mem := hjob
      sourceDepth := hsourceDepth.symm
      destDepth := hdestDepth.symm
      channel := hchannel
      depth := hdepth
      sides := Prod.ext hwidth hheight
      sourceSides := Prod.ext hsourceWidth.symm hsourceHeight.symm
      destSides := Prod.ext hdestWidth.symm hdestHeight.symm
      value := fun x' y' => by
        rw [Frame.component?, hsource.shape, Frame.sample?, ← hsourcePlane, hread, Option.bind_some] }

/-- A result of launches shows each pixel of a component as a job that makes the component has drawn it. -/
theorem Shows.exists_makes {config : Config} {input : Stream} {s : Scaler} (hs : s.Serves config input)
    (hlaunches : ¬ s.passthrough) {source result : Frame} (hsource : source.Matches s.input.shape)
    (h : s.Shows source result) {j x y : Nat} (hcomponent : s.output.shape.HasComponent j x y) :
    ∃ job read, s.Makes source j job read ∧ result.component? j x y =
      (job.kernel.picture read.view job.kernel.variant.dest (s.request job) x y
        (s.output.shape.format.layout.place j).2).map Fin.val := by
  obtain ⟨job, read, hmakes, hpicture⟩ := exists_makes_picture hs hlaunches hsource hcomponent
  refine ⟨job, read, hmakes, ?_⟩
  unfold Frame.component?
  rw [h.matches_output.shape, h.sample (Shape.hasSample_place_iff.2 hcomponent), hpicture]

/-- The output of a serving scaler has as many components as the input. -/
theorem Serves.components_eq {config : Config} {input : Stream} {s : Scaler} (h : s.Serves config input) :
    s.input.shape.format.layout.components = s.output.shape.format.layout.components := by
  obtain ⟨routes, hroutes, -⟩ := jobsFor?_eq_some_iff.1 h.jobsFor?_eq
  exact Route.components_of_between? hroutes

/-! ## §3 The same components in other layouts -/

/-- Helper: the size of an output depends on formats through the sides of their chroma only. -/
private theorem outputSize_congr {a a' b b' : PixelFormat} (hinput : a.SameSubsampling a')
    (houtput : b.SameSubsampling b') (widthText heightText : String) (width height : Nat) (aspect : Ratio) :
    Size.outputSize widthText heightText ⟨⟨a, width, height⟩, aspect⟩ b =
      Size.outputSize widthText heightText ⟨⟨a', width, height⟩, aspect⟩ b' := by
  have henv : Size.environment ⟨⟨a, width, height⟩, aspect⟩ b =
      Size.environment ⟨⟨a', width, height⟩, aspect⟩ b' := by
    funext outWidth outHeight name
    unfold Size.environment
    simp only [hinput.1, hinput.2, houtput.1, houtput.2]
  unfold Size.outputSize
  rw [henv]

/-- Two scalers differ in the layouts of their formats only: the components of their inputs have the same
sides, and so have those of their outputs, and their launches have the same mode and dither alike. -/
structure DiffersInLayout (s s' : Scaler) : Prop where
  input : s.input.shape.format.SameSamples s'.input.shape.format
  output : s.output.shape.format.SameSamples s'.output.shape.format
  sourceSides : ∀ j, s.input.shape.componentSides j = s'.input.shape.componentSides j
  destSides : ∀ j, s.output.shape.componentSides j = s'.output.shape.componentSides j
  mode : s.mode = s'.mode
  dither : ∀ job ∈ s.jobs, ∀ job' ∈ s'.jobs, job.kernel.variant.dither = job'.kernel.variant.dither

/-- Scalers of one configuration, between formats that differ in their layout only, do so too. -/
theorem Serves.differsInLayout {config : Config} {format format' : OutputFormat} {a a' : PixelFormat}
    {width height : Nat} {aspect : Ratio} {s s' : Scaler}
    (hs : s.Serves { config with format } ⟨⟨a, width, height⟩, aspect⟩)
    (hs' : s'.Serves { config with format := format' } ⟨⟨a', width, height⟩, aspect⟩)
    (hinput : a.SameSamples a') (houtput : (format.resolve a).SameSamples (format'.resolve a')) :
    s.DiffersInLayout s' := by
  have hin : s.input.shape = ⟨a, width, height⟩ := by rw [hs.input_eq]
  have hin' : s'.input.shape = ⟨a', width, height⟩ := by rw [hs'.input_eq]
  -- the outputs are of one size
  obtain ⟨size, hsize, hout⟩ := hs.exists_size
  obtain ⟨size', hsize', hout'⟩ := hs'.exists_size
  obtain rfl : size = size' := Except.ok.inj (hsize.symm.trans
    ((outputSize_congr hinput.subsampling houtput.subsampling _ _ width height aspect).trans hsize'))
  have hinputs : s.input.shape.format.SameSamples s'.input.shape.format := by rwa [hin, hin']
  have houtputs : s.output.shape.format.SameSamples s'.output.shape.format := by rwa [hout, hout']
  refine
    { input := hinputs
      output := houtputs
      sourceSides := ?_
      destSides := ?_
      mode := hs.mode_eq.trans hs'.mode_eq.symm
      dither := fun job hjob job' hjob' => ?_ }
  · rw [hin, hin']
    exact Shape.componentSides_congr hinput.subsampling width height
  · rw [hout, hout']
    exact Shape.componentSides_congr houtput.subsampling size.1 size.2
  · rw [hs.dither_eq hjob, hs'.dither_eq hjob', hinputs.container, houtputs.container]

/-- Jobs that make a component from equal components draw the same picture of it, where the scalers differ in
layout only. -/
theorem Makes.picture_congr {s s' : Scaler} (hs : s.DiffersInLayout s') {source source' : Frame} {j : Nat}
    {job job' : Job} {read read' : Raster} (h : s.Makes source j job read)
    (h' : s'.Makes source' j job' read')
    (hequal : ∀ x y, source.component? j x y = source'.component? j x y) (x y : Nat) :
    (job.kernel.picture read.view job.kernel.variant.dest (s.request job) x y
        (s.output.shape.format.layout.place j).2).map Fin.val =
      (job'.kernel.picture read'.view job'.kernel.variant.dest (s'.request job') x y
        (s'.output.shape.format.layout.place j).2).map Fin.val := by
  have hsides := h.sides.trans ((hs.sourceSides j).trans h'.sides.symm)
  have hfinishes : job.kernel.variant.FinishesLike job'.kernel.variant :=
    { source := by rw [h.sourceDepth, h'.sourceDepth, hs.input.container]
      dest := by rw [h.destDepth, h'.destDepth, hs.output.container]
      dither := hs.dither job h.mem job' h'.mem }
  have hreads : read.view.ReadsLike (s.input.shape.format.layout.place j).2 read'.view
      (s'.input.shape.format.layout.place j).2 :=
    { depth := h.depth.trans (hs.input.container.trans h'.depth.symm)
      width := congrArg Prod.fst hsides
      height := congrArg Prod.snd hsides
      value := fun x' y' => (h.value x' y').trans ((hequal x' y').trans (h'.value x' y').symm) }
  refine Kernel.picture_congr hfinishes (hreads.on _ _) h.channel h'.channel ?_ x y
  unfold request
  rw [h.sourceSides, h.destSides, h'.sourceSides, h'.destSides, hs.sourceSides, hs.destSides, hs.mode]

/-- The layout does not matter: two scalers of one configuration, between formats that differ in their layout
only, scale frames with equal components to frames with equal components, whatever they have scaled before.
That goes for all pictures with chroma of half the sides, in two planes or three, as far as their containers
are the same. -/
theorem equal_components_of_process {config : Config} {format format' : OutputFormat}
    {a a' : PixelFormat} {width height : Nat} {aspect : Ratio} (hlaunches : config.passthrough = false)
    (hinput : a.SameSamples a') (houtput : (format.resolve a).SameSamples (format'.resolve a'))
    {s s' : Scaler} (hs : s.Serves { config with format } ⟨⟨a, width, height⟩, aspect⟩)
    (hs' : s'.Serves { config with format := format' } ⟨⟨a', width, height⟩, aspect⟩)
    (hmemory : s.pool = [] → ∃ new, Frame.zeros s.output.shape = .ok new)
    (hmemory' : s'.pool = [] → ∃ new, Frame.zeros s'.output.shape = .ok new) {frame frame' : Frame}
    (hshape : frame.shape = ⟨a, width, height⟩) (hframe : frame.Conforms)
    (hshape' : frame'.shape = ⟨a', width, height⟩) (hframe' : frame'.Conforms)
    (hequal : ∀ j x y, frame.component? j x y = frame'.component? j x y) :
    ∃ result result', (s.process frame).1 = .ok result ∧ (s'.process frame').1 = .ok result' ∧
      ∀ j x y, result.component? j x y = result'.component? j x y := by
  obtain ⟨result, hresult, hshows⟩ := hs.exists_shows hshape hframe hmemory
  obtain ⟨result', hresult', hshows'⟩ := hs'.exists_shows hshape' hframe' hmemory'
  have hsource := hs.frame_matches hshape hframe
  have hsource' := hs'.frame_matches hshape' hframe'
  have hlayout := hs.differsInLayout hs' hinput houtput
  -- the results have the same pixels in the same components
  have hcomponents : s.output.shape.format.layout.components =
      s'.output.shape.format.layout.components :=
    hs.components_eq.symm.trans ((hsource.components_eq hsource'
      ⟨hs.sound.inputWidth_pos, hs.sound.inputHeight_pos⟩
      ⟨hs'.sound.inputWidth_pos, hs'.sound.inputHeight_pos⟩ hequal).trans hs'.components_eq)
  have hhas : ∀ j x y, s.output.shape.HasComponent j x y ↔ s'.output.shape.HasComponent j x y := by
    intro j x y
    unfold Shape.HasComponent
    rw [hcomponents, hlayout.destSides]
  refine ⟨result, result', hresult, hresult', fun j x y => ?_⟩
  by_cases hcomponent : s.output.shape.HasComponent j x y
  · -- a pixel of a component is drawn by a launch from that component
    have hcomponent' := (hhas j x y).1 hcomponent
    obtain ⟨job, read, hmakes, hpicture⟩ :=
      hshows.exists_makes hs (hs.not_passthrough hlaunches) hsource hcomponent
    obtain ⟨job', read', hmakes', hpicture'⟩ :=
      hshows'.exists_makes hs' (hs'.not_passthrough hlaunches) hsource' hcomponent'
    rw [hpicture, hpicture']
    exact hmakes.picture_congr hlayout hmakes' (hequal j) x y
  · -- beyond the components, neither result has any
    rw [Option.not_isSome_iff_eq_none.1 (mt hshows.matches_output.isSome_component?_iff.1 hcomponent),
      Option.not_isSome_iff_eq_none.1
        (mt hshows'.matches_output.isSome_component?_iff.1 (mt (hhas j x y).2 hcomponent))]

/-- Pictures in two planes that are narrowed and dithered, the one to two planes and the other to three, have
the same components in the end. No two samples of the pictures are the same, and the corners of the components
of a result tell which component each of them comes from. -/
theorem equal_components_of_process_dithered :
    ∃ (config : Config) (s s' : Scaler) (frame frame' result result' : Frame),
      config.dither = true ∧
      configure { config with format := .only .nv12 } ⟨⟨.p010, 3, 3⟩, .unknown⟩ = .ok s ∧
      configure { config with format := .only .yuv420p } ⟨⟨.p016, 3, 3⟩, .unknown⟩ = .ok s' ∧
      (s.process frame).1 = .ok result ∧ (s'.process frame').1 = .ok result' ∧
      (∀ j x y, result.component? j x y = result'.component? j x y) ∧
      frame.visible = [#[1000, 6100, 12200, 18300, 24400, 30500, 36600, 42700, 65500],
        #[2100, 40200, 2900, 41000, 3700, 41900, 4600, 42800]] ∧
      frame'.visible = frame.visible ∧
      ([0, 1, 2].map fun j => [(0, 0), (1, 0), (0, 1), (1, 1)].map fun (x, y) => result.component? j x y) =
        [[some 3, some 24, some 72, some 95], [some 8, some 11, some 15, some 18],
          [some 157, some 160, some 164, some 167]] := by
  let luma : Raster :=
    ⟨.sixteen, 3, 3, 1, 3, #v[1000, 6100, 12200, 18300, 24400, 30500, 36600, 42700, 65500].map
      (Sample.saturate .sixteen), by decide⟩
  let chroma : Raster :=
    ⟨.sixteen, 2, 2, 2, 5, #v[2100, 40200, 2900, 41000, 9, 3700, 41900, 4600, 42800, 9].map
      (Sample.saturate .sixteen), by decide⟩
  let frame : Frame := ⟨⟨.p010, 3, 3⟩, [luma, chroma], none, .unknown⟩
  let frame' : Frame := ⟨⟨.p016, 3, 3⟩, [luma, chroma], none, .unknown⟩
  let config : Config := { Config.identity with passthrough := false }
  obtain ⟨jobs, hjobs⟩ : ∃ jobs, jobsFor? ⟨.p010, 3, 3⟩ ⟨.nv12, 3, 3⟩ true = some jobs := ⟨_, rfl⟩
  obtain ⟨jobs', hjobs'⟩ : ∃ jobs, jobsFor? ⟨.p016, 3, 3⟩ ⟨.yuv420p, 3, 3⟩ true = some jobs := ⟨_, rfl⟩
  have hs : configure { config with format := .only .nv12 } ⟨⟨.p010, 3, 3⟩, .unknown⟩ = _ :=
    configure_same_size rfl rfl (by decide) (by decide) (by decide) hjobs
  have hs' : configure { config with format := .only .yuv420p } ⟨⟨.p016, 3, 3⟩, .unknown⟩ = _ :=
    configure_same_size rfl rfl (by decide) (by decide) (by decide) hjobs'
  have hmemory : ∃ new, Frame.zeros ⟨.nv12, 3, 3⟩ = .ok new := ⟨_, rfl⟩
  have hmemory' : ∃ new, Frame.zeros ⟨.yuv420p, 3, 3⟩ = .ok new := ⟨_, rfl⟩
  have hshape : frame.shape = ⟨.p010, 3, 3⟩ := rfl
  have hshape' : frame'.shape = ⟨.p016, 3, 3⟩ := rfl
  have hconforms : frame.Conforms := by decide
  have hconforms' : frame'.Conforms := by decide
  have hequal : ∀ j x y, frame.component? j x y = frame'.component? j x y := fun _ _ _ => rfl
  have hinputs : PixelFormat.SameSamples .p010 .p016 := ⟨⟨rfl, rfl⟩, rfl⟩
  have houtputs : ((OutputFormat.only .nv12).resolve .p010).SameSamples
      ((OutputFormat.only .yuv420p).resolve .p016) := ⟨⟨rfl, rfl⟩, rfl⟩
  have hserves := serves_of_configure hs
  obtain ⟨result, result', hresult, hresult', hcomponents⟩ := equal_components_of_process rfl hinputs
    houtputs hserves (serves_of_configure hs') (fun _ => hmemory) (fun _ => hmemory')
    hshape hconforms hshape' hconforms' hequal
  refine ⟨config, _, _, frame, frame', result, result', rfl, hs, hs', hresult, hresult', hcomponents,
    by decide +kernel, rfl, ?_⟩
  -- the result shows the picture of the scaler, which can be computed
  obtain ⟨shown, hshown, hshows⟩ := hserves.exists_shows hshape hconforms fun _ => hmemory
  obtain rfl : result = shown := Except.ok.inj (hresult.symm.trans hshown)
  have hinside : ∀ j ∈ [0, 1, 2], ∀ p ∈ [(0, 0), (1, 0), (0, 1), (1, 1)],
      Shape.HasComponent ⟨.nv12, 3, 3⟩ j p.1 p.2 := by
    unfold Shape.HasComponent
    decide
  have hpicture : (jobsFor? ⟨.p010, 3, 3⟩ ⟨.nv12, 3, 3⟩ true).map (fun jobs => [0, 1, 2].map fun j =>
      [(0, 0), (1, 0), (0, 1), (1, 1)].map fun (x, y) =>
        (ofJobs { config with format := .only .nv12 } ⟨⟨.p010, 3, 3⟩, .unknown⟩ (3, 3) jobs).picture frame
          (PlaneLayout.semiPlanar.place j).1 x y (PlaneLayout.semiPlanar.place j).2) =
      some [[some 3, some 24, some 72, some 95], [some 8, some 11, some 15, some 18],
        [some 157, some 160, some 164, some 167]] := by
    simp only [picture, lastOf, jobPicture, Kernel.picture, Pass.picture_eq_map]
    decide +kernel
  rw [hjobs, Option.map_some] at hpicture
  refine Eq.trans ?_ (Option.some.inj hpicture)
  refine List.map_congr_left fun j hj => List.map_congr_left fun p hp => ?_
  unfold Frame.component?
  rw [hshows.matches_output.shape]
  exact hshows.sample (Shape.hasSample_place_iff.2 (hinside j hj p hp))

end Scaler

end Resample
