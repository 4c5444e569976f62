import Resample.Proofs.Kernel.Coordinates
import Resample.Proofs.Scaling.Jobs

/-!
# Writing a frame

A scaler writes a frame step by step: a launch for each of its jobs, or a copy of each plane. Every step
leaves the geometry of the frame as it is, is made if the frame has room for it, and then draws a picture
that depends on the frame of the input only. What holds of the steps holds of the whole: a frame that has
room for all planes is written completely, and then shows the picture of the scaler.

## Contents

- §1 lists of steps, §2 launches, §3 copies, §4 the picture of a scaler, §5 writing all planes, §6 faults
-/

namespace Resample

/-! ## §1 Lists of steps -/

/-- Room for a plane: samples of the same depth, as many channels, and, unless the plane has no pixels, sides
that are not shorter. -/
def Geometry.Holds (g needed : Geometry) : Prop :=
  g.depth = needed.depth ∧ g.channels = needed.channels ∧
    (¬ (needed.width = 0 ∨ needed.height = 0) → needed.width ≤ g.width ∧ needed.height ≤ g.height)

instance (g needed : Geometry) : Decidable (g.Holds needed) :=
  inferInstanceAs (Decidable (_ ∧ _))

theorem Geometry.holds_self (g : Geometry) : g.Holds g :=
  ⟨rfl, rfl, fun _ => ⟨Nat.le_refl _, Nat.le_refl _⟩⟩

/-- What a step of writing does to any frame: it keeps shape and geometry, it is made exactly if the
geometry has room, and then it draws its picture over the samples that were there. -/
structure WritesFrame (step : Frame → Except ScaleError Frame) (room : List Geometry → Prop)
    (picture : Nat → Nat → Nat → Nat → Option Nat) : Prop where
  isOk_iff : ∀ dest, (∃ written, step dest = .ok written) ↔ room dest.geometry
  sample? : ∀ {dest written}, step dest = .ok written → ∀ i x y k,
    written.sample? i x y k = (dest.sample? i x y k).map fun old => (picture i x y k).getD old

/-- A step keeps the shape and the geometry of every frame that it writes. -/
def KeepsGeometry (step : Frame → Except ScaleError Frame) : Prop :=
  ∀ {dest written}, step dest = .ok written →
    written.shape = dest.shape ∧ written.geometry = dest.geometry

namespace Scaler

variable {β : Type}

/-- Makes steps one after another, until one is refused. -/
def attemptAll (step : β → Frame → Except ScaleError Frame) : Frame → List β → Attempt
  | dest, [] => ⟨dest, none⟩
  | dest, item :: rest =>
    match step item dest with
    | .ok written => attemptAll step written rest
    | .error e => ⟨dest, some e⟩

variable {step : β → Frame → Except ScaleError Frame}

/-- What every step keeps holds after the steps, whatever stops them. -/
theorem attemptAll_keeps {P : Frame → Prop}
    (hkeeps : ∀ {item dest written}, step item dest = .ok written → P dest → P written) {dest : Frame}
    (hdest : P dest) (items : List β) : P (attemptAll step dest items).frame := by
  induction items generalizing dest with
  | nil => exact hdest
  | cons item rest ih =>
    unfold attemptAll
    cases hstep : step item dest with
    | error e => exact hdest
    | ok written => exact ih (hkeeps hstep hdest)

/-- Steps keep shape and geometry, whatever stops them. -/
theorem attemptAll_geometry (hkeeps : ∀ item, KeepsGeometry (step item)) (dest : Frame)
    (items : List β) :
    (attemptAll step dest items).frame.shape = dest.shape ∧
      (attemptAll step dest items).frame.geometry = dest.geometry := by
  refine attemptAll_keeps (P := fun f => f.shape = dest.shape ∧ f.geometry = dest.geometry) ?_
    ⟨rfl, rfl⟩ items
  rintro item f written hstep ⟨hshape, hgeometry⟩
  obtain ⟨hshape', hgeometry'⟩ := hkeeps item hstep
  exact ⟨hshape'.trans hshape, hgeometry'.trans hgeometry⟩

variable {room : β → List Geometry → Prop} {drawn : β → Nat → Nat → Nat → Nat → Option Nat}

/-- Nothing stops the steps if there is room for each. -/
theorem stopped_attemptAll_eq_none_iff (hkeeps : ∀ item, KeepsGeometry (step item)) {items : List β}
    (hwrites : ∀ item ∈ items, WritesFrame (step item) (room item) (drawn item)) (dest : Frame) :
    (attemptAll step dest items).stopped = none ↔ ∀ item ∈ items, room item dest.geometry := by
  induction items generalizing dest with
  | nil => simp [attemptAll]
  | cons item rest ih =>
    have hitem := (hwrites item (List.mem_cons_self ..)).isOk_iff dest
    unfold attemptAll
    rw [List.forall_mem_cons, ← hitem]
    cases hstep : step item dest with
    | error e => simp
    | ok written =>
      -- the first step keeps the geometry, so it takes no room from the others
      rw [ih (fun item' h => hwrites item' (List.mem_cons_of_mem _ h)), (hkeeps item hstep).2]
      simp

/-- The picture of a list of steps: what the last of them draws that draws anything there. -/
def lastOf (drawn : β → Nat → Nat → Nat → Nat → Option Nat) (items : List β) (i x y k : Nat) :
    Option Nat :=
  items.reverse.findSome? fun item => drawn item i x y k

/-- Steps that nothing stops draw the picture of their list. -/
theorem sample?_attemptAll {items : List β}
    (hwrites : ∀ item ∈ items, WritesFrame (step item) (room item) (drawn item)) {dest : Frame}
    (hnone : (attemptAll step dest items).stopped = none) (i x y k : Nat) :
    (attemptAll step dest items).frame.sample? i x y k =
      (dest.sample? i x y k).map fun old => (lastOf drawn items i x y k).getD old := by
  induction items generalizing dest with
  | nil => simp [attemptAll, lastOf]
  | cons item rest ih =>
    unfold attemptAll at hnone ⊢
    cases hstep : step item dest with
    | error e => simp [hstep] at hnone
    | ok written =>
      simp only [hstep] at hnone ⊢
      rw [ih (fun item' h => hwrites item' (List.mem_cons_of_mem _ h)) hnone,
        (hwrites item (List.mem_cons_self ..)).sample? hstep, Option.map_map]
      congr 1
      funext old
      -- a later picture goes over that of the first step
      unfold lastOf
      rw [List.reverse_cons, List.findSome?_append]
      cases rest.reverse.findSome? fun item => drawn item i x y k with
      | none => simp
      | some v => simp

/-! ## §2 Launches -/

/-- The arguments of the launch of a job. -/
def request (s : Scaler) (job : Job) : Request where
  sourceWidth := job.sourceSides.1
  sourceHeight := job.sourceSides.2
  destWidth := job.destSides.1
  destHeight := job.destSides.2
  mode := s.mode
  table := s.table

/-- A raster after the launch of a job from another one. -/
def launched (s : Scaler) (job : Job) (read written : Raster) : Raster :=
  written.withData (job.kernel.written read.view written.view (s.request job))

/-- The launch of a job ends with the refusal of its kernel, or with the launched raster in its plane. -/
theorem launchJob_eq {s : Scaler} {source dest : Frame} {job : Job} {read written : Raster}
    (hread : source.plane? job.sourcePlane = some read)
    (hwritten : dest.plane? job.destPlane = some written) :
    s.launchJob source dest job =
      (job.kernel.refusal? read.view written.view (s.request job)).elim
        (.ok (dest.setPlane job.destPlane (s.launched job read written)))
        fun inner => .error (.launch job.destPlane job.kernel.name inner) := by
  have houtcome : s.launchJob source dest job =
      ((job.kernel.launch read.view written.view (s.request job)).mapError
        (.launch job.destPlane job.kernel.name)).map fun data =>
          dest.setPlane job.destPlane (written.withData data) := by
    unfold launchJob request
    rw [hread, hwritten]
    simp only
    generalize job.kernel.launch read.view written.view _ = outcome
    cases outcome <;> rfl
  rw [houtcome, Kernel.launch_eq_elim]
  cases job.kernel.refusal? read.view written.view (s.request job) <;> rfl

/-- A launch that is made replaces a plane by the launched raster. -/
theorem exists_of_launchJob {s : Scaler} {source dest result : Frame} {job : Job}
    (h : s.launchJob source dest job = .ok result) :
    ∃ read written, source.plane? job.sourcePlane = some read ∧
      dest.plane? job.destPlane = some written ∧
      job.kernel.refusal? read.view written.view (s.request job) = none ∧
      result = dest.setPlane job.destPlane (s.launched job read written) := by
  cases hread : source.plane? job.sourcePlane with
  | none => simp [launchJob, hread] at h
  | some read =>
    cases hwritten : dest.plane? job.destPlane with
    | none => simp [launchJob, hread, hwritten] at h
    | some written =>
      rw [launchJob_eq hread hwritten] at h
      cases hrefusal : job.kernel.refusal? read.view written.view (s.request job) with
      | some inner => simp [hrefusal] at h
      | none =>
        rw [hrefusal] at h
        exact ⟨read, written, rfl, rfl, hrefusal, (Except.ok.inj h).symm⟩

/-- A launch keeps shape and geometry. -/
theorem keepsGeometry_launchJob (s : Scaler) (source : Frame) (job : Job) :
    KeepsGeometry fun dest => s.launchJob source dest job := by
  intro dest result h
  obtain ⟨read, written, -, hwritten, -, rfl⟩ := exists_of_launchJob h
  exact ⟨rfl, Frame.geometry_setPlane hwritten rfl⟩

/-- Whether a list of planes has one with room for plane `i` of the output. -/
def HasRoom (s : Scaler) (planes : List Geometry) (i : Nat) : Prop :=
  ∃ g, planes[i]? = some g ∧ g.Holds (s.output.shape.planeGeometry i)

/-- The picture of a job: what its launch writes. -/
def jobPicture (s : Scaler) (source : Frame) (job : Job) (i x y k : Nat) : Option Nat :=
  (source.plane? job.sourcePlane).bind fun read =>
    if job.destPlane = i then
      (job.kernel.picture read.view job.kernel.variant.dest (s.request job) x y k).map Fin.val
    else none

/-- The kernel of a job accepts the planes exactly if the one that is written has room. -/
theorem refusal?_eq_none_iff_holds {s : Scaler} (hs : s.Sound) {job : Job} (hjob : job ∈ s.jobs)
    {read written : Raster} (hread : read.geometry = s.input.shape.planeGeometry job.sourcePlane) :
    job.kernel.refusal? read.view written.view (s.request job) = none ↔
      written.geometry.Holds (s.output.shape.planeGeometry job.destPlane) := by
  have hsource := hread.trans (hs.fits job hjob).sourceGeometry
  obtain ⟨hsourceDepth, hsourceWidth, hsourceHeight, hsourceChannels⟩ := Geometry.mk.inj hsource
  obtain ⟨-, hinWidth, hinHeight, -⟩ := Geometry.mk.inj (hs.fits job hjob).sourceGeometry
  have hin := Shape.planeSides_pos hs.inputWidth_pos hs.inputHeight_pos job.sourcePlane
  have htable := hs.table job hjob
  rw [Kernel.refusal?_eq_none_iff, (hs.fits job hjob).destGeometry]
  unfold Geometry.Holds
  constructor
  · -- the regions are checked if the launch has something to write
    rintro ⟨-, hdepth, -, hchannels, hregions⟩
    exact ⟨hdepth, hchannels, fun hsides => (hregions hsides).2.2.2⟩
  · -- what is read is a plane of the input, and fits in any case
    rintro ⟨hdepth, hchannels, hcovers⟩
    refine ⟨hsourceDepth, hdepth, hsourceChannels, hchannels, fun hsides => ?_⟩
    refine ⟨by simp only [request]; omega, htable, ⟨?_, ?_⟩, hcovers hsides⟩
    · exact Nat.le_of_eq hsourceWidth.symm
    · exact Nat.le_of_eq hsourceHeight.symm

/-- A launched raster shows the picture of the launch over what it showed before. -/
theorem sample?_launched {s : Scaler} {job : Job} {read written : Raster}
    (hnone : job.kernel.refusal? read.view written.view (s.request job) = none) (x y k : Nat) :
    (s.launched job read written).sample? x y k =
      (written.sample? x y k).map fun old =>
        ((job.kernel.picture read.view job.kernel.variant.dest (s.request job) x y k).map
          Fin.val).getD old := by
  -- the depth of the raster is that of the kernel, which the samples are of
  obtain ⟨depth, plane⟩ := written
  obtain ⟨-, hdepth, -⟩ := Kernel.refusal?_eq_none_iff.1 hnone
  have hget := Kernel.get?_written hnone x y k
  change depth = _ at hdepth
  subst hdepth
  unfold Raster.sample? launched
  refine (congrArg (Option.map Fin.val) hget).trans ?_
  rw [Option.map_map, Option.map_map]
  congr 1
  funext old
  exact (Option.getD_map Fin.val old _).symm

/-- The launch of a job of a sound scaler, from a frame of the input, is a step of writing. -/
theorem writesFrame_launchJob {s : Scaler} (hs : s.Sound) {source : Frame}
    (hsource : source.Matches s.input.shape) {job : Job} (hjob : job ∈ s.jobs) :
    WritesFrame (fun dest => s.launchJob source dest job) (fun planes => s.HasRoom planes job.destPlane)
      (s.jobPicture source job) := by
  obtain ⟨read, hread, hgeometry⟩ := hsource.exists_plane (hs.fits job hjob).sourcePlane_lt
  constructor
  · intro dest
    unfold HasRoom
    rw [Frame.getElem?_geometry]
    cases hwritten : dest.plane? job.destPlane with
    | none => simp [launchJob, hread, hwritten]
    | some written =>
      simp only [launchJob_eq hread hwritten, Option.map_some, Option.some.injEq,
        exists_eq_left', ← refusal?_eq_none_iff_holds hs hjob hgeometry]
      cases job.kernel.refusal? read.view written.view (s.request job) <;> simp
  · intro dest result h i x y k
    obtain ⟨read', written, hread', hwritten, hrefusal, rfl⟩ := exists_of_launchJob h
    obtain rfl : read = read' := Option.some.inj (hread.symm.trans hread')
    rw [Frame.sample?_setPlane hwritten]
    unfold jobPicture
    rw [hread, Option.bind_some]
    split
    · next hplane =>
      -- the plane that is written
      subst hplane
      rw [sample?_launched hrefusal]
      simp [Frame.sample?, hwritten]
    · -- any other plane
      simp

/-- Launches of jobs are a list of steps. -/
theorem launchJobs_eq_attemptAll (s : Scaler) (source dest : Frame) (jobs : List Job) :
    s.launchJobs source dest jobs =
      attemptAll (fun job dest => s.launchJob source dest job) dest jobs := by
  induction jobs generalizing dest with
  | nil => rfl
  | cons job jobs ih =>
    unfold launchJobs attemptAll
    cases hstep : s.launchJob source dest job with
    | error e => rfl
    | ok written => exact ih written

/-! ## §3 Copies -/

/-- The copy of a numbered plane into a frame. -/
def copyStep (item : Raster × Nat) (dest : Frame) : Except ScaleError Frame :=
  match copyPlane? dest item.1 item.2 with
  | some copied => .ok copied
  | none => .error (.planeLayout dest.shape item.2)

/-- Copies of planes are a list of steps. -/
theorem copyPlanes_eq_attemptAll (dest : Frame) (items : List (Raster × Nat)) :
    copyPlanes dest items = attemptAll copyStep dest items := by
  induction items generalizing dest with
  | nil => rfl
  | cons item rest ih =>
    unfold copyPlanes attemptAll copyStep
    cases hstep : copyPlane? dest item.1 item.2 with
    | none => rfl
    | some copied => exact ih copied

/-- A copy that is made replaces a plane by a raster of the same geometry, which shows the samples of the
copied one. -/
theorem exists_of_copyStep {item : Raster × Nat} {dest written : Frame}
    (h : copyStep item dest = .ok written) :
    ∃ old copied, dest.plane? item.2 = some old ∧ item.1.geometry = old.geometry ∧
      copied.geometry = old.geometry ∧ (∀ x y k, copied.sample? x y k = item.1.sample? x y k) ∧
      written = dest.setPlane item.2 copied := by
  unfold copyStep copyPlane? at h
  cases hold : dest.plane? item.2 with
  | none => simp [hold] at h
  | some old =>
    cases hcopy : old.copyFrom item.1 with
    | error e => simp [hold, hcopy, Except.toOption] at h
    | ok copied =>
      simp only [hold, hcopy, Except.toOption, Option.bind_eq_bind, Option.bind_some, Option.pure_def,
        Except.ok.injEq] at h
      have hgeometry := Raster.geometry_eq_of_copyFrom hcopy
      obtain ⟨copied', hcopy', hkeeps, hsample⟩ := Raster.exists_copyFrom hgeometry
      obtain rfl : copied = copied' := Except.ok.inj (hcopy.symm.trans hcopy')
      exact ⟨old, copied, rfl, hgeometry, hkeeps, hsample, h.symm⟩

/-- A copy keeps shape and geometry. -/
theorem keepsGeometry_copyStep (item : Raster × Nat) : KeepsGeometry (copyStep item) := by
  intro dest written h
  obtain ⟨old, copied, hold, -, hkeeps, -, rfl⟩ := exists_of_copyStep h
  exact ⟨rfl, Frame.geometry_setPlane hold hkeeps⟩

/-- The picture of a copy: the samples of the copied plane. -/
def copyPicture (item : Raster × Nat) (i x y k : Nat) : Option Nat :=
  if item.2 = i then item.1.sample? x y k else none

/-- The copy of a plane is a step of writing. -/
theorem writesFrame_copyStep (item : Raster × Nat) :
    WritesFrame (copyStep item) (fun planes => planes[item.2]? = some item.1.geometry)
      (copyPicture item) := by
  constructor
  · intro dest
    rw [Frame.getElem?_geometry]
    constructor
    · rintro ⟨written, h⟩
      obtain ⟨old, copied, hold, hgeometry, -⟩ := exists_of_copyStep h
      rw [hold, hgeometry, Option.map_some]
    · intro h
      obtain ⟨old, hold, hgeometry⟩ := Option.map_eq_some_iff.1 h
      obtain ⟨copied, hcopy, -⟩ := Raster.exists_copyFrom hgeometry.symm
      refine ⟨dest.setPlane item.2 copied, ?_⟩
      simp [copyStep, copyPlane?, hold, hcopy, Except.toOption]
  · intro dest written h i x y k
    obtain ⟨old, copied, hold, hgeometry, hkeeps, hsample, rfl⟩ := exists_of_copyStep h
    rw [Frame.sample?_setPlane hold]
    unfold copyPicture
    split
    · next hplane =>
      subst hplane
      -- the copied plane has a sample exactly where the old one has
      have hsome : (item.1.sample? x y k).isSome ↔ (old.sample? x y k).isSome := by
        rw [Raster.isSome_sample?_iff, Raster.isSome_sample?_iff, hgeometry]
      rw [hsample, Frame.sample?, hold, Option.bind_some]
      cases hnew : item.1.sample? x y k <;> cases hwas : old.sample? x y k <;> simp_all
    · simp

/-! ## §4 The picture of a scaler -/

/-- The picture that a scaler makes of a frame. -/
def picture (s : Scaler) (source : Frame) (i x y k : Nat) : Option Nat :=
  if s.passthrough then lastOf copyPicture source.planes.zipIdx i x y k
  else lastOf (s.jobPicture source) s.jobs i x y k

/-- A list of steps whose pictures agree draws what any of them draws. -/
theorem lastOf_eq_some {items : List β} {i x y k v : Nat}
    (hsome : ∃ item ∈ items, (drawn item i x y k).isSome)
    (hvalue : ∀ item ∈ items, ∀ u, drawn item i x y k = some u → u = v) :
    lastOf drawn items i x y k = some v := by
  unfold lastOf
  cases hfound : items.reverse.findSome? fun item => drawn item i x y k with
  | none =>
    obtain ⟨item, hitem, hdrawn⟩ := hsome
    rw [List.findSome?_eq_none_iff] at hfound
    rw [hfound item (List.mem_reverse.2 hitem)] at hdrawn
    exact absurd hdrawn (by simp)
  | some u =>
    obtain ⟨item, hitem, hdrawn⟩ := List.exists_of_findSome?_eq_some hfound
    rw [hvalue item (List.mem_reverse.1 hitem) u hdrawn]

/-- What a list of steps draws, one of them draws. -/
theorem exists_of_lastOf_eq_some {items : List β} {i x y k v : Nat}
    (h : lastOf drawn items i x y k = some v) : ∃ item ∈ items, drawn item i x y k = some v := by
  obtain ⟨item, hitem, hdrawn⟩ := List.exists_of_findSome?_eq_some h
  exact ⟨item, List.mem_reverse.1 hitem, hdrawn⟩

/-- A scaler that copies makes the picture that the frame shows. -/
theorem picture_of_passthrough {s : Scaler} (hpass : s.passthrough) (source : Frame)
    (i x y k : Nat) : s.picture source i x y k = source.sample? i x y k := by
  unfold picture
  rw [if_pos hpass]
  have hplane : ∀ item ∈ source.planes.zipIdx, item.2 = i → source.plane? i = some item.1 := by
    rintro ⟨r, j⟩ hitem rfl
    exact List.mk_mem_zipIdx_iff_getElem?.1 hitem
  cases hsample : source.sample? i x y k with
  | none =>
    -- no plane of that number has the sample
    unfold lastOf
    rw [List.findSome?_eq_none_iff]
    intro item hitem
    unfold copyPicture
    split
    · next hi => simpa [Frame.sample?, hplane item (List.mem_reverse.1 hitem) hi] using hsample
    · rfl
  | some v =>
    obtain ⟨r, hr, hv⟩ := Option.bind_eq_some_iff.1 hsample
    apply lastOf_eq_some
    · refine ⟨(r, i), List.mk_mem_zipIdx_iff_getElem?.2 hr, ?_⟩
      simp [copyPicture, hv]
    · intro item hitem u hu
      obtain ⟨hi, hu⟩ := Option.ite_none_right_eq_some.1 hu
      simp only [Frame.sample?, hplane item hitem hi, Option.bind_some, hu] at hsample
      exact Option.some.inj hsample

/-- A job of a sound scaler draws every channel that it writes in every pixel of its plane. -/
theorem isSome_jobPicture {s : Scaler} (hs : s.Sound) {source : Frame}
    (hsource : source.Matches s.input.shape) {job : Job} (hjob : job ∈ s.jobs) {i x y k : Nat}
    (hwrites : job.Writes i k) (hx : x < (s.output.shape.planeGeometry i).width)
    (hy : y < (s.output.shape.planeGeometry i).height) : (s.jobPicture source job i x y k).isSome := by
  obtain ⟨rfl, hchannel⟩ := hwrites
  have hfits := hs.fits job hjob
  obtain ⟨read, hread, hgeometry⟩ := hsource.exists_plane hfits.sourcePlane_lt
  obtain ⟨-, hwidth, hheight, -⟩ := Geometry.mk.inj (hgeometry.trans hfits.sourceGeometry)
  rw [hfits.destGeometry] at hx hy
  have hcovers : read.view.window.Covers (s.request job).sourceWidth (s.request job).sourceHeight :=
    ⟨Nat.le_of_eq hwidth.symm, Nat.le_of_eq hheight.symm⟩
  have hin : x < (s.request job).destWidth ∧ y < (s.request job).destHeight := ⟨hx, hy⟩
  unfold jobPicture Kernel.picture
  rw [hread, Option.bind_some, if_pos rfl, dif_pos hcovers, if_pos hin]
  simpa [Pass.picture, Request.pass] using hchannel

/-- The picture of a sound scaler has every sample of the output. -/
theorem isSome_picture {s : Scaler} (hs : s.Sound) {source : Frame}
    (hsource : source.Matches s.input.shape) {i x y k : Nat}
    (hsample : s.output.shape.HasSample i x y k) : (s.picture source i x y k).isSome := by
  by_cases hpass : s.passthrough
  · rw [picture_of_passthrough hpass, hsource.isSome_sample?_iff, ← hs.passthrough hpass]
    exact hsample
  · obtain ⟨hi, hx, hy, hk⟩ := hsample
    obtain ⟨job, hjob, hwrites⟩ := hs.writes i hi k hk
    unfold picture lastOf
    rw [if_neg hpass, List.findSome?_isSome_iff]
    exact ⟨job, List.mem_reverse.2 hjob, isSome_jobPicture hs hsource hjob hwrites hx hy⟩

/-! ## §5 Writing all planes -/

/-- Whether a scaler can write into a frame. Copies need planes of exactly the geometry of the output;
launches need planes with room for it. -/
def Accepts (s : Scaler) (dest : Frame) : Prop :=
  ∀ i < s.output.shape.format.planeCount,
    if s.passthrough then dest.geometry[i]? = some (s.output.shape.planeGeometry i)
    else s.HasRoom dest.geometry i

/-- A scaler can write into a frame of its output. -/
theorem accepts_of_matches {s : Scaler} {dest : Frame} (h : dest.Matches s.output.shape) :
    s.Accepts dest := by
  intro i hi
  have hplane : dest.geometry[i]? = some (s.output.shape.planeGeometry i) := by
    rw [h.geometry, Shape.geometry, List.getElem?_map, List.getElem?_range hi, Option.map_some]
  split
  · exact hplane
  · exact ⟨_, hplane, Geometry.holds_self _⟩

/-- Writing keeps shape and geometry, whatever stops it. -/
theorem writePlanes_geometry (s : Scaler) (source dest : Frame) :
    (s.writePlanes source dest).frame.shape = dest.shape ∧
      (s.writePlanes source dest).frame.geometry = dest.geometry := by
  unfold writePlanes
  split
  · rw [copyPlanes_eq_attemptAll]
    exact attemptAll_geometry keepsGeometry_copyStep dest _
  · rw [launchJobs_eq_attemptAll]
    exact attemptAll_geometry (keepsGeometry_launchJob s source) dest _

/-- Helper: there is room for the copies of all planes if every plane of the output is there. -/
private theorem room_of_copies_iff {s : Scaler} (hs : s.Sound) (hpass : s.passthrough) {source : Frame}
    (hsource : source.Matches s.input.shape) (dest : Frame) :
    (∀ item ∈ source.planes.zipIdx, dest.geometry[item.2]? = some item.1.geometry) ↔
      s.Accepts dest := by
  unfold Accepts
  simp only [if_pos hpass, hs.passthrough hpass]
  constructor
  · intro h i hi
    obtain ⟨r, hr, hgeometry⟩ := hsource.exists_plane hi
    rw [h (r, i) (List.mk_mem_zipIdx_iff_getElem?.2 hr), hgeometry]
  · -- a numbered plane is the plane of its number
    rintro h ⟨r, i⟩ hitem
    have hr : source.plane? i = some r := List.mk_mem_zipIdx_iff_getElem?.1 hitem
    have hi := hsource.lt_planeCount hr
    obtain ⟨r', hr', hgeometry⟩ := hsource.exists_plane hi
    obtain rfl : r = r' := Option.some.inj (hr.symm.trans hr')
    rw [h i hi, hgeometry]

/-- Helper: there is room for all launches if there is room for every plane of the output. -/
private theorem room_of_launches_iff {s : Scaler} (hs : s.Sound) (hpass : ¬ s.passthrough)
    (dest : Frame) :
    (∀ job ∈ s.jobs, s.HasRoom dest.geometry job.destPlane) ↔ s.Accepts dest := by
  unfold Accepts
  simp only [if_neg hpass]
  constructor
  · -- each plane of the output has a first channel, and a job that writes it
    intro h i hi
    obtain ⟨job, hjob, rfl, -⟩ := hs.writes i hi 0 (PixelFormat.planeChannels_pos _ i)
    exact h job hjob
  · intro h job hjob
    exact h _ (hs.fits job hjob).destPlane_lt

/-- Nothing stops the writing of a frame of the input if the scaler can write into the other frame. -/
theorem stopped_writePlanes_eq_none_iff {s : Scaler} (hs : s.Sound) {source : Frame}
    (hsource : source.Matches s.input.shape) (dest : Frame) :
    (s.writePlanes source dest).stopped = none ↔ s.Accepts dest := by
  unfold writePlanes
  by_cases hpass : s.passthrough
  · rw [if_pos hpass, copyPlanes_eq_attemptAll,
      stopped_attemptAll_eq_none_iff keepsGeometry_copyStep fun item _ => writesFrame_copyStep item,
      room_of_copies_iff hs hpass hsource]
  · rw [if_neg hpass, launchJobs_eq_attemptAll,
      stopped_attemptAll_eq_none_iff (keepsGeometry_launchJob s source)
        fun job hjob => writesFrame_launchJob hs hsource hjob,
      room_of_launches_iff hs hpass]

/-- A frame of the input that is written draws the picture of the scaler. -/
theorem sample?_writePlanes {s : Scaler} (hs : s.Sound) {source : Frame}
    (hsource : source.Matches s.input.shape) {dest : Frame} (h : s.Accepts dest) (i x y k : Nat) :
    (s.writePlanes source dest).frame.sample? i x y k =
      (dest.sample? i x y k).map fun old => (s.picture source i x y k).getD old := by
  have hnone := (stopped_writePlanes_eq_none_iff hs hsource dest).2 h
  unfold writePlanes at hnone ⊢
  unfold picture
  by_cases hpass : s.passthrough
  · rw [if_pos hpass, copyPlanes_eq_attemptAll] at hnone ⊢
    rw [if_pos hpass]
    exact sample?_attemptAll (fun item _ => writesFrame_copyStep item) hnone i x y k
  · rw [if_neg hpass, launchJobs_eq_attemptAll] at hnone ⊢
    rw [if_neg hpass]
    exact sample?_attemptAll (fun job hjob => writesFrame_launchJob hs hsource hjob) hnone i x y k

/-- A frame of the output that is written shows the picture of the scaler and nothing of what it showed
before. -/
theorem sample?_writePlanes_of_matches {s : Scaler} (hs : s.Sound) {source : Frame}
    (hsource : source.Matches s.input.shape) {dest : Frame} (h : dest.Matches s.output.shape)
    {i x y k : Nat} (hsample : s.output.shape.HasSample i x y k) :
    (s.writePlanes source dest).frame.sample? i x y k = s.picture source i x y k := by
  obtain ⟨v, hv⟩ := Option.isSome_iff_exists.1 (isSome_picture hs hsource hsample)
  obtain ⟨old, hold⟩ := Option.isSome_iff_exists.1 (h.isSome_sample?_iff.2 hsample)
  rw [sample?_writePlanes hs hsource (accepts_of_matches h), hold, hv]
  rfl

/-! ## §6 Faults -/

/-- The launch of a job meets no fault. Every mode can look up the axes of what is read, and what is written has
bands. Both planes are there, and if signed words count their samples, the launch ends well with everything
looked at before it is used, and leaves what the launch of the job leaves in the plane. -/
structure Faultless (s : Scaler) (source dest : Frame) (job : Job) : Prop where
  lookup : ∀ (read written : Raster) (texels : View) (region : Window written.view.size),
    source.plane? job.sourcePlane = some read → dest.plane? job.destPlane = some written →
    read.view.part 0 0 job.sourceSides.1 job.sourceSides.2 = .ok texels →
    written.view.window.part 0 0 job.destSides.1 job.destSides.2 = .ok region →
    (⟨texels, s.mode⟩ : Texture).checkAxes = .ok () ∧
      region.bands bandRows = .ok (region.bandList bandRows)
  launch : ∃ read written,
    source.plane? job.sourcePlane = some read ∧ dest.plane? job.destPlane = some written ∧
    (read.view.size ≤ Word.greatest → written.view.size ≤ Word.greatest →
      ∃ after, job.kernel.guardedLaunch read.view written.view (s.request job) = .ok (.ok (), after) ∧
        s.launchJob source dest job = .ok (dest.setPlane job.destPlane (written.withData after)))

/-- Helper: axes that a word counts twice can be looked up. -/
private theorem checkAxes_eq_ok {t : Texture} (hwidth : 2 * t.view.window.width ≤ Word.top)
    (hheight : 2 * t.view.window.height ≤ Word.top) : t.checkAxes = .ok () := by
  have hlookup : ∀ {len : Nat}, 2 * len ≤ Word.top → t.mode.lookup 0 len = .ok (t.mode.index? 0 len) :=
    fun hlen => if_neg fun h => Nat.not_lt.2 hlen h.2
  unfold Texture.checkAxes
  rw [hlookup hwidth, hlookup hheight]
  cases t.mode.index? 0 t.view.window.width <;> rfl

/-- A launch keeps the lengths of rows. -/
theorem shortRows_launchJob {s : Scaler} {source dest result : Frame} {job : Job}
    (h : s.launchJob source dest job = .ok result) (hrows : dest.ShortRows) : result.ShortRows := by
  obtain ⟨read, written, -, hwritten, -, rfl⟩ := exists_of_launchJob h
  intro r hr
  rcases List.mem_or_eq_of_mem_set hr with hr | rfl
  · exact hrows r hr
  · exact hrows written (List.mem_of_getElem? hwritten)

/-- The rows of a band fit into a word if the rows of the frame are short. -/
theorem band_le_top {dest : Frame} (hrows : dest.ShortRows) {i : Nat} {written : Raster}
    (hwritten : dest.plane? i = some written) : bandRows * written.plane.stride ≤ Word.top := by
  have hstride : written.plane.stride < Plane.unallocatable := hrows written (List.mem_of_getElem? hwritten)
  have hlimit : bandRows * Plane.unallocatable ≤ Word.top + 1 := by decide
  exact Nat.le_of_lt_succ (Nat.lt_of_lt_of_le (Nat.mul_lt_mul_of_pos_left hstride (by decide)) hlimit)

/-- A job of a sound scaler has no longer sides than the pictures. -/
theorem jobSides_le {s : Scaler} (hs : s.Sound) {job : Job} (hjob : job ∈ s.jobs) :
    (job.sourceSides.1 ≤ s.input.shape.width ∧ job.sourceSides.2 ≤ s.input.shape.height) ∧
      job.destSides.1 ≤ s.output.shape.width ∧ job.destSides.2 ≤ s.output.shape.height := by
  obtain ⟨-, hsourceWidth, hsourceHeight, -⟩ := Geometry.mk.inj (hs.fits job hjob).sourceGeometry
  obtain ⟨-, hdestWidth, hdestHeight, -⟩ := Geometry.mk.inj (hs.fits job hjob).destGeometry
  rw [← hsourceWidth, ← hsourceHeight, ← hdestWidth, ← hdestHeight]
  exact ⟨s.input.shape.planeSides_le job.sourcePlane, s.output.shape.planeSides_le job.destPlane⟩

section Faults

variable {s : Scaler} (hs : s.Sound) {source dest : Frame} {job : Job}
  (hwidth : s.input.shape.width + s.output.shape.width ≤ 2 ^ 54)
  (hheight : s.input.shape.height + s.output.shape.height ≤ 2 ^ 54)
include hs hwidth hheight

/-- A job of a sound scaler reads far from the longest integers if the sides of the pictures are not too long. -/
theorem fetchesBelow_request (hjob : job ∈ s.jobs) : (s.request job).FetchesBelow (2 ^ 62) := by
  obtain ⟨hread, hwritten⟩ := jobSides_le hs hjob
  exact Request.fetchesBelow (Nat.le_trans (Nat.add_le_add hread.1 hwritten.1) hwidth)
    (Nat.le_trans (Nat.add_le_add hread.2 hwritten.2) hheight)

/-- Every mode can look up the axes of the part that a job reads. -/
theorem checkAxes_of_mem_jobs (hjob : job ∈ s.jobs) {read : Raster} {texels : View}
    (htexels : read.view.part 0 0 job.sourceSides.1 job.sourceSides.2 = .ok texels) :
    (⟨texels, s.mode⟩ : Texture).checkAxes = .ok () := by
  obtain ⟨⟨hreadWidth, hreadHeight⟩, -⟩ := jobSides_le hs hjob
  have hwords : 2 * 2 ^ 54 ≤ Word.top := by decide
  rw [View.part_origin] at htexels
  split at htexels
  · cases htexels
    apply checkAxes_eq_ok
    · change 2 * job.sourceSides.1 ≤ Word.top
      omega
    · change 2 * job.sourceSides.2 ≤ Word.top
      omega
  · cases htexels

/-- The part that a job writes has bands, if the rows of the frame are short. -/
theorem bands_of_mem_jobs (hdest : dest.Matches s.output.shape) (hrows : dest.ShortRows) (hjob : job ∈ s.jobs)
    {written : Raster} (hwritten : dest.plane? job.destPlane = some written)
    {region : Window written.view.size}
    (hregion : written.view.window.part 0 0 job.destSides.1 job.destSides.2 = .ok region) :
    region.bands bandRows = .ok (region.bandList bandRows) := by
  obtain ⟨written', hwritten', hgeometry⟩ := hdest.exists_plane (hs.fits job hjob).destPlane_lt
  obtain rfl : written = written' := Option.some.inj (hwritten.symm.trans hwritten')
  obtain ⟨-, hplaneWidth, -, hchannels⟩ := Geometry.mk.inj hgeometry
  obtain ⟨-, -, hdestHeight, -⟩ := Geometry.mk.inj (hs.fits job hjob).destGeometry
  have hsigned : (2 ^ 54 : Nat) ≤ Word.greatest := by decide
  have houtput := hs.output_pos (by omega) (by omega)
  have hsides := Shape.planeSides_pos houtput.1 houtput.2 job.destPlane
  rw [Window.part_origin] at hregion
  split at hregion
  · cases hregion
    -- the rows of the plane that is written are not empty
    have hrow : 0 < written.plane.width * written.plane.channels :=
      Nat.mul_pos (hplaneWidth ▸ hsides.1) (hchannels ▸ PixelFormat.planeChannels_pos _ _)
    exact Window.bands_eq_ok (by decide) (Nat.lt_of_lt_of_eq hsides.2 hdestHeight)
      (Nat.lt_of_lt_of_le hrow written.plane.row_le_stride) (band_le_top hrows hwritten)
  · cases hregion

/-- The launches of a sound scaler into a frame of the output meet no fault, if the sides of the pictures and the
rows of the frame are not too long. -/
theorem faultless_of_mem_jobs (hsource : source.Matches s.input.shape) (hdest : dest.Matches s.output.shape)
    (hrows : dest.ShortRows) (hjob : job ∈ s.jobs) : s.Faultless source dest job := by
  obtain ⟨read, hread, hreadGeometry⟩ := hsource.exists_plane (hs.fits job hjob).sourcePlane_lt
  obtain ⟨written, hwritten, hwrittenGeometry⟩ := hdest.exists_plane (hs.fits job hjob).destPlane_lt
  constructor
  · intro read' written' texels region _ hwritten' htexels hregion
    exact ⟨checkAxes_of_mem_jobs hs hwidth hheight hjob htexels,
      bands_of_mem_jobs hs hwidth hheight hdest hrows hjob hwritten' hregion⟩
  · -- the kernel accepts the planes, so its launch ends well
    refine ⟨read, written, hread, hwritten, fun hreadSize hwrittenSize => ?_⟩
    have hnone : job.kernel.refusal? read.view written.view (s.request job) = none := by
      rw [refusal?_eq_none_iff_holds hs hjob hreadGeometry, hwrittenGeometry]
      exact Geometry.holds_self _
    refine ⟨_, Kernel.guardedLaunch_eq_ok hnone hreadSize hwrittenSize (band_le_top hrows hwritten)
      (fetchesBelow_request hs hwidth hheight hjob), ?_⟩
    rw [launchJob_eq hread hwritten, hnone, Option.elim_none]
    rfl

/-- No launch meets a fault in the frame that the launches before it have left. -/
theorem faultless_launchJobs (hsource : source.Matches s.input.shape) (hdest : dest.Matches s.output.shape)
    (hrows : dest.ShortRows) {before after : List Job} (hjobs : s.jobs = before ++ job :: after) :
    s.Faultless source (s.launchJobs source dest before).frame job := by
  have hjob : job ∈ s.jobs := hjobs ▸ List.mem_append_right before (List.mem_cons_self ..)
  rw [launchJobs_eq_attemptAll]
  obtain ⟨hshape, hgeometry⟩ := attemptAll_geometry (keepsGeometry_launchJob s source) dest before
  exact faultless_of_mem_jobs hs hwidth hheight hsource
    ⟨hshape.trans hdest.shape, hgeometry.trans hdest.geometry⟩
    (attemptAll_keeps (P := Frame.ShortRows) shortRows_launchJob hrows before) hjob

end Faults

end Scaler

end Resample
