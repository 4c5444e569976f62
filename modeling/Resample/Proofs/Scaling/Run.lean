import Resample.Proofs.Scaling.Limit
import Resample.Proofs.Scaling.Writing

/-!
# Runs of a scaler

A scaler is given frames to scale and frames to keep, in any order. What it was configured to do stays the
same throughout, and a frame that it keeps stays of the geometry that it was handed back with. So as long
as the frames handed back are of the output shape, the frames of the pool are, every frame of the input is
scaled, and the result does not tell what was there before.

A frame is kept for its declared shape, though, whatever its planes are. With one of other geometry on top
of the pool the next frame may be refused, and then all frames that follow it are.

## Contents

- §1 calls, §2 what calls keep, §3 the outcome of a frame, §4 pools of the output shape,
  §5 pools of any frames
-/

namespace Resample

/-! ## §1 Calls -/

/-- A call of a scaler. -/
inductive Call where
  /-- Scales a frame. -/
  | process (frame : Frame)
  /-- Hands a frame back. -/
  | recycle (frame : Frame)

namespace Scaler

/-- The scaler after a call. -/
def apply (s : Scaler) : Call → Scaler
  | .process frame => (s.process frame).2
  | .recycle frame => s.recycle frame

theorem apply_process (s : Scaler) (frame : Frame) : s.apply (.process frame) = (s.process frame).2 := rfl

/-- The scaler after a run of calls. -/
def run (s : Scaler) (calls : List Call) : Scaler := calls.foldl apply s

theorem run_cons (s : Scaler) (call : Call) (calls : List Call) :
    s.run (call :: calls) = (s.apply call).run calls := rfl

/-- A frame to write into is the last one handed back, or a new one if there is none. -/
inductive Takes (s : Scaler) : Frame → List Frame → Prop where
  | pooled {dest : Frame} {rest : List Frame} (h : s.pool = dest :: rest) : Takes s dest rest
  | new {dest : Frame} (h : s.pool = []) (hnew : Frame.zeros s.output.shape = .ok dest) : Takes s dest []

/-- A written frame with the properties of the frame that was scaled. -/
def finished (s : Scaler) (frame written : Frame) : Frame :=
  { written with
    pts := frame.pts
    aspect := rescaleAspect frame.aspect (s.input.shape.width, s.input.shape.height)
      (s.output.shape.width, s.output.shape.height) }

/-- What scaling a frame can come to. -/
inductive Outcome (s : Scaler) (frame : Frame) : Except ScaleError Frame × Scaler → Prop where
  | mismatch (h : frame.shape ≠ s.input.shape) :
      Outcome s frame (.error (.mismatch s.input.shape frame.shape), s)
  | allocation (inner : GridError) (hshape : frame.shape = s.input.shape) (hpool : s.pool = [])
      (h : Frame.zeros s.output.shape = .error inner) : Outcome s frame (.error (.allocation inner), s)
  | stopped {dest : Frame} {rest : List Frame} (e : ScaleError) (hshape : frame.shape = s.input.shape)
      (htakes : s.Takes dest rest) (h : (s.writePlanes frame dest).stopped = some e) :
      Outcome s frame (.error e, { s with pool := rest }.recycle (s.writePlanes frame dest).frame)
  | written {dest : Frame} {rest : List Frame} (hshape : frame.shape = s.input.shape)
      (htakes : s.Takes dest rest) (h : (s.writePlanes frame dest).stopped = none) :
      Outcome s frame (.ok (s.finished frame (s.writePlanes frame dest).frame),
        { s with pool := rest }.report frame.pts)

/-- The planes are written in the same way whatever was kept, heard and counted. -/
theorem writePlanes_with (s : Scaler) (pool : List Frame) (heard : Option (List Event)) (count : Nat)
    (source dest : Frame) :
    { s with pool, heard, count }.writePlanes source dest = s.writePlanes source dest := by
  unfold writePlanes
  split
  · rfl
  · rw [launchJobs_eq_attemptAll, launchJobs_eq_attemptAll]
    rfl

/-- Scaling a frame comes to one of its outcomes. -/
theorem outcome_process (s : Scaler) (frame : Frame) : s.Outcome frame (s.process frame) := by
  unfold process
  by_cases hshape : frame.shape = s.input.shape
  · rw [if_neg (not_not_intro hshape)]
    unfold takeFrame
    cases hpool : s.pool with
    | cons dest rest =>
      -- the last frame handed back is written over, and leaves the pool
      simp only
      rw [s.writePlanes_with rest s.heard s.count]
      cases hstopped : (s.writePlanes frame dest).stopped with
      | some e => exact .stopped e hshape (.pooled hpool) hstopped
      | none => exact .written hshape (.pooled hpool) hstopped
    | nil =>
      -- a new frame is needed, and the pool stays empty
      have hsame : s = { s with pool := [] } := by rw [← hpool]
      cases hnew : Frame.zeros s.output.shape with
      | error inner => exact .allocation inner hshape hpool hnew
      | ok dest =>
        simp only [mapError_ok, Except.map]
        cases hstopped : (s.writePlanes frame dest).stopped with
        | some e =>
          have h : s.Outcome frame _ := .stopped e hshape (.new hpool hnew) hstopped
          rwa [← hsame] at h
        | none =>
          have h : s.Outcome frame _ := .written hshape (.new hpool hnew) hstopped
          rwa [← hsame] at h
  · rw [if_pos hshape]
    exact .mismatch hshape

/-! ## §2 What calls keep -/

/-- Two scalers are set up in the same way: they differ at most in what they keep, heard and counted. -/
def SameSetup (s t : Scaler) : Prop := ∃ pool heard count, t = { s with pool, heard, count }

theorem sameSetup_refl (s : Scaler) : s.SameSetup s := ⟨s.pool, s.heard, s.count, rfl⟩

theorem SameSetup.trans {s t u : Scaler} (h : s.SameSetup t) (h' : t.SameSetup u) : s.SameSetup u := by
  obtain ⟨pool, heard, count, rfl⟩ := h
  obtain ⟨pool', heard', count', rfl⟩ := h'
  exact ⟨pool', heard', count', rfl⟩

/-- Scalers that are set up like a sound one are sound. -/
theorem Sound.of_sameSetup {s t : Scaler} (hs : s.Sound) (h : s.SameSetup t) : t.Sound := by
  obtain ⟨pool, heard, count, rfl⟩ := h
  exact
    { fits := hs.fits
      writes := hs.writes
      table := hs.table
      inputWidth_pos := hs.inputWidth_pos
      inputHeight_pos := hs.inputHeight_pos
      output_pos := hs.output_pos
      passthrough := hs.passthrough }

theorem sameSetup_recycle (s : Scaler) (frame : Frame) : s.SameSetup (s.recycle frame) := by
  unfold recycle
  split
  · exact ⟨frame :: s.pool, s.heard, s.count, rfl⟩
  · exact s.sameSetup_refl

/-- A call does not change what a scaler was configured to do. -/
theorem sameSetup_apply (s : Scaler) (call : Call) : s.SameSetup (s.apply call) := by
  cases call with
  | recycle frame => exact s.sameSetup_recycle frame
  | process frame =>
    have houtcome := s.outcome_process frame
    rw [apply_process]
    generalize s.process frame = out at houtcome
    cases houtcome with
    | mismatch => exact s.sameSetup_refl
    | allocation => exact s.sameSetup_refl
    | @stopped dest rest =>
      -- the frame is taken, and handed back
      exact SameSetup.trans ⟨rest, s.heard, s.count, rfl⟩ (sameSetup_recycle _ _)
    | @written dest rest => exact ⟨rest, _, _, rfl⟩

/-- A run of calls does not change what a scaler was configured to do. -/
theorem sameSetup_run (s : Scaler) (calls : List Call) : s.SameSetup (s.run calls) := by
  induction calls generalizing s with
  | nil => exact s.sameSetup_refl
  | cons call calls ih => exact (s.sameSetup_apply call).trans (ih _)

/-- A recycled frame is kept if it is declared to be of the output shape and there is room. -/
theorem mem_pool_recycle {s : Scaler} {frame f : Frame} (h : f ∈ (s.recycle frame).pool) :
    f ∈ s.pool ∨ f = frame ∧ frame.shape = s.output.shape := by
  unfold recycle at h
  split at h
  · next hkept =>
    rcases List.mem_cons.1 h with rfl | h
    · exact Or.inr ⟨rfl, hkept.1⟩
    · exact Or.inl h
  · exact Or.inl h

/-- Helper: the frames that are left when one is taken were there before. -/
private theorem Takes.mem_pool {s : Scaler} {dest f : Frame} {rest : List Frame}
    (h : s.Takes dest rest) (hf : f ∈ rest) : f ∈ s.pool := by
  cases h with
  | pooled hpool => exact hpool ▸ List.mem_cons_of_mem _ hf
  | new => exact absurd hf (by simp)

/-- Every frame of the pool was there before a call, or was handed back by it, or has shape and geometry
of the frame that the call wrote into. -/
theorem mem_pool_apply {s : Scaler} {call : Call} {f : Frame} (h : f ∈ (s.apply call).pool) :
    f ∈ s.pool ∨ (call = .recycle f ∧ f.shape = s.output.shape) ∨
      ∃ dest rest, s.Takes dest rest ∧ f.shape = dest.shape ∧ f.geometry = dest.geometry := by
  cases call with
  | recycle frame =>
    rcases mem_pool_recycle h with h | ⟨rfl, hshape⟩
    · exact Or.inl h
    · exact Or.inr (Or.inl ⟨rfl, hshape⟩)
  | process frame =>
    have houtcome := s.outcome_process frame
    rw [apply_process] at h
    generalize s.process frame = out at houtcome h
    cases houtcome with
    | mismatch => exact Or.inl h
    | allocation => exact Or.inl h
    | @stopped dest rest e hshape htakes =>
      -- what is handed back was written in part, which changes samples only
      rcases mem_pool_recycle h with h | ⟨rfl, -⟩
      · exact Or.inl (htakes.mem_pool h)
      · exact Or.inr (Or.inr ⟨dest, rest, htakes, s.writePlanes_geometry frame dest⟩)
    | written hshape htakes => exact Or.inl (htakes.mem_pool h)

/-! ## §3 The outcome of a frame -/

/-- A scaler takes one frame to write into, and no other. -/
theorem Takes.unique {s : Scaler} {dest dest' : Frame} {rest rest' : List Frame}
    (h : s.Takes dest rest) (h' : s.Takes dest' rest') : dest = dest' ∧ rest = rest' := by
  cases h with
  | pooled hpool =>
    cases h' with
    | pooled hpool' => exact List.cons.inj (hpool.symm.trans hpool')
    | new hpool' => exact absurd (hpool.symm.trans hpool') (by simp)
  | new hpool hnew =>
    cases h' with
    | pooled hpool' => exact absurd (hpool.symm.trans hpool') (by simp)
    | new _ hnew' => exact ⟨Except.ok.inj (hnew.symm.trans hnew'), rfl⟩

/-- A scaler takes a frame to write into, unless none is kept and none can be made. -/
theorem exists_takes_or (s : Scaler) :
    (∃ dest rest, s.Takes dest rest) ∨
      s.pool = [] ∧ ∃ inner, Frame.zeros s.output.shape = .error inner := by
  cases hpool : s.pool with
  | cons dest rest => exact Or.inl ⟨dest, rest, .pooled hpool⟩
  | nil =>
    cases hnew : Frame.zeros s.output.shape with
    | ok dest => exact Or.inl ⟨dest, [], .new hpool hnew⟩
    | error inner => exact Or.inr ⟨rfl, inner, rfl⟩

section Outcome

variable {s : Scaler} {frame : Frame}

/-- Without a frame to write into, the allocation is what is refused. -/
theorem process_eq_allocation (hframe : frame.Matches s.input.shape) {inner : GridError}
    (hpool : s.pool = []) (hnew : Frame.zeros s.output.shape = .error inner) :
    s.process frame = (.error (.allocation inner), s) := by
  have hnone : ∀ {dest rest}, ¬ s.Takes dest rest := by
    intro dest rest htakes
    cases htakes with
    | pooled h => exact absurd (h.symm.trans hpool) (by simp)
    | new _ h => exact absurd (h.symm.trans hnew) (by simp)
  have houtcome := s.outcome_process frame
  generalize s.process frame = out at houtcome
  cases houtcome with
  | mismatch h => exact absurd hframe.shape h
  | allocation inner' _ _ h => rw [Except.error.inj (h.symm.trans hnew)]
  | stopped _ _ htakes => exact absurd htakes hnone
  | written _ htakes => exact absurd htakes hnone

variable {dest : Frame} {rest : List Frame}

/-- With a frame to write into, the writing decides. -/
theorem process_of_takes (hshape : frame.shape = s.input.shape) (htakes : s.Takes dest rest) :
    s.process frame = (s.writePlanes frame dest).stopped.elim
      (.ok (s.finished frame (s.writePlanes frame dest).frame),
        { s with pool := rest }.report frame.pts)
      fun e => (.error e, { s with pool := rest }.recycle (s.writePlanes frame dest).frame) := by
  have houtcome := s.outcome_process frame
  generalize s.process frame = out at houtcome
  cases houtcome with
  | mismatch h => exact absurd hshape h
  | allocation inner _ hpool h =>
    -- the allocation fails only where there is no frame to take
    cases htakes with
    | pooled h' => exact absurd (h'.symm.trans hpool) (by simp)
    | new _ h' => exact absurd (h'.symm.trans h) (by simp)
  | stopped e _ htakes' h =>
    obtain ⟨rfl, rfl⟩ := htakes.unique htakes'
    rw [h, Option.elim_some]
  | written _ htakes' h =>
    obtain ⟨rfl, rfl⟩ := htakes.unique htakes'
    rw [h, Option.elim_none]

/-- A frame of the input is scaled if the scaler can write into the frame that it takes. -/
theorem process_of_accepts (hs : s.Sound) (hframe : frame.Matches s.input.shape)
    (htakes : s.Takes dest rest) (haccepts : s.Accepts dest) :
    s.process frame = (.ok (s.finished frame (s.writePlanes frame dest).frame),
      { s with pool := rest }.report frame.pts) := by
  rw [process_of_takes hframe.shape htakes, (stopped_writePlanes_eq_none_iff hs hframe dest).2 haccepts,
    Option.elim_none]

/-- A frame of the input is refused if the scaler cannot write into the frame that it takes, which is handed
back. -/
theorem process_of_not_accepts (hs : s.Sound) (hframe : frame.Matches s.input.shape)
    (htakes : s.Takes dest rest) (haccepts : ¬ s.Accepts dest) :
    ∃ e, s.process frame =
      (.error e, { s with pool := rest }.recycle (s.writePlanes frame dest).frame) := by
  have hstopped := mt (stopped_writePlanes_eq_none_iff hs hframe dest).1 haccepts
  obtain ⟨e, he⟩ := Option.ne_none_iff_exists'.1 hstopped
  exact ⟨e, by rw [process_of_takes hframe.shape htakes, he, Option.elim_some]⟩

end Outcome

/-! ## §4 Pools of the output shape -/

/-- Every frame of the pool is of the output shape. -/
def PoolMatches (s : Scaler) : Prop := ∀ f ∈ s.pool, f.Matches s.output.shape

/-- A frame to write into is of the output shape if those of the pool are. -/
theorem Takes.matches {s : Scaler} {dest : Frame} {rest : List Frame} (h : s.Takes dest rest)
    (hpool : s.PoolMatches) : dest.Matches s.output.shape := by
  cases h with
  | pooled hdest => exact hpool dest (hdest ▸ List.mem_cons_self ..)
  | new _ hnew => exact Frame.matches_zeros hnew

/-- The rows of a frame to write into are of a length that can be allocated if those of the pool are. -/
theorem Takes.shortRows {s : Scaler} {dest : Frame} {rest : List Frame} (h : s.Takes dest rest)
    (hpool : ∀ f ∈ s.pool, f.ShortRows) (hwidth : 0 < s.output.shape.width)
    (hheight : 0 < s.output.shape.height) : dest.ShortRows := by
  cases h with
  | pooled hdest => exact hpool dest (hdest ▸ List.mem_cons_self ..)
  | new _ hnew => exact Frame.shortRows_zeros hnew hwidth hheight

/-- A call that hands back no misshapen frame keeps the pool of the output shape. -/
theorem poolMatches_apply {s : Scaler} (hpool : s.PoolMatches) {call : Call}
    (hcall : ∀ f, call = .recycle f → f.Conforms) : (s.apply call).PoolMatches := by
  intro f hf
  obtain ⟨pool, heard, count, hsetup⟩ := s.sameSetup_apply call
  have houtput : (s.apply call).output = s.output := by rw [hsetup]
  rw [houtput]
  rcases mem_pool_apply hf with hf | ⟨hrecycle, hshape⟩ | ⟨dest, rest, htakes, hshape, hgeometry⟩
  · exact hpool f hf
  · exact Frame.matches_iff.2 ⟨hshape, hcall f hrecycle⟩
  · have hdest := htakes.matches hpool
    exact ⟨hshape.trans hdest.shape, hgeometry.trans hdest.geometry⟩

/-- A run of calls that hand back no misshapen frame keeps the pool of the output shape. -/
theorem poolMatches_run {s : Scaler} (hpool : s.PoolMatches) {calls : List Call}
    (hcalls : ∀ f, .recycle f ∈ calls → f.Conforms) : (s.run calls).PoolMatches := by
  induction calls generalizing s with
  | nil => exact hpool
  | cons call calls ih =>
    have hcall : ∀ f, call = .recycle f → f.Conforms := by
      rintro f rfl
      exact hcalls f (List.mem_cons_self ..)
    exact ih (poolMatches_apply hpool hcall) fun f hf => hcalls f (List.mem_cons_of_mem _ hf)

/-- A result shows a frame of the input: it is of the output shape, has the properties that the frame
hands on, and its samples are the picture that the scaler makes of the frame. -/
structure Shows (s : Scaler) (frame result : Frame) : Prop where
  matches_output : result.Matches s.output.shape
  pts : result.pts = frame.pts
  aspect : result.aspect = rescaleAspect frame.aspect (s.input.shape.width, s.input.shape.height)
    (s.output.shape.width, s.output.shape.height)
  sample : ∀ {i x y k}, s.output.shape.HasSample i x y k →
    result.sample? i x y k = s.picture frame i x y k

/-- A frame that was written over a frame of the output shape shows the frame of the input. -/
theorem shows_finished {s : Scaler} (hs : s.Sound) {frame dest : Frame}
    (hframe : frame.Matches s.input.shape) (hdest : dest.Matches s.output.shape) :
    s.Shows frame (s.finished frame (s.writePlanes frame dest).frame) := by
  obtain ⟨hshape, hgeometry⟩ := s.writePlanes_geometry frame dest
  exact
    { matches_output := ⟨hshape.trans hdest.shape, hgeometry.trans hdest.geometry⟩
      pts := rfl
      aspect := rfl
      sample := fun hsample => sample?_writePlanes_of_matches hs hframe hdest hsample }

/-- Results of scalers between the same shapes are alike exactly if the scalers make the same picture of the
frame. -/
theorem Shows.alike_iff {s t : Scaler} {frame result result' : Frame} (h : s.Shows frame result)
    (h' : t.Shows frame result') (hinput : s.input.shape = t.input.shape)
    (houtput : s.output.shape = t.output.shape) :
    result.Alike result' ↔ ∀ i x y k, s.output.shape.HasSample i x y k →
      s.picture frame i x y k = t.picture frame i x y k := by
  have hmatches := h.matches_output
  have hmatches' := h'.matches_output
  rw [← houtput] at hmatches'
  constructor
  · -- the pictures are read off the results
    intro halike i x y k hsample
    rw [← h.sample hsample, ← h'.sample (houtput ▸ hsample)]
    exact halike.sample i x y k
  · -- beyond the samples of the output, neither result has any
    intro hpicture
    refine ⟨hmatches.shape.trans hmatches'.shape.symm, h.pts.trans h'.pts.symm, ?_,
      hmatches.geometry.trans hmatches'.geometry.symm, fun i x y k => ?_⟩
    · rw [h.aspect, h'.aspect, hinput, houtput]
    · by_cases hsample : s.output.shape.HasSample i x y k
      · rw [h.sample hsample, h'.sample (houtput ▸ hsample), hpicture i x y k hsample]
      · rw [Option.not_isSome_iff_eq_none.1 (mt hmatches.isSome_sample?_iff.1 hsample),
          Option.not_isSome_iff_eq_none.1 (mt hmatches'.isSome_sample?_iff.1 hsample)]

/-- With a pool of the output shape, a frame of the input is scaled and shown, unless none is kept and none
can be made. -/
theorem process_of_poolMatches {s : Scaler} (hs : s.Sound) (hpool : s.PoolMatches) {frame : Frame}
    (hframe : frame.Matches s.input.shape) :
    (∃ result, (s.process frame).1 = .ok result ∧ s.Shows frame result) ∨
    s.pool = [] ∧ ∃ inner, Frame.zeros s.output.shape = .error inner ∧
      (s.process frame).1 = .error (.allocation inner) := by
  rcases s.exists_takes_or with ⟨dest, rest, htakes⟩ | ⟨hempty, inner, hinner⟩
  · have hdest := htakes.matches hpool
    rw [process_of_accepts hs hframe htakes (accepts_of_matches hdest)]
    exact Or.inl ⟨_, rfl, shows_finished hs hframe hdest⟩
  · rw [process_eq_allocation hframe hempty hinner]
    exact Or.inr ⟨hempty, inner, hinner, rfl⟩

/-- With a pool of the output shape, and memory, a frame of the input is scaled and shown. -/
theorem exists_shows_process {s : Scaler} (hs : s.Sound) (hpool : s.PoolMatches) {frame new : Frame}
    (hframe : frame.Matches s.input.shape) (hnew : Frame.zeros s.output.shape = .ok new) :
    ∃ result, (s.process frame).1 = .ok result ∧ s.Shows frame result := by
  rcases process_of_poolMatches hs hpool hframe with h | ⟨-, inner, hinner, -⟩
  · exact h
  · exact absurd (hnew.symm.trans hinner) (by simp)

/-- A scaler that keeps no frames has a pool of the output shape. -/
theorem poolMatches_of_empty {s : Scaler} (hempty : s.pool = []) : s.PoolMatches := by
  intro f hf
  rw [hempty] at hf
  exact absurd hf (by simp)

/-- Scaling does not depend on what was scaled before: after any run in which only frames whose planes
conform were handed back, a frame of the input is scaled to a frame like that which the scaler makes at
first. -/
theorem exists_alike_process_run {config : Config} {input : Stream} {s : Scaler}
    (hs : configure config input = .ok s) (heard : Option (List Event)) {calls : List Call}
    (hcalls : ∀ f, .recycle f ∈ calls → f.Conforms) {frame : Frame}
    (hshape : frame.shape = input.shape) (hframe : frame.Conforms) {new : Frame}
    (hnew : Frame.zeros s.output.shape = .ok new) :
    ∃ result fresh,
      ((({ s with heard } : Scaler).run calls).process frame).1 = .ok result ∧
      (s.process frame).1 = .ok fresh ∧ result.Alike fresh := by
  have hsound := sound_of_configure hs
  have hsource : frame.Matches s.input.shape :=
    Frame.matches_iff.2 ⟨by rw [input_of_configure hs, hshape], hframe⟩
  have hempty := pool_of_configure hs
  have hpool := poolMatches_run (s := { s with heard }) (poolMatches_of_empty hempty) hcalls
  have hrun := ({ s with heard } : Scaler).sameSetup_run calls
  generalize ({ s with heard } : Scaler).run calls = t at hpool hrun
  obtain ⟨pool, heard', count, rfl⟩ := hrun
  have hsame : s.SameSetup { s with pool, heard := heard', count } := ⟨pool, heard', count, rfl⟩
  -- both results show the picture of the frame, which the setup alone decides
  obtain ⟨result, hresult, hshows⟩ :=
    exists_shows_process (hsound.of_sameSetup hsame) hpool hsource hnew
  obtain ⟨fresh, hfresh, hshows'⟩ :=
    exists_shows_process hsound (poolMatches_of_empty hempty) hsource hnew
  exact ⟨result, fresh, hresult, hfresh, (hshows.alike_iff hshows' rfl rfl).2 fun i x y k _ => rfl⟩

/-- After a picture in two planes was brought to three, and a frame was handed back, the picture is brought
to three planes as at first. All samples of the picture differ, and none of those of the frame that is written
over, or behind its rows, is left. -/
theorem exists_alike_process_run_planar :
    ∃ s frame kept result fresh,
      configure { Config.identity with format := .only .yuv420p } ⟨⟨.nv12, 3, 3⟩, .unknown⟩ = .ok s ∧
      kept.shape = s.output.shape ∧ kept.Conforms ∧
      ((s.run [.process frame, .recycle kept]).process frame).1 = .ok result ∧
      (s.process frame).1 = .ok fresh ∧ result.Alike fresh ∧
      frame.visible = [#[1, 2, 3, 4, 5, 6, 7, 8, 9], #[10, 20, 11, 21, 12, 22, 13, 23]] ∧
      kept.visible = [#[101, 102, 103, 104, 105, 106, 107, 108, 109], #[110, 111, 112, 113],
        #[120, 121, 122, 123]] ∧
      result.visible = [#[1, 2, 3, 4, 5, 6, 7, 8, 9], #[10, 11, 12, 13], #[20, 21, 22, 23]] := by
  let luma : Raster :=
    ⟨.eight, 3, 3, 1, 4, #v[1, 2, 3, 99, 4, 5, 6, 99, 7, 8, 9, 99].map (Sample.saturate .eight), by decide⟩
  let chroma : Raster :=
    ⟨.eight, 2, 2, 2, 4, #v[10, 20, 11, 21, 12, 22, 13, 23].map (Sample.saturate .eight), by decide⟩
  let frame : Frame := ⟨⟨.nv12, 3, 3⟩, [luma, chroma], none, .unknown⟩
  let keptLuma : Raster :=
    ⟨.eight, 3, 3, 1, 3, #v[101, 102, 103, 104, 105, 106, 107, 108, 109].map (Sample.saturate .eight),
      by decide⟩
  let keptFirst : Raster :=
    ⟨.eight, 2, 2, 1, 3, #v[110, 111, 98, 112, 113, 98].map (Sample.saturate .eight), by decide⟩
  let keptSecond : Raster :=
    ⟨.eight, 2, 2, 1, 2, #v[120, 121, 122, 123].map (Sample.saturate .eight), by decide⟩
  let kept : Frame := ⟨⟨.yuv420p, 3, 3⟩, [keptLuma, keptFirst, keptSecond], none, .unknown⟩
  obtain ⟨jobs, hjobs⟩ : ∃ jobs, jobsFor? ⟨.nv12, 3, 3⟩ ⟨.yuv420p, 3, 3⟩ false = some jobs := ⟨_, rfl⟩
  obtain ⟨new, hnew⟩ : ∃ new, Frame.zeros ⟨.yuv420p, 3, 3⟩ = .ok new := ⟨_, rfl⟩
  have hs : configure { Config.identity with format := .only .yuv420p } ⟨⟨.nv12, 3, 3⟩, .unknown⟩ = _ :=
    configure_same_size rfl rfl (by decide) (by decide) (by decide) hjobs
  have hshape : frame.shape = ⟨.nv12, 3, 3⟩ := rfl
  have hconforms : frame.Conforms := by decide
  have hkept : kept.Conforms := by decide
  have hcalls : ∀ f, Call.recycle f ∈ [.process frame, .recycle kept] → f.Conforms := by
    intro f hf
    simp only [List.mem_cons, reduceCtorEq, Call.recycle.injEq, List.not_mem_nil, or_false,
      false_or] at hf
    exact hf ▸ hkept
  obtain ⟨result, fresh, hresult, hfresh, halike⟩ :=
    exists_alike_process_run hs none hcalls hshape hconforms hnew
  -- what a new scaler shows can be computed
  have hshown : (jobsFor? ⟨.nv12, 3, 3⟩ ⟨.yuv420p, 3, 3⟩ false).map (fun jobs =>
      ((ofJobs { Config.identity with format := .only .yuv420p } ⟨⟨.nv12, 3, 3⟩, .unknown⟩ (3, 3)
        jobs).process frame).1.toOption.map Frame.visible) =
      some (some [#[1, 2, 3, 4, 5, 6, 7, 8, 9], #[10, 11, 12, 13], #[20, 21, 22, 23]]) := by
    decide +kernel
  rw [hjobs, Option.map_some, hfresh] at hshown
  have hvisible := Frame.visible_eq_of_sample? halike.geometry halike.sample
  exact ⟨_, frame, kept, result, fresh, hs, rfl, hkept, hresult, hfresh, halike, by decide +kernel,
    by decide +kernel, hvisible.trans (Option.some.inj (Option.some.inj hshown))⟩

/-- Configuration is all that can fail: with any frames of the output shape in the pool, a frame of the
input is scaled to a frame with exactly the planes of the output, and if there is nothing to write into,
the allocation is what is refused. If no side is `2 ^ 62` pixels long and no row of the pool `2 ^ 60`
samples, no launch meets a fault in the frame that the launches before it have left: with everything looked
at before it is used, it ends well, and leaves what the scaler goes on with. -/
theorem process_of_configure {config : Config} {input : Stream} {s : Scaler}
    (hs : configure config input = .ok s) {pool : List Frame}
    (hpool : ∀ f ∈ pool, f.shape = s.output.shape ∧ f.Conforms) (heard : Option (List Event))
    (count : Nat) {frame : Frame} (hshape : frame.shape = input.shape) (hframe : frame.Conforms) :
    ((∃ result, (({ s with pool, heard, count } : Scaler).process frame).1 = .ok result ∧
        result.shape = s.output.shape ∧ result.geometry = s.output.shape.geometry) ∨
      pool = [] ∧ ∃ inner, Frame.zeros s.output.shape = .error inner ∧
        (({ s with pool, heard, count } : Scaler).process frame).1 = .error (.allocation inner)) ∧
    (input.shape.width < 2 ^ 62 → input.shape.height < 2 ^ 62 →
      (∀ f ∈ pool, ∀ r ∈ f.planes, r.plane.stride < 2 ^ 60) →
      ∀ dest rest, ({ s with pool, heard, count } : Scaler).Takes dest rest →
        ∀ before job after, s.jobs = before ++ job :: after →
          s.Faultless frame (s.launchJobs frame dest before).frame job) := by
  have hsound := sound_of_configure hs
  have hinput := input_of_configure hs
  have hsame : s.SameSetup { s with pool, heard, count } := ⟨pool, heard, count, rfl⟩
  have hsource : frame.Matches s.input.shape := Frame.matches_iff.2 ⟨by rw [hinput, hshape], hframe⟩
  have hmatches : ({ s with pool, heard, count } : Scaler).PoolMatches :=
    fun f hf => Frame.matches_iff.2 (hpool f hf)
  constructor
  · -- the result, or the one thing that is refused
    rcases process_of_poolMatches (hsound.of_sameSetup hsame) hmatches hsource with
      ⟨result, hresult, hshows⟩ | hfailed
    · exact Or.inl
        ⟨result, hresult, hshows.matches_output.shape, hshows.matches_output.geometry⟩
    · exact Or.inr hfailed
  · -- the launches, in the frame that is taken
    intro hwidth hheight hstrides dest rest htakes before job after hjobs
    have hsigned : (2 ^ 62 : Nat) ≤ Word.greatest := by decide
    have hlength : 2 ^ 60 = Plane.unallocatable := by decide
    have hlimit : 2 * Size.productLimit ≤ 2 ^ 54 := by decide
    -- the size limit keeps the sides of both pictures short
    have hwithin := withinLimit_of_configure hs (by omega) (by omega)
    obtain ⟨hwidths, hheights⟩ :=
      hwithin.sides_le (hinput ▸ hsound.inputWidth_pos) (hinput ▸ hsound.inputHeight_pos)
    have hrows : dest.ShortRows :=
      htakes.shortRows (fun f hf r hr => Nat.lt_of_lt_of_eq (hstrides f hf r hr) hlength)
        hwithin.width hwithin.height
    rw [← hinput] at hwidths hheights
    exact faultless_launchJobs hsound (by omega) (by omega) hsource (htakes.matches hmatches) hrows hjobs

/-- A dithered picture is scaled into a frame of the pool, and has the planes of the output. The first of its
launches ends well with everything looked at before it is used. -/
theorem process_of_configure_dithered :
    ∃ s kept frame result job read written after,
      configure { Config.identity with format := .only .nv12 } ⟨⟨.p010, 3, 3⟩, .unknown⟩ = .ok s ∧
      (({ s with pool := [kept] } : Scaler).process frame).1 = .ok result ∧
      result.geometry = [⟨.eight, 3, 3, 1⟩, ⟨.eight, 2, 2, 2⟩] ∧
      s.jobs.head? = some job ∧ frame.plane? job.sourcePlane = some read ∧
      kept.plane? job.destPlane = some written ∧
      job.kernel.guardedLaunch read.view written.view (s.request job) = .ok (.ok (), after) := by
  let luma : Raster :=
    ⟨.sixteen, 3, 3, 1, 4, #v[64, 128, 192, 9, 256, 320, 384, 9, 448, 512, 576, 9].map
      (Sample.saturate .sixteen), by decide⟩
  let chroma : Raster :=
    ⟨.sixteen, 2, 2, 2, 4, #v[640, 1280, 704, 1344, 768, 1408, 832, 1472].map (Sample.saturate .sixteen),
      by decide⟩
  let frame : Frame := ⟨⟨.p010, 3, 3⟩, [luma, chroma], none, .unknown⟩
  let keptLuma : Raster :=
    ⟨.eight, 3, 3, 1, 3, #v[101, 102, 103, 104, 105, 106, 107, 108, 109].map (Sample.saturate .eight),
      by decide⟩
  let keptChroma : Raster :=
    ⟨.eight, 2, 2, 2, 4, #v[110, 120, 111, 121, 112, 122, 113, 123].map (Sample.saturate .eight), by decide⟩
  let kept : Frame := ⟨⟨.nv12, 3, 3⟩, [keptLuma, keptChroma], none, .unknown⟩
  obtain ⟨job, jobs, hjobs⟩ : ∃ job jobs, jobsFor? ⟨.p010, 3, 3⟩ ⟨.nv12, 3, 3⟩ true = some (job :: jobs) :=
    ⟨_, _, rfl⟩
  have hs : configure { Config.identity with format := .only .nv12 } ⟨⟨.p010, 3, 3⟩, .unknown⟩ = _ :=
    configure_same_size rfl rfl (by decide) (by decide) (by decide) hjobs
  have hshape : frame.shape = ⟨.p010, 3, 3⟩ := rfl
  have hconforms : frame.Conforms := by decide
  have hpool : ∀ f ∈ [kept], f.shape = ⟨.nv12, 3, 3⟩ ∧ f.Conforms := by decide
  obtain ⟨hscaled, hfaultless⟩ := process_of_configure hs hpool none 0 hshape hconforms
  rcases hscaled with ⟨result, hresult, -, hgeometry⟩ | ⟨hempty, -⟩
  · have hplanes : Shape.geometry ⟨.nv12, 3, 3⟩ = [⟨.eight, 3, 3, 1⟩, ⟨.eight, 2, 2, 2⟩] := by decide
    -- the first launch writes into the frame that is taken
    obtain ⟨read, written, hread, hwritten, hlaunch⟩ :=
      (hfaultless (by decide) (by decide) (by decide) kept [] (.pooled rfl) [] job jobs rfl).launch
    have hreadSize : ∀ r ∈ frame.planes, r.view.size ≤ Word.greatest := by decide
    have hwrittenSize : ∀ r ∈ kept.planes, r.view.size ≤ Word.greatest := by decide
    obtain ⟨after, hafter, -⟩ := hlaunch (hreadSize read (List.mem_of_getElem? hread))
      (hwrittenSize written (List.mem_of_getElem? hwritten))
    exact ⟨_, kept, frame, result, job, read, written, after, hs, hresult, hgeometry.trans hplanes, rfl,
      hread, hwritten, hafter⟩
  · exact absurd hempty (by simp)

/-! ## §5 Pools of any frames -/

/-- What the pool always is: there is room for few frames, and every frame is declared to be of the output
shape. -/
structure Keeps (s : Scaler) : Prop where
  length_le : s.pool.length ≤ poolSize
  shape : ∀ f ∈ s.pool, f.shape = s.output.shape

theorem keeps_of_empty {s : Scaler} (hempty : s.pool = []) : s.Keeps := by
  constructor
  · rw [hempty]
    exact Nat.zero_le _
  · intro f hf
    rw [hempty] at hf
    exact absurd hf (by simp)

theorem keeps_recycle {s : Scaler} (h : s.Keeps) (frame : Frame) : (s.recycle frame).Keeps := by
  unfold recycle
  split
  · next hkept =>
    refine ⟨hkept.2, fun f hf => ?_⟩
    rcases List.mem_cons.1 hf with rfl | hf
    · exact hkept.1
    · exact h.shape f hf
  · exact h

/-- Helper: without the frame that is taken, the pool is smaller. -/
private theorem Takes.keeps {s : Scaler} (h : s.Keeps) {dest : Frame} {rest : List Frame}
    (htakes : s.Takes dest rest) (heard : Option (List Event)) (count : Nat) :
    ({ s with pool := rest, heard, count } : Scaler).Keeps := by
  refine ⟨?_, fun f hf => h.shape f (htakes.mem_pool hf)⟩
  have hlength := h.length_le
  cases htakes with
  | pooled hpool =>
    rw [hpool, List.length_cons] at hlength
    exact Nat.le_of_succ_le hlength
  | new => exact Nat.zero_le _

/-- A call keeps the pool what it is. -/
theorem keeps_apply {s : Scaler} (h : s.Keeps) (call : Call) : (s.apply call).Keeps := by
  cases call with
  | recycle frame => exact keeps_recycle h frame
  | process frame =>
    have houtcome := s.outcome_process frame
    rw [apply_process]
    generalize s.process frame = out at houtcome
    cases houtcome with
    | mismatch => exact h
    | allocation => exact h
    | stopped _ _ htakes => exact keeps_recycle (htakes.keeps h s.heard s.count) _
    | written _ htakes => exact htakes.keeps h _ _

theorem keeps_run {s : Scaler} (h : s.Keeps) (calls : List Call) : (s.run calls).Keeps := by
  induction calls generalizing s with
  | nil => exact h
  | cons call calls ih => exact ih (keeps_apply h call)

/-- A scaler is blocked if it cannot write into the frame on top of its pool. -/
def Blocked (s : Scaler) : Prop := ∃ top ∈ s.pool.head?, ¬ s.Accepts top

/-- A frame of the input is scaled exactly if the scaler is not blocked. -/
theorem isOk_process_iff {s : Scaler} (hs : s.Sound) {new : Frame}
    (hnew : Frame.zeros s.output.shape = .ok new) {frame : Frame}
    (hframe : frame.Matches s.input.shape) :
    (∃ result, (s.process frame).1 = .ok result) ↔ ¬ s.Blocked := by
  unfold Blocked
  rcases s.exists_takes_or with ⟨dest, rest, htakes⟩ | ⟨-, inner, hinner⟩
  · have hhead : s.Accepts dest ↔ ¬ ∃ top ∈ s.pool.head?, ¬ s.Accepts top := by
      cases htakes with
      | pooled hpool => simp [hpool]
      | new hpool hdest => simp [hpool, accepts_of_matches (Frame.matches_zeros hdest)]
    rw [← hhead]
    by_cases haccepts : s.Accepts dest
    · rw [process_of_accepts hs hframe htakes haccepts]
      exact iff_of_true ⟨_, rfl⟩ haccepts
    · obtain ⟨e, he⟩ := process_of_not_accepts hs hframe htakes haccepts
      rw [he]
      exact iff_of_false (by simp) haccepts
  · exact absurd (hnew.symm.trans hinner) (by simp)

/-- Whether a scaler can write into a frame depends on the geometry of the frame and the setup of the
scaler only. -/
theorem SameSetup.accepts_iff {s t : Scaler} (h : s.SameSetup t) {f g : Frame}
    (hgeometry : f.geometry = g.geometry) : t.Accepts f ↔ s.Accepts g := by
  obtain ⟨pool, heard, count, rfl⟩ := h
  unfold Accepts
  rw [hgeometry]
  rfl

/-- A blocked scaler stays blocked when it is given a frame of the input. -/
theorem blocked_process {s : Scaler} (hs : s.Sound) (hkeeps : s.Keeps) (hblocked : s.Blocked)
    {frame : Frame} (hframe : frame.Matches s.input.shape) : (s.process frame).2.Blocked := by
  obtain ⟨top, htop, hnot⟩ := hblocked
  obtain ⟨rest, hpool⟩ : ∃ rest, s.pool = top :: rest := List.head?_eq_some_iff.1 htop
  obtain ⟨e, he⟩ := process_of_not_accepts hs hframe (.pooled hpool) hnot
  obtain ⟨hshape, hgeometry⟩ := s.writePlanes_geometry frame top
  have htopShape : top.shape = s.output.shape := hkeeps.shape top (hpool ▸ List.mem_cons_self ..)
  have hroom : rest.length < poolSize := by
    have hlength := hkeeps.length_le
    rw [hpool, List.length_cons] at hlength
    exact hlength
  -- the frame is declared to be of the output shape, so it goes back to the top
  rw [he]
  unfold recycle
  rw [if_pos ⟨hshape.trans htopShape, hroom⟩]
  refine ⟨_, rfl, ?_⟩
  rwa [SameSetup.accepts_iff ⟨_, s.heard, s.count, rfl⟩ hgeometry]

/-- A blocked scaler stays blocked through any run of frames of the input. -/
theorem blocked_run {s : Scaler} (hs : s.Sound) (hkeeps : s.Keeps) (hblocked : s.Blocked)
    {frames : List Frame} (hframes : ∀ f ∈ frames, f.Matches s.input.shape) :
    (s.run (frames.map .process)).Blocked := by
  -- a frame that is refused leaves a scaler of the same setup, so the next one is of its input too
  induction frames generalizing s with
  | nil => exact hblocked
  | cons frame frames ih =>
    have hframe := hframes frame (List.mem_cons_self ..)
    have hsame := s.sameSetup_apply (.process frame)
    rw [List.map_cons, run_cons]
    refine ih (hs.of_sameSetup hsame) (keeps_apply hkeeps _) (blocked_process hs hkeeps hblocked hframe) ?_
    intro f hf
    obtain ⟨pool, heard, count, h⟩ := hsame
    rw [h]
    exact hframes f (List.mem_cons_of_mem _ hf)

/-- A blocked scaler scales no frame of the input, however many are given to it. -/
theorem not_isOk_run_of_blocked {s t : Scaler} (hs : s.Sound) (hsame : s.SameSetup t)
    (hkeeps : t.Keeps) (hblocked : t.Blocked) {new : Frame}
    (hnew : Frame.zeros s.output.shape = .ok new) {frame : Frame}
    (hframe : frame.Matches s.input.shape) {frames : List Frame}
    (hframes : ∀ f ∈ frames, f.Matches s.input.shape) :
    ¬ ∃ result, ((t.run (frames.map .process)).process frame).1 = .ok result := by
  obtain ⟨pool, heard, count, rfl⟩ := hsame
  have hsound := hs.of_sameSetup ⟨pool, heard, count, rfl⟩
  have hlater := blocked_run hsound hkeeps hblocked hframes
  obtain ⟨pool', heard', count', hsetup⟩ :=
    sameSetup_run { s with pool, heard, count } (frames.map .process)
  rw [hsetup] at hlater ⊢
  rw [isOk_process_iff (hs.of_sameSetup ⟨pool', heard', count', rfl⟩) hnew hframe]
  exact not_not_intro hlater

/-- A frame that is handed back blocks a scaler that keeps none, if it is declared to be of the output
shape and the scaler cannot write into it. -/
theorem blocked_recycle {s : Scaler} (hempty : s.pool = []) {frame : Frame}
    (hshape : frame.shape = s.output.shape) (hnot : ¬ s.Accepts frame) :
    (s.recycle frame).pool = [frame] ∧ (s.recycle frame).Blocked := by
  unfold recycle
  rw [hempty, if_pos ⟨hshape, by decide⟩]
  refine ⟨rfl, frame, rfl, ?_⟩
  rwa [SameSetup.accepts_iff ⟨[frame], s.heard, s.count, rfl⟩ rfl]

/-- Helper: a scaler that keeps no frame and scales one has made a new one. -/
private theorem exists_zeros_of_process {s : Scaler} (hempty : s.pool = []) {frame result : Frame}
    (h : (s.process frame).1 = .ok result) : ∃ new, Frame.zeros s.output.shape = .ok new := by
  have houtcome := s.outcome_process frame
  generalize s.process frame = out at houtcome h
  cases houtcome with
  | mismatch => cases h
  | allocation => cases h
  | stopped => cases h
  | written _ htakes =>
    cases htakes with
    | pooled hpool => exact absurd (hpool.symm.trans hempty) (by simp)
    | new _ hnew => exact ⟨_, hnew⟩

/-- After any run, whatever frames were handed back, a frame of the input that the scaler could scale at
first is scaled exactly if the scaler can write into the frame on top of the pool. If it cannot, it does
not get past that frame any more, however many frames of the input follow. -/
theorem process_run_isOk_iff {config : Config} {input : Stream} {s : Scaler}
    (hs : configure config input = .ok s) (heard : Option (List Event)) (calls : List Call)
    {frame fresh : Frame} (hshape : frame.shape = input.shape) (hframe : frame.Conforms)
    (hfresh : (s.process frame).1 = .ok fresh) :
    ((∃ result, ((({ s with heard } : Scaler).run calls).process frame).1 = .ok result) ↔
      ∀ top ∈ (({ s with heard } : Scaler).run calls).pool.head?, s.Accepts top) ∧
    ((∃ top ∈ (({ s with heard } : Scaler).run calls).pool.head?, ¬ s.Accepts top) →
      ∀ frames : List Frame, (∀ f ∈ frames, f.shape = input.shape ∧ f.Conforms) →
        ¬ ∃ result, (((({ s with heard } : Scaler).run calls).run (frames.map .process)).process
          frame).1 = .ok result) := by
  have hempty := pool_of_configure hs
  have hinput := input_of_configure hs
  obtain ⟨new, hnew⟩ := exists_zeros_of_process hempty hfresh
  have hmatches : ∀ f : Frame, f.shape = input.shape → f.Conforms → f.Matches s.input.shape :=
    fun f hf hf' => Frame.matches_iff.2 ⟨by rw [hinput, hf], hf'⟩
  -- what the run leaves: the same setup, and a pool of frames that are declared to be of the output
  have hrunKeeps := keeps_run (s := { s with heard }) (keeps_of_empty hempty) calls
  have hrun : s.SameSetup (({ s with heard } : Scaler).run calls) :=
    SameSetup.trans ⟨s.pool, heard, s.count, rfl⟩ (sameSetup_run _ calls)
  generalize ({ s with heard } : Scaler).run calls = t at hrunKeeps hrun
  have hsound := sound_of_configure hs
  have hblocked : t.Blocked ↔ ∃ top ∈ t.pool.head?, ¬ s.Accepts top := by
    unfold Blocked
    simp only [hrun.accepts_iff rfl]
  constructor
  · -- the next frame
    obtain ⟨pool, heard', count, rfl⟩ := hrun
    rw [isOk_process_iff (hsound.of_sameSetup ⟨pool, heard', count, rfl⟩) hnew
      (hmatches frame hshape hframe), hblocked]
    simp only [not_exists, not_and, Classical.not_not]
  · -- and all frames after it
    intro hnot frames hframes
    exact not_isOk_run_of_blocked hsound hrun hrunKeeps (hblocked.2 hnot) hnew
      (hmatches frame hshape hframe) fun f hf => hmatches f (hframes f hf).1 (hframes f hf).2

/-- A scaler that was handed back its own result scales the next frame, since it can write into that. -/
theorem process_run_isOk_iff_gray :
    ∃ s frame fresh,
      configure Config.identity ⟨⟨.gray8, 2, 2⟩, .unknown⟩ = .ok s ∧ (s.process frame).1 = .ok fresh ∧
      ((∃ result, ((s.run [.process frame, .recycle fresh]).process frame).1 = .ok result) ↔
        ∀ top ∈ (s.run [.process frame, .recycle fresh]).pool.head?, s.Accepts top) := by
  obtain ⟨jobs, hjobs⟩ : ∃ jobs, jobsFor? ⟨.gray8, 2, 2⟩ ⟨.gray8, 2, 2⟩ false = some jobs := ⟨_, rfl⟩
  obtain ⟨frame, hframe⟩ : ∃ frame, Frame.zeros ⟨.gray8, 2, 2⟩ = .ok frame := ⟨_, rfl⟩
  have hs : configure Config.identity ⟨⟨.gray8, 2, 2⟩, .unknown⟩ = _ :=
    configure_same_size rfl rfl (by decide) (by decide) (by decide) hjobs
  have hmatches := Frame.matches_zeros hframe
  obtain ⟨hshape, hconforms⟩ := Frame.matches_iff.1 hmatches
  obtain ⟨fresh, hfresh⟩ := (isOk_process_iff (sound_of_configure hs) hframe hmatches).2
    (by simp [Blocked, pool_of_configure hs])
  exact ⟨_, frame, fresh, hs, hfresh,
    (process_run_isOk_iff hs none [.process frame, .recycle fresh] hshape hconforms hfresh).1⟩

/-- A frame is kept for its declared shape: here its only plane was replaced by a smaller one, and the
frames of the input that follow are refused, the first one and the next. -/
theorem exists_recycle_blocks :
    ∃ s a b fresh,
      configure Config.identity ⟨⟨.gray8, 2, 2⟩, .unknown⟩ = .ok s ∧
      a.shape = s.input.shape ∧ a.Conforms ∧ (s.process a).1 = .ok fresh ∧
      (s.recycle b).pool = [b] ∧ b.geometry = [⟨.eight, 1, 1, 1⟩] ∧
      (¬ ∃ result, ((s.run [.recycle b]).process a).1 = .ok result) ∧
      ¬ ∃ result, ((s.run [.recycle b, .process a]).process a).1 = .ok result := by
  obtain ⟨jobs, hjobs⟩ : ∃ jobs, jobsFor? ⟨.gray8, 2, 2⟩ ⟨.gray8, 2, 2⟩ false = some jobs := ⟨_, rfl⟩
  obtain ⟨a, ha⟩ : ∃ a, Frame.zeros ⟨.gray8, 2, 2⟩ = .ok a := ⟨_, rfl⟩
  obtain ⟨small, hsmall⟩ : ∃ r, Raster.zeros .eight 1 1 1 = .ok r := ⟨_, rfl⟩
  obtain ⟨s, hs, hpass, houtput⟩ :
      ∃ s, configure Config.identity ⟨⟨.gray8, 2, 2⟩, .unknown⟩ = .ok s ∧ s.passthrough ∧
        s.output.shape = ⟨.gray8, 2, 2⟩ :=
    ⟨_, configure_same_size rfl rfl (by decide) (by decide) (by decide) hjobs, rfl, rfl⟩
  have hsound := sound_of_configure hs
  have hempty := pool_of_configure hs
  have hmatches : a.Matches s.input.shape := input_of_configure hs ▸ Frame.matches_zeros ha
  rw [← houtput] at ha
  obtain ⟨fresh, hfresh⟩ := (isOk_process_iff hsound ha hmatches).2 (by simp [Blocked, hempty])
  -- the frame that is handed back
  have hplanes : Frame.geometry ⟨⟨.gray8, 2, 2⟩, [small], none, .unknown⟩ = [⟨.eight, 1, 1, 1⟩] :=
    congrArg (fun g => [g]) (Raster.geometry_zeros hsmall)
  have hnot : ¬ s.Accepts ⟨⟨.gray8, 2, 2⟩, [small], none, .unknown⟩ := by
    intro haccepts
    have hplane := haccepts 0 (houtput ▸ Nat.one_pos)
    rw [if_pos hpass, hplanes, houtput] at hplane
    cases hplane
  obtain ⟨hpool, hblocked⟩ := blocked_recycle hempty houtput.symm hnot
  have hkeeps := keeps_of_empty hempty
  have hrefused : ∀ frames : List Frame, (∀ f ∈ frames, f.Matches s.input.shape) →
      ¬ ∃ result, (((s.recycle ⟨⟨.gray8, 2, 2⟩, [small], none, .unknown⟩).run
        (frames.map .process)).process a).1 = .ok result :=
    fun frames => not_isOk_run_of_blocked hsound (s.sameSetup_recycle _) (keeps_recycle hkeeps _) hblocked
      ha hmatches
  have hsingle : ∀ f ∈ [a], f.Matches s.input.shape := fun f hf => List.mem_singleton.1 hf ▸ hmatches
  obtain ⟨hshape, hconforms⟩ := Frame.matches_iff.1 hmatches
  exact ⟨s, a, _, fresh, hs, hshape, hconforms, hfresh, hpool, hplanes, hrefused [] (by simp),
    hrefused [a] hsingle⟩

end Scaler

end Resample
