import Resample.Proofs.Scaling.Run

/-!
# Reports of a scaler

A listener hears of the configuration when it is installed, and then of every frame that is scaled: once,
in the order of the calls, numbered on from the frames that the scaler scaled before. A frame that is
refused is not heard of and takes no number. What is handed back is not heard of either, though it decides
what the pool holds.

## Contents

- §1 one frame, §2 the frames that a run has scaled, §3 refusals, §4 runs with a listener
-/

namespace Resample.Scaler

/-! ## §1 One frame -/

/-- The report of a frame that is scaled next. -/
def reportOf (s : Scaler) (frame : Frame) : Event :=
  .frameDone { index := s.count, pts := frame.pts, passthrough := s.passthrough }

/-- A frame that is scaled is heard of and counted, and its result has its presentation time. -/
theorem heard_of_process_ok {s : Scaler} {frame result : Frame}
    (h : (s.process frame).1 = .ok result) :
    (s.process frame).2.heard = s.heard.map (s.reportOf frame :: ·) ∧
      (s.process frame).2.count = s.count + 1 ∧ result.pts = frame.pts := by
  have houtcome := s.outcome_process frame
  generalize s.process frame = out at houtcome h
  cases houtcome with
  | mismatch => cases h
  | allocation => cases h
  | stopped => cases h
  | written =>
    cases h
    exact ⟨rfl, rfl, rfl⟩

/-- Handing a frame back is not heard of and counts nothing. -/
theorem heard_recycle (s : Scaler) (frame : Frame) :
    (s.recycle frame).heard = s.heard ∧ (s.recycle frame).count = s.count := by
  unfold recycle
  split <;> exact ⟨rfl, rfl⟩

/-- A frame that is refused is neither heard of nor counted. -/
theorem heard_of_process_error {s : Scaler} {frame : Frame} {e : ScaleError}
    (h : (s.process frame).1 = .error e) :
    (s.process frame).2.heard = s.heard ∧ (s.process frame).2.count = s.count := by
  have houtcome := s.outcome_process frame
  generalize s.process frame = out at houtcome h
  cases houtcome with
  | mismatch => exact ⟨rfl, rfl⟩
  | allocation => exact ⟨rfl, rfl⟩
  | @stopped dest rest =>
    -- what was written in part is handed back, and that is all
    exact heard_recycle { s with pool := rest } _
  | written => cases h

/-! ## §2 The frames that a run has scaled -/

/-- The frames that a run of calls has scaled with their results, in the order of the calls. -/
def scaled (s : Scaler) : List Call → List (Frame × Frame)
  | [] => []
  | .recycle frame :: calls => (s.recycle frame).scaled calls
  | .process frame :: calls =>
    match s.process frame with
    | (.ok result, t) => (frame, result) :: t.scaled calls
    | (.error _, t) => t.scaled calls

theorem scaled_process_ok {s : Scaler} {frame result : Frame} (h : (s.process frame).1 = .ok result)
    (calls : List Call) :
    s.scaled (.process frame :: calls) = (frame, result) :: (s.process frame).2.scaled calls := by
  rw [scaled]
  generalize s.process frame = out at h
  obtain ⟨_, t⟩ := out
  cases h
  rfl

theorem scaled_process_error {s : Scaler} {frame : Frame} {e : ScaleError}
    (h : (s.process frame).1 = .error e) (calls : List Call) :
    s.scaled (.process frame :: calls) = (s.process frame).2.scaled calls := by
  rw [scaled]
  generalize s.process frame = out at h
  obtain ⟨_, t⟩ := out
  cases h
  rfl

/-- The reports of frames that are scaled one after another, the first one as number `first`. -/
def reports (passthrough : Bool) (first : Nat) (frames : List Frame) : List Event :=
  (frames.zipIdx first).map fun (frame, index) => .frameDone { index, pts := frame.pts, passthrough }

theorem apply_recycle (s : Scaler) (frame : Frame) : s.apply (.recycle frame) = s.recycle frame := rfl

/-- A call does not change whether frames are copied. -/
theorem passthrough_apply (s : Scaler) (call : Call) : (s.apply call).passthrough = s.passthrough := by
  obtain ⟨pool, heard, count, hsetup⟩ := s.sameSetup_apply call
  rw [hsetup]

/-- A run adds the reports of the frames that it has scaled, in the order of the calls, and counts them. -/
theorem heard_run (s : Scaler) (calls : List Call) :
    (s.run calls).heard = s.heard.map (fun earlier =>
        (reports s.passthrough s.count ((s.scaled calls).map Prod.fst)).reverse ++ earlier) ∧
      (s.run calls).count = s.count + (s.scaled calls).length := by
  induction calls generalizing s with
  | nil => simp [run, scaled, reports]
  | cons call calls ih =>
    obtain ⟨hheard, hcount⟩ := ih (s.apply call)
    rw [s.passthrough_apply call] at hheard
    rw [run_cons, hheard, hcount]
    cases call with
    | recycle frame =>
      obtain ⟨hkept, hnumber⟩ := s.heard_recycle frame
      rw [apply_recycle, hkept, hnumber]
      exact ⟨rfl, rfl⟩
    | process frame =>
      rw [apply_process]
      cases hresult : (s.process frame).1 with
      | error e =>
        obtain ⟨hkept, hnumber⟩ := heard_of_process_error hresult
        rw [scaled_process_error hresult, hkept, hnumber]
        exact ⟨rfl, rfl⟩
      | ok result =>
        -- this frame has the number of the count, and the numbers of the later ones follow
        obtain ⟨hadded, hnumber, -⟩ := heard_of_process_ok hresult
        rw [scaled_process_ok hresult, hadded, hnumber, Option.map_map]
        constructor
        · simp [reports, reportOf, Function.comp_def]
        · rw [List.length_cons]
          omega

/-- All results of a run have the presentation times of their frames. -/
theorem pts_of_mem_scaled {s : Scaler} {calls : List Call} {frame result : Frame}
    (h : (frame, result) ∈ s.scaled calls) : result.pts = frame.pts := by
  induction calls generalizing s with
  | nil => exact absurd h (by simp [scaled])
  | cons call calls ih =>
    cases call with
    | recycle => exact ih h
    | process frame' =>
      cases hresult : (s.process frame').1 with
      | error e => exact ih (scaled_process_error hresult calls ▸ h)
      | ok result' =>
        rw [scaled_process_ok hresult] at h
        rcases List.mem_cons.1 h with heq | h
        · obtain ⟨rfl, rfl⟩ := Prod.mk.inj heq
          exact (heard_of_process_ok hresult).2.2
        · exact ih h

/-! ## §3 Refusals -/

/-- What stops a list of steps is the refusal of one of them. -/
theorem exists_of_stopped_attemptAll {β : Type} {step : β → Frame → Except ScaleError Frame}
    {dest : Frame} {items : List β} {e : ScaleError} (h : (attemptAll step dest items).stopped = some e) :
    ∃ item dest', step item dest' = .error e := by
  induction items generalizing dest with
  | nil => cases h
  | cons item rest ih =>
    unfold attemptAll at h
    cases hstep : step item dest with
    | error e' =>
      rw [hstep] at h
      cases h
      exact ⟨item, dest, hstep⟩
    | ok written =>
      rw [hstep] at h
      exact ih h

/-- The writing of a frame is not stopped for the shape of the frame. -/
theorem stopped_writePlanes_ne_mismatch (s : Scaler) (source dest : Frame) (expected actual : Shape) :
    (s.writePlanes source dest).stopped ≠ some (.mismatch expected actual) := by
  intro h
  unfold writePlanes at h
  split at h
  · rw [copyPlanes_eq_attemptAll] at h
    obtain ⟨item, dest', hstep⟩ := exists_of_stopped_attemptAll h
    unfold copyStep at hstep
    split at hstep <;> cases hstep
  · rw [launchJobs_eq_attemptAll] at h
    obtain ⟨job, dest', hstep⟩ := exists_of_stopped_attemptAll h
    unfold launchJob at hstep
    split at hstep
    · cases hstep
    · cases hstep
    · simp only at hstep
      split at hstep <;> cases hstep

/-- A frame of another shape than the input's is refused before anything is done. -/
theorem process_of_shape_ne {s : Scaler} {frame : Frame} (h : frame.shape ≠ s.input.shape) :
    s.process frame = (.error (.mismatch s.input.shape frame.shape), s) := by
  unfold process
  rw [if_pos h]

/-- A frame of another shape than the input's is refused for that, and no other frame is. Such a refusal
leaves the whole scaler as it was. -/
theorem process_eq_mismatch_iff {s : Scaler} {frame : Frame} :
    (∃ expected actual, (s.process frame).1 = .error (.mismatch expected actual)) ↔
      frame.shape ≠ s.input.shape ∧
        s.process frame = (.error (.mismatch s.input.shape frame.shape), s) := by
  constructor
  · rintro ⟨expected, actual, h⟩
    have houtcome := s.outcome_process frame
    generalize s.process frame = out at houtcome h ⊢
    cases houtcome with
    | mismatch hshape => exact ⟨hshape, rfl⟩
    | allocation => cases h
    | stopped e _ _ hstopped =>
      cases h
      exact absurd hstopped (s.stopped_writePlanes_ne_mismatch _ _ _ _)
    | written => cases h
  · rintro ⟨-, h⟩
    exact ⟨_, _, by rw [h]⟩

/-! ## §4 Runs with a listener -/

/-- A scaler with a listener, after any calls: the pool is never too large and holds frames declared to be of
the output shape only. The listener has heard of the configuration first, which the summary still tells, and
then of each frame that was scaled, in the order of the calls and without gaps in the numbers, which begin
with the number of frames that were scaled before the listener came. Every result has the presentation time
of its frame. A frame that is refused is not heard of and takes no number, and one that is refused for its
shape leaves the pool as it was. -/
theorem events_run_withListener {config : Config} {input : Stream} {s t : Scaler}
    (hs : configure config input = .ok s) (earlier calls : List Call)
    (ht : t = (s.run earlier).withListener.run calls) :
    (t.pool.length ≤ poolSize ∧ ∀ f ∈ t.pool, f.shape = t.output.shape) ∧
    t.events = .configured t.summary ::
      reports t.passthrough (s.scaled earlier).length
        (((s.run earlier).withListener.scaled calls).map Prod.fst) ∧
    (∀ frame result, (frame, result) ∈ (s.run earlier).withListener.scaled calls →
      result.pts = frame.pts) ∧
    ∀ frame e, (t.process frame).1 = .error e →
      (t.process frame).2.events = t.events ∧ (t.process frame).2.count = t.count ∧
      ∀ expected actual, e = .mismatch expected actual → (t.process frame).2.pool = t.pool := by
  subst ht
  have hkeeps : ((s.run earlier).withListener.run calls).Keeps := by
    have hearlier := keeps_run (keeps_of_empty (pool_of_configure hs)) earlier
    exact keeps_run (s := (s.run earlier).withListener) ⟨hearlier.length_le, hearlier.shape⟩ calls
  obtain ⟨hheard, -⟩ := heard_run (s.run earlier).withListener calls
  have hnumber : (s.run earlier).withListener.count = (s.scaled earlier).length := by
    have hcount := (s.heard_run earlier).2
    rwa [count_of_configure hs, Nat.zero_add] at hcount
  -- what the summary tells is set up once and for all
  have hsummary : ((s.run earlier).withListener.run calls).summary = (s.run earlier).summary ∧
      ((s.run earlier).withListener.run calls).passthrough = (s.run earlier).passthrough := by
    obtain ⟨pool, heard, count, hsetup⟩ := (s.run earlier).withListener.sameSetup_run calls
    rw [hsetup]
    exact ⟨rfl, rfl⟩
  refine ⟨⟨hkeeps.length_le, hkeeps.shape⟩, ?_, fun _ _ => pts_of_mem_scaled, fun frame e he => ?_⟩
  · rw [hsummary.1, hsummary.2, ← hnumber]
    unfold events
    rw [hheard]
    change (_ ++ [Event.configured (s.run earlier).summary]).reverse = _
    rw [List.reverse_append, List.reverse_reverse]
    rfl
  · obtain ⟨hkept, hcount⟩ := heard_of_process_error he
    refine ⟨by unfold events; rw [hkept], hcount, ?_⟩
    rintro expected actual rfl
    rw [(process_eq_mismatch_iff.1 ⟨_, _, he⟩).2]

/-- A listener that is there from the beginning: one frame is scaled, one of another shape is refused, a frame
of the output shape is handed back, and another frame is scaled. -/
theorem events_run_withListener_gray :
    ∃ s t first second wrong,
      configure Config.identity ⟨⟨.gray8, 2, 2⟩, .unknown⟩ = .ok s ∧
      t = s.withListener.run [.process first, .process wrong, .recycle first, .process second] ∧
      first.pts = some 7 ∧ second.pts = none ∧ wrong.shape = ⟨.gray8, 1, 2⟩ ∧
      t.events = [.configured t.summary, .frameDone ⟨0, some 7, true⟩, .frameDone ⟨1, none, true⟩] := by
  obtain ⟨jobs, hjobs⟩ : ∃ jobs, jobsFor? ⟨.gray8, 2, 2⟩ ⟨.gray8, 2, 2⟩ false = some jobs := ⟨_, rfl⟩
  obtain ⟨second, hsecond⟩ : ∃ frame, Frame.zeros ⟨.gray8, 2, 2⟩ = .ok frame := ⟨_, rfl⟩
  obtain ⟨s, hs, hpass, houtput⟩ :
      ∃ s, configure Config.identity ⟨⟨.gray8, 2, 2⟩, .unknown⟩ = .ok s ∧ s.passthrough ∧
        s.output.shape = ⟨.gray8, 2, 2⟩ :=
    ⟨_, configure_same_size rfl rfl (by decide) (by decide) (by decide) hjobs, rfl, rfl⟩
  have hpts : second.pts = none := by
    cases hsecond
    rfl
  obtain ⟨hshape, hconforms⟩ := Frame.matches_iff.1 (Frame.matches_zeros hsecond)
  rw [← houtput] at hsecond
  let first : Frame := { second with pts := some 7 }
  let wrong : Frame := { second with shape := ⟨.gray8, 1, 2⟩ }
  have hrecycled : ∀ f, Call.recycle f ∈ [.process first, .process wrong, .recycle first] → f.Conforms := by
    intro f hf
    simp only [List.mem_cons, reduceCtorEq, Call.recycle.injEq, List.not_mem_nil, or_false,
      false_or] at hf
    exact hf ▸ hconforms
  -- both frames of the input are scaled, and the one between them is refused
  obtain ⟨result, hfirst⟩ : ∃ result, (s.withListener.process first).1 = .ok result := by
    obtain ⟨result, -, h, -⟩ := exists_alike_process_run hs (some [.configured s.summary])
      (show ∀ f, Call.recycle f ∈ [] → f.Conforms by simp) (show first.shape = _ from hshape) hconforms
      hsecond
    exact ⟨result, h⟩
  obtain ⟨result', hlast⟩ : ∃ result', ((s.withListener.run
      [.process first, .process wrong, .recycle first]).process second).1 = .ok result' := by
    obtain ⟨result', -, h, -⟩ := exists_alike_process_run hs (some [.configured s.summary]) hrecycled
      hshape hconforms hsecond
    exact ⟨result', h⟩
  have hinput : (s.withListener.process first).2.input = ⟨⟨.gray8, 2, 2⟩, .unknown⟩ := by
    obtain ⟨pool, heard, count, hsetup⟩ := s.withListener.sameSetup_apply (.process first)
    rw [← apply_process, hsetup]
    exact (input_of_configure hs :)
  have hwrong : (s.withListener.process first).2.process wrong =
      (.error (.mismatch ⟨.gray8, 2, 2⟩ ⟨.gray8, 1, 2⟩), (s.withListener.process first).2) := by
    rw [process_of_shape_ne (by rw [hinput]; simp [wrong]), hinput]
  have hnext : (s.withListener.run [.process first, .process wrong, .recycle first]) =
      (s.withListener.process first).2.recycle first := by
    rw [run_cons, apply_process, run_cons, apply_process, hwrong]
    rfl
  rw [hnext] at hlast
  let calls : List Call := [.process first, .process wrong, .recycle first, .process second]
  have hscaled : s.withListener.scaled calls = [(first, result), (second, result')] := by
    rw [scaled_process_ok hfirst, scaled_process_error (congrArg Prod.fst hwrong), hwrong, scaled,
      scaled_process_ok hlast, scaled]
  have hcopies : (s.withListener.run calls).passthrough = true := by
    obtain ⟨pool, heard, count, hsetup⟩ := s.withListener.sameSetup_run calls
    rw [hsetup]
    exact hpass
  obtain ⟨-, hevents, -⟩ := events_run_withListener hs [] calls rfl
  change (s.withListener.run calls).events = .configured (s.withListener.run calls).summary ::
    reports (s.withListener.run calls).passthrough 0 ((s.withListener.scaled calls).map Prod.fst) at hevents
  rw [hscaled, hcopies] at hevents
  refine ⟨s, _, first, second, wrong, hs, rfl, rfl, hpts, rfl, hevents.trans ?_⟩
  exact congrArg (_ :: ·) (by simp [reports, first, hpts])

end Resample.Scaler
