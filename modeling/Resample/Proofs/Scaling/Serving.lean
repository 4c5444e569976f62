import Resample.Proofs.Scaling.Run

/-!
# Scalers in use

A scaler in use is what its configuration has set up, whatever it has kept, heard and counted since. It stays
so through every run of calls that hand back frames whose planes conform. What it was configured to do can be
read off at any time, and it shows every frame of its input.

## Contents

- §1 serving a configuration, §2 what a serving scaler does
-/

namespace Resample.Scaler

variable {config : Config} {input : Stream} {s : Scaler}

/-! ## §1 Serving a configuration -/

/-- A scaler serves a configuration for an input: it is set up as configured, and keeps only frames of the
output shape. -/
structure Serves (s : Scaler) (config : Config) (input : Stream) : Prop where
  setup : ∃ fresh, configure config input = .ok fresh ∧ fresh.SameSetup s
  pool : s.PoolMatches

/-- A configured scaler serves its configuration. -/
theorem serves_of_configure (h : configure config input = .ok s) : s.Serves config input :=
  ⟨⟨s, h, s.sameSetup_refl⟩, poolMatches_of_empty (pool_of_configure h)⟩

/-- A serving scaler serves whatever was heard of it, and if a listener is added. -/
theorem Serves.withHeard (h : s.Serves config input) (heard : Option (List Event)) :
    ({ s with heard } : Scaler).Serves config input := by
  obtain ⟨fresh, hfresh, hsame⟩ := h.setup
  exact ⟨⟨fresh, hfresh, hsame.trans ⟨s.pool, heard, s.count, rfl⟩⟩, h.pool⟩

/-- A call that hands back no misshapen frame leaves a serving scaler serving. -/
theorem Serves.apply (h : s.Serves config input) {call : Call}
    (hcall : ∀ f, call = .recycle f → f.Conforms) : (s.apply call).Serves config input := by
  obtain ⟨fresh, hfresh, hsame⟩ := h.setup
  exact ⟨⟨fresh, hfresh, hsame.trans (s.sameSetup_apply call)⟩, poolMatches_apply h.pool hcall⟩

/-- A run of calls that hand back no misshapen frame leaves a serving scaler serving. -/
theorem Serves.run (h : s.Serves config input) {calls : List Call}
    (hcalls : ∀ f, .recycle f ∈ calls → f.Conforms) : (s.run calls).Serves config input := by
  induction calls generalizing s with
  | nil => exact h
  | cons call calls ih =>
    have hcall : ∀ f, call = .recycle f → f.Conforms := by
      rintro f rfl
      exact hcalls f (List.mem_cons_self ..)
    exact ih (h.apply hcall) fun f hf => hcalls f (List.mem_cons_of_mem _ hf)

/-! ## §2 What a serving scaler does -/

namespace Serves

theorem sound (h : s.Serves config input) : s.Sound := by
  obtain ⟨fresh, hfresh, hsame⟩ := h.setup
  exact (sound_of_configure hfresh).of_sameSetup hsame

theorem input_eq (h : s.Serves config input) : s.input = input := by
  obtain ⟨fresh, hfresh, pool, heard, count, rfl⟩ := h.setup
  change fresh.input = input
  exact input_of_configure hfresh

theorem mode_eq (h : s.Serves config input) : s.mode = config.mode := by
  obtain ⟨fresh, hfresh, pool, heard, count, rfl⟩ := h.setup
  obtain ⟨-, -, size, jobs, -, -, rfl⟩ := configure_eq_ok_iff.1 hfresh
  rfl

/-- The output of a serving scaler has the size that the expressions give. -/
theorem exists_size (h : s.Serves config input) :
    ∃ size, Size.outputSize config.width config.height input
        (config.format.resolve input.shape.format) = .ok size ∧
      s.output.shape = outShape config input size := by
  obtain ⟨fresh, hfresh, pool, heard, count, rfl⟩ := h.setup
  obtain ⟨-, -, size, jobs, hsize, -, rfl⟩ := configure_eq_ok_iff.1 hfresh
  exact ⟨size, hsize, rfl⟩

/-- The output of a serving scaler has the format that was asked for. -/
theorem format_eq (h : s.Serves config input) :
    s.output.shape.format = config.format.resolve input.shape.format := by
  obtain ⟨size, -, houtput⟩ := h.exists_size
  rw [houtput]
  rfl

/-- The jobs of a serving scaler are those between its shapes. -/
theorem jobsFor?_eq (h : s.Serves config input) :
    jobsFor? s.input.shape s.output.shape (dithers config input) = some s.jobs := by
  obtain ⟨fresh, hfresh, pool, heard, count, rfl⟩ := h.setup
  obtain ⟨-, -, size, jobs, -, hjobs, rfl⟩ := configure_eq_ok_iff.1 hfresh
  exact hjobs

/-- A job dithers where that is asked for and the containers are narrowed. -/
theorem dither_eq (h : s.Serves config input) {job : Job} (hjob : job ∈ s.jobs) :
    job.kernel.variant.dither = (config.dither &&
      s.output.shape.format.container.bits < s.input.shape.format.container.bits) := by
  rw [dither_eq_of_mem_jobsFor? h.jobsFor?_eq hjob]
  unfold dithers
  -- where the container is narrowed, bits are lost
  rw [← h.format_eq, ← h.input_eq, Bool.and_assoc, ← Bool.decide_and,
    decide_eq_decide.2 (and_iff_right_of_imp PixelFormat.bits_lt_of_container)]

/-- A serving scaler copies only if it may. -/
theorem not_passthrough (h : s.Serves config input) (hpass : config.passthrough = false) :
    ¬ s.passthrough := by
  obtain ⟨fresh, hfresh, pool, heard, count, rfl⟩ := h.setup
  obtain ⟨-, -, size, jobs, -, -, rfl⟩ := configure_eq_ok_iff.1 hfresh
  simp [ofJobs, hpass]

theorem frame_matches (h : s.Serves config input) {frame : Frame} (hshape : frame.shape = input.shape)
    (hframe : frame.Conforms) : frame.Matches s.input.shape :=
  Frame.matches_iff.2 ⟨by rw [h.input_eq, hshape], hframe⟩

/-- A serving scaler shows every frame of its input, given a frame to write into: one that it has kept, or
memory for a new one. -/
theorem exists_shows (h : s.Serves config input) {frame : Frame} (hshape : frame.shape = input.shape)
    (hframe : frame.Conforms)
    (hmemory : s.pool = [] → ∃ new, Frame.zeros s.output.shape = .ok new) :
    ∃ result, (s.process frame).1 = .ok result ∧ s.Shows frame result := by
  obtain hshows | ⟨hempty, inner, hinner, -⟩ :=
    process_of_poolMatches h.sound h.pool (h.frame_matches hshape hframe)
  · exact hshows
  · obtain ⟨new, hnew⟩ := hmemory hempty
    exact absurd (hnew.symm.trans hinner) (by simp)

end Serves

end Resample.Scaler
