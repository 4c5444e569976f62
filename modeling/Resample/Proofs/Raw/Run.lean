import Resample.Proofs.Raw.Codec
import Resample.Proofs.Raw.Reading
import Resample.Proofs.Scaling.Serving
import Resample.Raw.Run

/-!
# Raw scaling, frame by frame

A run over raw frames reads into one buffer, keeps the frames that it has written for the next ones, and
stops where the source or the limit does. None of this shows in the result: each whole frame of the source, up
to the limit, becomes the bytes that a fresh scaler makes of it, and these follow each other. What is left at
the end of the source is dropped, but a source without a whole frame is refused.

## Contents

- §1 one frame, §2 one step, §3 the loop, §4 whole runs
-/

namespace Resample

/-! ## §1 One frame -/

/-- A picture with pixels has bytes. -/
theorem Shape.byteCount_pos {s : Shape} (hwidth : 0 < s.width) (hheight : 0 < s.height) :
    0 < s.byteCount := by
  obtain ⟨n, hn⟩ := Nat.exists_eq_add_one.2 s.format.planeCount_pos
  have hbytes : 0 < s.format.container.bytes := by
    cases s.format.container <;> decide
  have hfirst : 0 < s.planeBytes 0 :=
    Nat.mul_pos (Nat.mul_pos (Nat.mul_pos hwidth hheight) (s.format.planeChannels_pos 0)) hbytes
  rw [byteCount_eq_sum, hn, List.range_succ_eq_map, List.map_cons, List.sum_cons]
  omega

namespace Scaler

variable {config : Config} {input : Stream} {s t : Scaler}

/-- The bytes that a scaler makes of the bytes of a frame, if it makes any. -/
def rawResult? (s : Scaler) (bytes : List UInt8) : Option (List UInt8) := do
  let frame ← (Frame.ofBytes s.input.shape bytes).toOption
  let result ← (s.process frame).1.toOption
  return result.toBytes

/-- Scalers that serve one configuration make the same pictures of the same output. -/
theorem Serves.setup_eq (h : s.Serves config input) (h' : t.Serves config input) :
    s.output = t.output ∧ s.picture = t.picture := by
  obtain ⟨fresh, hfresh, pool, heard, count, rfl⟩ := h.setup
  obtain ⟨fresh', hfresh', pool', heard', count', rfl⟩ := h'.setup
  obtain rfl : fresh = fresh' := Except.ok.inj (hfresh.symm.trans hfresh')
  exact ⟨rfl, rfl⟩

/-- Results that show the same picture of one output have the same bytes. -/
theorem Shows.toBytes_eq {frame frame' result result' : Frame} (h : s.Shows frame result)
    (h' : t.Shows frame' result') (houtput : s.output.shape = t.output.shape)
    (hpicture : s.picture frame = t.picture frame') : result.toBytes = result'.toBytes := by
  have hmatches := h.matches_output
  have hmatches' := h'.matches_output
  rw [← houtput] at hmatches'
  have hgeometry := hmatches.geometry.trans hmatches'.geometry.symm
  refine (Frame.toBytes_eq_iff hgeometry).2 (Frame.visible_eq_of_sample? hgeometry fun i x y c => ?_)
  by_cases hsample : s.output.shape.HasSample i x y c
  · rw [h.sample hsample, h'.sample (houtput ▸ hsample), hpicture]
  · rw [Option.not_isSome_iff_eq_none.1 (mt hmatches.isSome_sample?_iff.1 hsample),
      Option.not_isSome_iff_eq_none.1 (mt hmatches'.isSome_sample?_iff.1 hsample)]

end Scaler

/-! ## §2 One step -/

namespace RawRun

variable {config : Config} {input : Stream} {s : Scaler} {new : Frame} {run : RawRun}
  {pieces : List (List UInt8)} {bytes : List UInt8}

/-- A run is going, and has written the given pieces so far: its scaler serves the configuration, and nothing
has stopped it. -/
structure Going (run : RawRun) (config : Config) (input : Stream) (pieces : List (List UInt8)) : Prop where
  serves : run.scaler.Serves config input
  frames : run.frames = pieces.length
  written : run.written = pieces.reverse
  not_stopped : run.stopped = none

/-- A step whose frame is decoded and scaled writes the result, and hands it back to the scaler. -/
theorem step_of_process {frame result : Frame}
    (hframe : Frame.ofBytes run.scaler.input.shape bytes = .ok frame)
    (hresult : (run.scaler.process { frame with pts := some run.frames }).1 = .ok result) :
    run.step bytes =
      { scaler := (run.scaler.process { frame with pts := some run.frames }).2.recycle result
        frames := run.frames + 1
        written := result.toBytes :: run.written
        stopped := none } := by
  unfold step
  rw [hframe]
  simp only
  generalize run.scaler.process { frame with pts := some run.frames } = processed at hresult ⊢
  obtain ⟨outcome, after⟩ := processed
  obtain rfl : outcome = .ok result := hresult
  rfl

/-- A step that is given the bytes of a frame writes what a fresh scaler would make of them. -/
theorem Going.step (h : run.Going config input pieces) (hs : Scaler.configure config input = .ok s)
    (hnew : Frame.zeros s.output.shape = .ok new) (hwidth : input.shape.width < 2 ^ 60)
    (hbytes : bytes.length = input.shape.byteCount) :
    ∃ piece, s.rawResult? bytes = some piece ∧ piece.length = s.output.shape.byteCount ∧
      (run.step bytes).Going config input (pieces ++ [piece]) := by
  have hfresh := Scaler.serves_of_configure hs
  obtain ⟨houtput, hpicture⟩ := hfresh.setup_eq h.serves
  obtain ⟨frame, hframe, hmatches, -⟩ := Frame.exists_ofBytes hwidth hbytes
  obtain ⟨hshape, hconforms⟩ := Frame.matches_iff.1 hmatches
  -- the same picture for the fresh scaler, and with its number for the scaler of the run
  let numbered : Frame := { frame with pts := some run.frames }
  have hnumbered : numbered.shape = input.shape := hshape
  obtain ⟨result, hresult, hshows⟩ := hfresh.exists_shows hshape hconforms fun _ => ⟨new, hnew⟩
  obtain ⟨result', hresult', hshows'⟩ :=
    h.serves.exists_shows hnumbered hconforms fun _ => ⟨new, houtput ▸ hnew⟩
  have hsame : result.toBytes = result'.toBytes :=
    hshows.toBytes_eq hshows' (congrArg Stream.shape houtput) (by rw [hpicture]; rfl)
  refine ⟨result.toBytes, ?_, hshows.matches_output.length_toBytes, ?_⟩
  · unfold Scaler.rawResult?
    rw [hfresh.input_eq, hframe]
    simp only [Except.toOption, Option.bind_eq_bind, Option.bind_some, hresult]
    rfl
  · -- what is handed back is of the output shape, so the scaler goes on serving
    have hprocess : ∀ f, Call.process numbered = .recycle f → f.Conforms := by
      intro f hf
      cases hf
    have hrecycle : ∀ f, Call.recycle result' = .recycle f → f.Conforms := by
      rintro f ⟨⟩
      exact (Frame.matches_iff.1 hshows'.matches_output).2
    rw [step_of_process (h.serves.input_eq ▸ hframe) hresult']
    exact
      { serves := (h.serves.apply hprocess).apply hrecycle
        frames := by rw [List.length_append, ← h.frames]; rfl
        written := by rw [List.reverse_append, ← h.written, hsame]; rfl
        not_stopped := rfl }

/-! ## §3 The loop -/

section Loop

variable {shape : Shape} {wanted : Nat} {limit : Option Nat} {events : List ReadEvent}

/-- A run that has reached its limit is over. -/
theorem advance_of_not_below (hlimit : below run.frames limit = false) :
    run.advance shape wanted limit events = run := by
  rw [advance, if_pos (by simp [hlimit])]

/-- Where less than a frame is left, it is dropped, and a run that has written nothing is refused. -/
theorem advance_of_short (hgoing : run.stopped = none) (hlimit : below run.frames limit = true)
    (hdelivers : ReadEvent.Delivers events bytes) (hshort : bytes.length < wanted) :
    run.advance shape wanted limit events =
      if run.frames = 0 then { run with stopped := some (.tooShort shape bytes.length) } else run := by
  obtain ⟨hbytes, hfailed, -⟩ := hdelivers.takes_fill wanted
  rw [List.take_of_length_le (Nat.le_of_lt hshort)] at hbytes
  rw [advance, if_neg (by simp [hlimit, hgoing])]
  simp only
  rw [if_neg (by simp [hfailed]), hbytes, if_pos hshort]

/-- Where a frame is left, it is scaled, and the run goes on with what comes after it. -/
theorem advance_of_whole (hgoing : run.stopped = none) (hlimit : below run.frames limit = true)
    (hdelivers : ReadEvent.Delivers events bytes) (hwanted : 0 < wanted) (hwhole : wanted ≤ bytes.length) :
    run.advance shape wanted limit events =
      (run.step (bytes.take wanted)).advance shape wanted limit (ReadEvent.fill wanted events).rest := by
  obtain ⟨hbytes, hfailed, -⟩ := hdelivers.takes_fill wanted
  have hlength : (ReadEvent.fill wanted events).bytes.length = wanted := by
    rw [hbytes, List.length_take, Nat.min_eq_left hwhole]
  rw [advance, if_neg (by simp [hlimit, hgoing])]
  simp only
  rw [if_neg (by simp [hfailed]), if_neg (by omega), dif_neg (by omega), hbytes]

end Loop

/-- The bytes of frame `i` among frames of `size` bytes that follow each other. -/
def frameBytes (size : Nat) (bytes : List UInt8) (i : Nat) : List UInt8 := (bytes.drop (i * size)).take size

/-- Without the first frame, each frame has the number before its own. -/
theorem frameBytes_drop (size : Nat) (bytes : List UInt8) (i : Nat) :
    frameBytes size (bytes.drop size) i = frameBytes size bytes (i + 1) := by
  unfold frameBytes
  rw [List.drop_drop, Nat.succ_mul, Nat.add_comm]

/-- What follows some frames does not tell in them. -/
theorem frameBytes_take {size count i : Nat} (hi : i < count) (bytes : List UInt8) :
    frameBytes size (bytes.take (count * size)) i = frameBytes size bytes i := by
  have hend : (i + 1) * size ≤ count * size := Nat.mul_le_mul_right _ hi
  rw [Nat.succ_mul] at hend
  unfold frameBytes
  rw [List.drop_take, List.take_take, Nat.min_eq_left (by omega)]

/-- Frames that a run reads of those that are there. -/
def framesWithin (limit : Option Nat) (available : Nat) : Nat :=
  limit.elim available fun limit => min limit available

/-- Helper: a run reads another frame if it is below its limit and there is one, and then one less is left. -/
private theorem framesWithin_left (limit : Option Nat) (frames available : Nat) :
    (framesWithin (limit.map (· - frames)) available = 0 ↔
      below frames limit = false ∨ available = 0) ∧
    (below frames limit = true → 0 < available →
      framesWithin (limit.map (· - frames)) available =
        framesWithin (limit.map (· - (frames + 1))) (available - 1) + 1) := by
  unfold framesWithin below
  cases limit with
  | none =>
    simp only [Option.map_none, Option.elim_none, reduceCtorEq, false_or, true_and]
    omega
  | some limit =>
    simp only [Option.map_some, Option.elim_some, decide_eq_false_iff_not, decide_eq_true_eq]
    omega

/-- A run is over, and has written the given pieces. -/
structure Over (run : RawRun) (pieces : List (List UInt8)) (stopped : Option RawFailure) : Prop where
  frames : run.frames = pieces.length
  written : run.written = pieces.reverse
  stopped_eq : run.stopped = stopped

/-- What a run has written is its pieces in order. -/
theorem Over.output_eq {stopped : Option RawFailure} (h : run.Over pieces stopped) :
    run.output = pieces.flatten := by
  unfold output
  rw [h.written, List.reverse_reverse]

/-- Why a run is stopped by a source that delivers `length` bytes more, if it is: it may write a frame, has
written none, and there is none. -/
def shortage? (run : RawRun) (shape : Shape) (limit : Option Nat) (length : Nat) : Option RawFailure :=
  if run.frames = 0 ∧ limit ≠ some 0 ∧ length < shape.byteCount then some (.tooShort shape length)
  else none

/-- Helper: a run that reads no frame any more. -/
private theorem Going.over_advance_of_nothing (h : run.Going config input pieces) (limit : Option Nat)
    {events : List ReadEvent} (hdelivers : ReadEvent.Delivers events bytes)
    (hnothing : below run.frames limit = false ∨ bytes.length < input.shape.byteCount) :
    (run.advance input.shape input.shape.byteCount limit events).Over pieces
      (run.shortage? input.shape limit bytes.length) := by
  have hfirst : run.frames = 0 → (below run.frames limit = true ↔ limit ≠ some 0) := by
    intro hzero
    cases limit with
    | none => simp [below]
    | some limit => simp [below, hzero, Nat.pos_iff_ne_zero]
  unfold shortage?
  cases hlimit : below run.frames limit with
  | false =>
    have hnone : ¬ (run.frames = 0 ∧ limit ≠ some 0 ∧ bytes.length < input.shape.byteCount) :=
      fun ⟨hzero, hsome, _⟩ => by simp [(hfirst hzero).2 hsome] at hlimit
    rw [advance_of_not_below hlimit, if_neg hnone]
    exact ⟨h.frames, h.written, h.not_stopped⟩
  | true =>
    have hshort := hnothing.resolve_left (by simp [hlimit])
    rw [advance_of_short h.not_stopped hlimit hdelivers hshort]
    by_cases hzero : run.frames = 0
    · rw [if_pos hzero, if_pos ⟨hzero, (hfirst hzero).1 hlimit, hshort⟩]
      exact ⟨h.frames, h.written, rfl⟩
    · rw [if_neg hzero, if_neg fun hall => hzero hall.1]
      exact ⟨h.frames, h.written, h.not_stopped⟩

/-- A run that is going writes what a fresh scaler would make of each frame that is left, up to the limit. -/
theorem Going.over_advance (h : run.Going config input pieces) (hs : Scaler.configure config input = .ok s)
    (hnew : Frame.zeros s.output.shape = .ok new) (hwidth : input.shape.width < 2 ^ 60) (limit : Option Nat)
    {events : List ReadEvent} (hdelivers : ReadEvent.Delivers events bytes) :
    ∃ more,
      ((List.range (framesWithin (limit.map (· - run.frames)) (bytes.length / input.shape.byteCount))).mapM
        fun i => s.rawResult? (frameBytes input.shape.byteCount bytes i)) = some more ∧
      (∀ piece ∈ more, piece.length = s.output.shape.byteCount) ∧
      (run.advance input.shape input.shape.byteCount limit events).Over (pieces ++ more)
        (run.shortage? input.shape limit bytes.length) := by
  have hpos : 0 < input.shape.byteCount := by
    obtain ⟨hwidth, hheight, -⟩ := Scaler.configure_eq_ok_iff.1 hs
    exact Shape.byteCount_pos hwidth hheight
  -- by induction on the frames that are left
  generalize hn : framesWithin (limit.map (· - run.frames)) (bytes.length / input.shape.byteCount) = n
  induction n generalizing run pieces bytes events with
  | zero =>
    have hnothing := (framesWithin_left ..).1.1 hn
    rw [Nat.div_eq_zero_iff_lt hpos] at hnothing
    refine ⟨[], rfl, by simp, ?_⟩
    rw [List.append_nil]
    exact h.over_advance_of_nothing limit hdelivers hnothing
  | succ n ih =>
    have hsome : ¬ (below run.frames limit = false ∨ bytes.length / input.shape.byteCount = 0) :=
      fun hnothing => by
        rw [(framesWithin_left ..).1.2 hnothing] at hn
        cases hn
    obtain ⟨hlimit, havailable⟩ := not_or.1 hsome
    rw [Bool.not_eq_false] at hlimit
    have hwhole : input.shape.byteCount ≤ bytes.length := by
      rw [Nat.div_eq_zero_iff_lt hpos] at havailable
      omega
    have htaken : (bytes.take input.shape.byteCount).length = input.shape.byteCount := by
      rw [List.length_take, Nat.min_eq_left hwhole]
    obtain ⟨piece, hpiece, hlength, hgoing⟩ := h.step hs hnew hwidth htaken
    have hframes : (run.step (bytes.take input.shape.byteCount)).frames = run.frames + 1 := by
      rw [hgoing.frames, List.length_append, h.frames]
      rfl
    have hleft : framesWithin (limit.map (· - (run.step (bytes.take input.shape.byteCount)).frames))
        ((bytes.drop input.shape.byteCount).length / input.shape.byteCount) = n := by
      rw [(framesWithin_left ..).2 hlimit (Nat.pos_of_ne_zero havailable), Nat.div_eq_sub_div hpos hwhole,
        Nat.add_sub_cancel] at hn
      rw [hframes, List.length_drop, Nat.succ.inj hn]
    obtain ⟨more, hmore, hlengths, hover⟩ :=
      ih hgoing ((hdelivers.takes_fill _).rest hwhole) hleft
    refine ⟨piece :: more, ?_, ?_, ?_⟩
    · -- the frames that follow are those of the bytes that follow
      rw [List.range_succ_eq_map, mapM_cons_eq_some_iff]
      refine ⟨piece, more, ?_, ?_, rfl⟩
      · unfold frameBytes
        rwa [Nat.zero_mul, List.drop_zero]
      · rw [List.mapM_map, ← hmore]
        simp only [frameBytes_drop]
        rfl
    · intro other hother
      rcases List.mem_cons.1 hother with rfl | hother
      · exact hlength
      · exact hlengths other hother
    · have hnone : (run.step (bytes.take input.shape.byteCount)).shortage? input.shape limit
          (bytes.drop input.shape.byteCount).length = run.shortage? input.shape limit bytes.length := by
        unfold shortage?
        rw [if_neg (by omega), if_neg (by omega)]
      rw [advance_of_whole h.not_stopped hlimit hdelivers hpos hwhole]
      rw [List.append_assoc, hnone] at hover
      exact hover

/-! ## §4 Whole runs -/

/-- Helper: a run from the begin, by what the loop writes. -/
private theorem exists_start (hs : Scaler.configure config input = .ok s)
    (hnew : Frame.zeros s.output.shape = .ok new) (hwidth : input.shape.width < 2 ^ 60)
    (hbuffer : input.shape.byteCount ≤ Word.greatest) (heard : Option (List Event)) (limit : Option Nat)
    {events : List ReadEvent} (hdelivers : ReadEvent.Delivers events bytes) :
    ∃ run pieces, RawRun.start { s with heard } limit events = .ok run ∧
      ((List.range (framesWithin limit (bytes.length / input.shape.byteCount))).mapM fun i =>
        s.rawResult? (frameBytes input.shape.byteCount bytes i)) = some pieces ∧
      (∀ piece ∈ pieces, piece.length = s.output.shape.byteCount) ∧
      run.Over pieces (if limit ≠ some 0 ∧ bytes.length < input.shape.byteCount then
        some (.tooShort input.shape bytes.length) else none) := by
  have hgoing : Going ⟨{ s with heard }, 0, [], none⟩ config input [] :=
    ⟨(Scaler.serves_of_configure hs).withHeard heard, rfl, rfl, rfl⟩
  have hlimit : limit.map (· - 0) = limit := by
    cases limit <;> rfl
  obtain ⟨pieces, hpieces, hlengths, hover⟩ := hgoing.over_advance hs hnew hwidth limit hdelivers
  simp only [hlimit] at hpieces
  simp only [shortage?, true_and, List.nil_append] at hover
  refine ⟨_, pieces, ?_, hpieces, hlengths, hover⟩
  unfold RawRun.start
  simp only [Scaler.input_of_configure hs]
  rw [if_neg (by omega)]

/-- Helper: the results of some frames do not tell what follows these frames. -/
private theorem mapM_frameBytes_congr {size count : Nat} {bytes bytes' : List UInt8}
    (h : bytes'.take (count * size) = bytes.take (count * size))
    (result? : List UInt8 → Option (List UInt8)) :
    ((List.range count).mapM fun i => result? (frameBytes size bytes' i)) =
      (List.range count).mapM fun i => result? (frameBytes size bytes i) := by
  have hframes : (List.range count).map (frameBytes size bytes') =
      (List.range count).map (frameBytes size bytes) :=
    List.map_congr_left fun i hi => by
      rw [← frameBytes_take (List.mem_range.1 hi) bytes', h, frameBytes_take (List.mem_range.1 hi)]
  have hmap : ∀ bytes, ((List.range count).mapM fun i => result? (frameBytes size bytes i)) =
      ((List.range count).map (frameBytes size bytes)).mapM result? := fun bytes => List.mapM_map.symm
  rw [hmap, hmap, hframes]

/-- Raw scaling is a map of frames. A run over a source that delivers certain bytes, in whatever pieces, is
refused exactly if it may write a frame and there is none. Else it writes, for each whole frame up to the
limit, what a fresh scaler makes of the bytes of this frame, and counts these frames; bytes that follow them,
and what was heard, make no difference. -/
theorem start_eq_frames (hs : Scaler.configure config input = .ok s)
    (hnew : Frame.zeros s.output.shape = .ok new) (hwidth : input.shape.width < 2 ^ 60)
    (hbuffer : input.shape.byteCount ≤ Word.greatest) (heard : Option (List Event)) (limit : Option Nat)
    {events : List ReadEvent} (hdelivers : ReadEvent.Delivers events bytes) :
    ∃ run pieces, RawRun.start { s with heard } limit events = .ok run ∧
      run.stopped = (if limit ≠ some 0 ∧ bytes.length < input.shape.byteCount then
        some (.tooShort input.shape bytes.length) else none) ∧
      run.frames = framesWithin limit (bytes.length / input.shape.byteCount) ∧
      ((List.range run.frames).mapM fun i =>
        s.rawResult? (frameBytes input.shape.byteCount bytes i)) = some pieces ∧
      run.output = pieces.flatten ∧
      run.output.length = run.frames * s.output.shape.byteCount ∧
      ∀ events' bytes', ReadEvent.Delivers events' bytes' →
        framesWithin limit (bytes'.length / input.shape.byteCount) = run.frames →
        bytes'.take (run.frames * input.shape.byteCount) =
          bytes.take (run.frames * input.shape.byteCount) →
        ∃ run', RawRun.start { s with heard } limit events' = .ok run' ∧ run'.output = run.output ∧
          run'.frames = run.frames := by
  obtain ⟨run, pieces, hrun, hpieces, hlengths, hover⟩ :=
    exists_start hs hnew hwidth hbuffer heard limit hdelivers
  have hcount : run.frames = framesWithin limit (bytes.length / input.shape.byteCount) := by
    rw [hover.frames, length_of_mapM_eq_some hpieces, List.length_range]
  rw [← hcount] at hpieces
  refine ⟨run, pieces, hrun, hover.stopped_eq, hcount, hpieces, hover.output_eq, ?_, ?_⟩
  · rw [hover.output_eq, List.length_flatten, List.map_eq_replicate_iff.2 hlengths, List.sum_replicate_nat,
      hover.frames]
  · intro events' bytes' hdelivers' hsame hbytes
    obtain ⟨run', pieces', hrun', hpieces', -, hover'⟩ :=
      exists_start hs hnew hwidth hbuffer heard limit hdelivers'
    rw [hsame, mapM_frameBytes_congr hbytes, hpieces] at hpieces'
    obtain rfl : pieces = pieces' := Option.some.inj hpieces'
    exact ⟨run', hrun', hover'.output_eq.trans hover.output_eq.symm,
      hover'.frames.trans hover.frames.symm⟩

/-- Five bytes that come in pieces, with interruptions, are two frames of two pixels and a byte to be dropped;
what would come after the end is not read. Each pixel becomes a sample of 16 bits. -/
theorem start_eq_frames_interrupted :
    ∃ (s : Scaler) (run : RawRun),
      Scaler.configure { Config.identity with format := .only .gray16 } ⟨⟨.gray8, 2, 1⟩, .unknown⟩ = .ok s ∧
      RawRun.start s.withListener (some 3)
        [.interrupted, .data [1], .data [2, 3, 4], .interrupted, .data [5], .data [], .data [6]] = .ok run ∧
      run.stopped = none ∧ run.frames = 2 ∧ run.output = [0, 1, 0, 2, 0, 3, 0, 4] := by
  let input : Stream := ⟨⟨.gray8, 2, 1⟩, .unknown⟩
  let jobs : List Job := (Scaler.jobsFor? ⟨.gray8, 2, 1⟩ ⟨.gray16, 2, 1⟩ false).getD []
  have hjobs : Scaler.jobsFor? ⟨.gray8, 2, 1⟩ ⟨.gray16, 2, 1⟩ false = some jobs := rfl
  have hs : Scaler.configure { Config.identity with format := .only .gray16 } input = _ :=
    Scaler.configure_same_size rfl rfl (by decide) (by decide) (by decide) hjobs
  have hdelivers : ReadEvent.Delivers
      [.interrupted, .data [1], .data [2, 3, 4], .interrupted, .data [5], .data [], .data [6]]
      [1, 2, 3, 4, 5] :=
    .interrupted (.data (by decide) (.data (by decide) (.interrupted (.data (by decide) (.ended _)))))
  obtain ⟨new, hnew⟩ : ∃ new, Frame.zeros ⟨.gray16, 2, 1⟩ = .ok new := ⟨_, rfl⟩
  obtain ⟨run, pieces, hrun, hstopped, hframes, hpieces, houtput, -⟩ :=
    start_eq_frames hs hnew (by decide) (by decide) _ (some 3) hdelivers
  have htwo : run.frames = 2 := hframes.trans (by decide)
  have hvalue : ((List.range 2).mapM fun i =>
      (Scaler.ofJobs { Config.identity with format := .only .gray16 } input (2, 1) jobs).rawResult?
        (frameBytes 2 [1, 2, 3, 4, 5] i)) = some [[0, 1, 0, 2], [0, 3, 0, 4]] := by decide +kernel
  rw [htwo] at hpieces
  obtain rfl : pieces = [[0, 1, 0, 2], [0, 3, 0, 4]] := Option.some.inj (hpieces.symm.trans hvalue)
  exact ⟨_, run, hs, hrun, hstopped, htwo, houtput⟩

end RawRun

end Resample
