import Resample.Proofs.Kernel.Depths
import Resample.Proofs.Scaling.Components

/-!
# Round trips

A picture that keeps its size keeps its samples, up to their depth: each is shifted up to a wider container, or
brought down to a narrower one. What was shifted up before comes down to what it was. So a picture that is
brought to a format of no narrower containers, and back, is the picture again, whatever the layouts are and
however the way back is dithered. That holds as long as the centers of all pixels are values of the 32-bit
format.

## Contents

- §1 conversions at the size of the input, §2 samples of a result, §3 there and back
-/

namespace Resample

/-! ## §1 Conversions at the size of the input -/

/-- A configuration brings the pictures of an input to a format with chroma of the same sides, at their own
size, to which there are routes; and the centers of their pixels are values of the 32-bit format. -/
structure Config.Converts (config : Config) (input : Stream) (format : PixelFormat) : Prop where
  format_eq : config.format.resolve input.shape.format = format
  size_eq : Size.outputSize config.width config.height input format =
    .ok (input.shape.width, input.shape.height)
  routes : (Route.between? input.shape.format.layout format.layout).isSome
  subsampling : input.shape.format.SameSubsampling format
  width : 0 < input.shape.width ∧ input.shape.width ≤ exactPixels
  height : 0 < input.shape.height ∧ input.shape.height ≤ exactPixels

/-- Options that name the sides of the input keep its size, as long as an output may be that large. -/
theorem Config.converts_of_names {config : Config} {input : Stream} {format : PixelFormat}
    (hwidthText : config.width = "iw") (hheightText : config.height = "ih")
    (hformat : config.format.resolve input.shape.format = format)
    (hroutes : (Route.between? input.shape.format.layout format.layout).isSome)
    (hsubsampling : input.shape.format.SameSubsampling format)
    (hwidth : 0 < input.shape.width ∧ input.shape.width ≤ exactPixels)
    (hheight : 0 < input.shape.height ∧ input.shape.height ≤ exactPixels)
    (harea : (input.shape.width * input.shape.height : Nat) ≤ Size.productLimit) :
    config.Converts input format :=
  { format_eq := hformat
    size_eq := by
      rw [hwidthText, hheightText]
      exact Size.outputSize_same format hwidth.1 hheight.1 harea
    routes := hroutes
    subsampling := hsubsampling
    width := hwidth
    height := hheight }

namespace Scaler

variable {config : Config} {input : Stream} {format : PixelFormat} {s : Scaler}

/-- There is a scaler for a configuration that converts. -/
theorem exists_configure_of_converts (h : config.Converts input format) :
    ∃ s, configure config input = .ok s := by
  have hroutes := h.routes
  have hsize := h.size_eq
  rw [← h.format_eq] at hroutes hsize
  obtain ⟨jobs, hjobs⟩ : ∃ jobs, jobsFor? input.shape
      (outShape config input (input.shape.width, input.shape.height)) (dithers config input) = some jobs :=
    exists_jobsFor? hroutes _
  exact ⟨_, configure_eq_ok_iff.2 ⟨h.width.1, h.height.1, _, jobs, hsize, hjobs, rfl⟩⟩

namespace Serves

variable (hs : s.Serves config input) (h : config.Converts input format)

include hs h

/-- The output of a conversion has the sides of the input. -/
theorem output_shape : s.output.shape = ⟨format, input.shape.width, input.shape.height⟩ := by
  obtain ⟨size, hsize, houtput⟩ := hs.exists_size
  rw [h.format_eq] at hsize
  obtain rfl := Except.ok.inj (hsize.symm.trans h.size_eq)
  rw [houtput, outShape, h.format_eq]

/-- There is memory for the output of a conversion. -/
theorem exists_zeros_output : ∃ new, Frame.zeros s.output.shape = .ok new := by
  rw [hs.output_shape h]
  have hexact : exactPixels = 8388608 := rfl
  have hunit : Raster.alignment = 32 := rfl
  have htop : 2 ^ 63 ≤ Word.top := by decide
  have hwidth := h.width.2
  have hheight := h.height.2
  apply Frame.exists_zeros
  · change 4 * input.shape.width + Raster.alignment ≤ Word.top
    omega
  · calc (4 * input.shape.width + Raster.alignment) * input.shape.height
        ≤ (4 * exactPixels + Raster.alignment) * exactPixels :=
          Nat.mul_le_mul (by omega) hheight
      _ < Plane.unallocatable := by decide

/-- A conversion shows a frame of the input, whatever was kept. -/
theorem exists_shows_of_converts {frame : Frame} (hshape : frame.shape = input.shape)
    (hframe : frame.Conforms) : ∃ result, (s.process frame).1 = .ok result ∧ s.Shows frame result :=
  hs.exists_shows hshape hframe fun _ => hs.exists_zeros_output h

/-- The components of the output have the sides of those of the input. -/
theorem componentSides_eq (j : Nat) : s.output.shape.componentSides j = s.input.shape.componentSides j := by
  rw [hs.output_shape h, hs.input_eq]
  exact (Shape.componentSides_congr h.subsampling _ _ j).symm

theorem hasComponent_iff (j x y : Nat) :
    s.output.shape.HasComponent j x y ↔ s.input.shape.HasComponent j x y := by
  unfold Shape.HasComponent
  rw [hs.componentSides_eq h, hs.components_eq]

end Serves

/-! ## §2 Samples of a result -/

/-- A job that makes a component of the size of the frame's launches from all of a plane to its own size. -/
theorem Makes.keepsSides {source : Frame} {j : Nat} {job : Job} {read : Raster}
    (hmakes : s.Makes source j job read)
    (hsides : s.output.shape.componentSides j = s.input.shape.componentSides j)
    (hwidth : s.input.shape.width ≤ exactPixels) (hheight : s.input.shape.height ≤ exactPixels) :
    (s.request job).KeepsSides read.view := by
  have hexact : exactPixels = 8388608 := rfl
  have hle := s.input.shape.planeSides_le (s.input.shape.format.layout.place j).1
  rw [Shape.planeSides_place, ← hmakes.sides] at hle
  have hread : (read.plane.width, read.plane.height) = job.sourceSides :=
    hmakes.sides.trans hmakes.sourceSides.symm
  have hwritten : (read.plane.width, read.plane.height) = job.destSides :=
    hmakes.sides.trans (hsides.symm.trans hmakes.destSides.symm)
  exact
    { sourceWidth := congrArg Prod.fst hread
      sourceHeight := congrArg Prod.snd hread
      destWidth := congrArg Prod.fst hwritten
      destHeight := congrArg Prod.snd hwritten
      width_le := show 2 * read.plane.width ≤ 2 ^ 62 by omega
      height_le := show 2 * read.plane.height ≤ 2 ^ 62 by omega }

/-- A result of such a conversion shows each sample of the frame as four reads of it are finished, from the
container of the input to that of the output. Where the scaler copies, that is the sample itself. -/
theorem Shows.exists_finish (hs : s.Serves config input) (h : config.Converts input format)
    {source result : Frame} (hsource : source.Matches s.input.shape) (hshows : s.Shows source result)
    {j x y n : Nat} (hn : source.component? j x y = some n) :
    ∃ v : Variant, v.source = input.shape.format.container ∧ v.dest = format.container ∧
      result.component? j x y = some (v.finish (4 * n) (v.bias x y) v.dest).val := by
  have hin : s.input.shape.HasComponent j x y :=
    hsource.isSome_component?_iff.1 (Option.isSome_of_eq_some hn)
  have hcomponent := (hs.hasComponent_iff h j x y).2 hin
  by_cases hpass : s.passthrough
  · -- where the shape is kept, a sample is copied, which is what finishing it in one depth gives
    have hshape := hs.sound.passthrough hpass
    have hsame : input.shape.format = format := by
      rw [← hs.input_eq, ← hshape, hs.output_shape h]
    have hle : n ≤ input.shape.format.container.top := by
      rw [← hs.input_eq]
      exact hsource.sample?_le_top hn
    refine ⟨⟨1, input.shape.format.container, format.container, false, .combined⟩, rfl, rfl, ?_⟩
    have hfinish := Variant.finish_widened
      (v := ⟨1, input.shape.format.container, format.container, false, .combined⟩) (n := n)
      (Nat.le_of_eq (by rw [hsame])) hle x y
    rw [hfinish, Frame.component?, hshows.matches_output.shape,
      hshows.sample (Shape.hasSample_place_iff.2 hcomponent), picture_of_passthrough hpass, hshape,
      ← hsource.shape]
    rw [Frame.component?] at hn
    rw [hn, hsame, Nat.sub_self]
    rfl
  · obtain ⟨job, read, hmakes, hresult⟩ := hshows.exists_makes hs hpass hsource hcomponent
    have hwidth : s.input.shape.width ≤ exactPixels := hs.input_eq ▸ h.width.2
    have hheight : s.input.shape.height ≤ exactPixels := hs.input_eq ▸ h.height.2
    have hkeeps := hmakes.keepsSides (hs.componentSides_eq h j) hwidth hheight
    obtain ⟨v, hv, rfl⟩ := Option.map_eq_some_iff.1 ((hmakes.value x y).trans hn)
    have hle := s.input.shape.planeSides_le (s.input.shape.format.layout.place j).1
    rw [Shape.planeSides_place] at hle
    obtain ⟨-, hx, hy⟩ := hin
    refine ⟨job.kernel.variant, ?_, ?_, ?_⟩
    · rw [hmakes.sourceDepth, hs.input_eq]
    · rw [hmakes.destDepth, hs.output_shape h]
    · rw [hresult, hkeeps.picture_of_lt hmakes.channel hv (by omega) (by omega), Option.map_some]

section Samples

variable (hs : s.Serves config input) (h : config.Converts input format) {source result : Frame}
  (hsource : source.Matches s.input.shape) (hshows : s.Shows source result)

include hs h hsource hshows

/-- To containers that are no narrower, a result shows each sample of the frame shifted up. -/
theorem Shows.component?_widened
    (hbits : input.shape.format.container.bits ≤ format.container.bits) {j x y n : Nat}
    (hn : source.component? j x y = some n) : result.component? j x y =
      some (n <<< (format.container.bits - input.shape.format.container.bits)) := by
  obtain ⟨v, hsourceDepth, hdestDepth, hvalue⟩ := hshows.exists_finish hs h hsource hn
  have hle : n ≤ v.source.top := by
    rw [hsourceDepth, ← hs.input_eq]
    exact hsource.sample?_le_top hn
  rw [hvalue, Variant.finish_widened (by rwa [hsourceDepth, hdestDepth]) hle, hsourceDepth, hdestDepth]

/-- To containers that are no wider, a result shows a sample that was shifted up as it was before. -/
theorem Shows.component?_narrowed
    (hbits : format.container.bits ≤ input.shape.format.container.bits) {j x y n : Nat}
    (hn : source.component? j x y =
      some (n <<< (input.shape.format.container.bits - format.container.bits)))
    (hle : n ≤ format.container.top) : result.component? j x y = some n := by
  obtain ⟨v, hsourceDepth, hdestDepth, hvalue⟩ := hshows.exists_finish hs h hsource hn
  rw [hvalue, ← hsourceDepth, ← hdestDepth,
    Variant.finish_narrowed (by rwa [hsourceDepth, hdestDepth]) (hdestDepth ▸ hle)]

end Samples

/-! ## §3 There and back -/

/-- A picture that is brought to another format at its own size, and back, shows the same samples again, as
long as the containers of the other format are not narrower and no side is longer than `2 ^ 23` pixels. That is
so for any address mode and with dithering or without, and whatever the scalers have scaled before. -/
theorem visible_eq_of_round_trip {a b : PixelFormat} (hbits : a.container.bits ≤ b.container.bits)
    {there back : Config} {width height : Nat} {aspect aspect' : Ratio}
    (hthere : there.Converts ⟨⟨a, width, height⟩, aspect⟩ b)
    (hback : back.Converts ⟨⟨b, width, height⟩, aspect'⟩ a) :
    (∃ s, configure there ⟨⟨a, width, height⟩, aspect⟩ = .ok s) ∧
    (∃ t, configure back ⟨⟨b, width, height⟩, aspect'⟩ = .ok t) ∧
    ∀ s t : Scaler, s.Serves there ⟨⟨a, width, height⟩, aspect⟩ →
      t.Serves back ⟨⟨b, width, height⟩, aspect'⟩ →
      ∀ frame : Frame, frame.shape = ⟨a, width, height⟩ → frame.Conforms →
        ∃ middle result, (s.process frame).1 = .ok middle ∧ (t.process middle).1 = .ok result ∧
          result.visible = frame.visible := by
  refine ⟨exists_configure_of_converts hthere, exists_configure_of_converts hback, ?_⟩
  intro s t hs ht frame hshape hframe
  obtain ⟨middle, hmiddle, hshows⟩ := hs.exists_shows_of_converts hthere hshape hframe
  have hmatches : middle.Matches ⟨b, width, height⟩ := hs.output_shape hthere ▸ hshows.matches_output
  obtain ⟨hmiddleShape, hmiddleConforms⟩ := Frame.matches_iff.1 hmatches
  obtain ⟨result, hresult, hshows'⟩ := ht.exists_shows_of_converts hback hmiddleShape hmiddleConforms
  refine ⟨middle, result, hmiddle, hresult, ?_⟩
  have hresultMatches : result.Matches ⟨a, width, height⟩ :=
    ht.output_shape hback ▸ hshows'.matches_output
  have hframeMatches : frame.Matches ⟨a, width, height⟩ := Frame.matches_iff.2 ⟨hshape, hframe⟩
  refine Frame.visible_eq_of_component? hresultMatches hframeMatches fun j x y hcomponent => ?_
  obtain ⟨n, hn⟩ := Option.isSome_iff_exists.1 (hframeMatches.isSome_component?_iff.2 hcomponent)
  -- up on the way there, and down on the way back
  have hup := hshows.component?_widened hs hthere (hs.frame_matches hshape hframe) hbits hn
  rw [hn, hshows'.component?_narrowed ht hback (ht.frame_matches hmiddleShape hmiddleConforms) hbits hup
    (hframeMatches.sample?_le_top hn)]

/-- A picture in three planes of 8 bits goes to two planes of 16 bits, and comes back dithered, as it was. -/
theorem visible_eq_of_round_trip_dithered :
    ∃ s t,
      configure { Config.identity with format := .only .p016 } ⟨⟨.yuv420p, 3, 3⟩, .unknown⟩ = .ok s ∧
      configure { Config.identity with format := .only .yuv420p } ⟨⟨.p016, 3, 3⟩, .unknown⟩ = .ok t ∧
      t.table ∧ ∀ frame : Frame, frame.shape = ⟨.yuv420p, 3, 3⟩ → frame.Conforms →
        ∃ middle result, (s.process frame).1 = .ok middle ∧ (t.process middle).1 = .ok result ∧
          result.visible = frame.visible := by
  have hthere : ({ Config.identity with format := .only .p016 } : Config).Converts
      ⟨⟨.yuv420p, 3, 3⟩, .unknown⟩ .p016 :=
    Config.converts_of_names rfl rfl rfl rfl ⟨rfl, rfl⟩ ⟨by decide, by decide⟩ ⟨by decide, by decide⟩
      (by decide)
  have hback : ({ Config.identity with format := .only .yuv420p } : Config).Converts
      ⟨⟨.p016, 3, 3⟩, .unknown⟩ .yuv420p :=
    Config.converts_of_names rfl rfl rfl rfl ⟨rfl, rfl⟩ ⟨by decide, by decide⟩ ⟨by decide, by decide⟩
      (by decide)
  obtain ⟨⟨s, hs⟩, ⟨t, ht⟩, hround⟩ := visible_eq_of_round_trip (by decide) hthere hback
  refine ⟨s, t, hs, ht, ?_, hround s t (serves_of_configure hs) (serves_of_configure ht)⟩
  obtain ⟨-, -, size, jobs, -, -, rfl⟩ := configure_eq_ok_iff.1 ht
  rfl

end Scaler

end Resample
