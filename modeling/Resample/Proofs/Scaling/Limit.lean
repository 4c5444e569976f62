import Resample.Proofs.Scaling.Jobs

/-!
# The size limit

The aspect ratio of an output is computed from the products of each of its sides and the other side of the
input. The configuration bounds these products, but it takes the sides of the input by their signed readings.
So the products are bounded exactly if these readings are the sides, that is if no side of the input is
`2 ^ 63` pixels long or more. A longer one is read as negative, and passes.
-/

namespace Resample

/-- An output has pixels, and the products of each of its sides and the other side of the input are within the
limit, where a signed word holds them as they are. -/
structure Size.WithinLimit (input output : Nat × Nat) : Prop where
  width : 1 ≤ output.1
  height : 1 ≤ output.2
  across : (output.2 * input.1 : Nat) ≤ productLimit
  down : (output.1 * input.2 : Nat) ≤ productLimit
  signedAcross : Word.signed (output.2 * input.1 : Nat) = (output.2 * input.1 : Nat)
  signedDown : Word.signed (output.1 * input.2 : Nat) = (output.1 * input.2 : Nat)

/-- A side of the input whose product with a side of the output is within the limit is its own signed
reading. -/
theorem Size.le_greatest_of_mul_le {side other : Nat} (hside : 1 ≤ side)
    (h : (side * other : Nat) ≤ productLimit) : other ≤ Word.greatest := by
  have hle : other ≤ side * other := Nat.le_mul_of_pos_left other hside
  have hlimit : productLimit ≤ Word.greatest := by decide
  omega

/-- Sides whose products are within the limit are within it themselves, unless a side of the input is zero. -/
theorem Size.WithinLimit.sides_le {input output : Nat × Nat} (h : WithinLimit input output)
    (hwidth : 0 < input.1) (hheight : 0 < input.2) :
    ((input.1 + output.1 : Nat) : Int) ≤ 2 * productLimit ∧
      ((input.2 + output.2 : Nat) : Int) ≤ 2 * productLimit := by
  have hinWidth : input.1 ≤ output.2 * input.1 := Nat.le_mul_of_pos_left _ h.height
  have hinHeight : input.2 ≤ output.1 * input.2 := Nat.le_mul_of_pos_left _ h.width
  have houtWidth : output.1 ≤ output.1 * input.2 := Nat.le_mul_of_pos_right _ hheight
  have houtHeight : output.2 ≤ output.2 * input.1 := Nat.le_mul_of_pos_right _ hwidth
  have hacross := h.across
  have hdown := h.down
  omega

namespace Scaler

/-- The output of a configured scaler is within the limit if the sides of the input are their own signed
readings. -/
theorem withinLimit_of_configure {config : Config} {input : Stream} {s : Scaler}
    (hs : configure config input = .ok s) (hwidthLe : input.shape.width ≤ Word.greatest)
    (hheightLe : input.shape.height ≤ Word.greatest) :
    Size.WithinLimit (input.shape.width, input.shape.height)
      (s.output.shape.width, s.output.shape.height) := by
  obtain ⟨hwidth, hheight, size, jobs, hsize, -, rfl⟩ := configure_eq_ok_iff.1 hs
  obtain ⟨hwide, hhigh, hacross, hdown⟩ :=
    Size.outputSize_within_limit hwidth hheight hwidthLe hheightLe hsize
  have hlimit : Size.productLimit ≤ Word.greatest := by decide
  exact
    { width := hwide
      height := hhigh
      across := hacross
      down := hdown
      signedAcross := Word.signed_of_le (Int.le_trans hacross hlimit)
      signedDown := Word.signed_of_le (Int.le_trans hdown hlimit) }

/-- The output of a configured scaler is within the limit exactly if the sides of the input are their own
signed readings. -/
theorem withinLimit_iff {config : Config} {input : Stream} {s : Scaler}
    (hs : configure config input = .ok s) :
    Size.WithinLimit (input.shape.width, input.shape.height)
        (s.output.shape.width, s.output.shape.height) ↔
      input.shape.width ≤ Word.greatest ∧ input.shape.height ≤ Word.greatest := by
  constructor
  · -- a side of the input is no greater than its product
    intro h
    exact ⟨Size.le_greatest_of_mul_le h.height h.across, Size.le_greatest_of_mul_le h.width h.down⟩
  · rintro ⟨hwidthLe, hheightLe⟩
    exact withinLimit_of_configure hs hwidthLe hheightLe

/-- The output of a scaler for a small gray picture is within the limit. -/
theorem withinLimit_iff_gray :
    ∃ s, configure Config.identity ⟨⟨.gray8, 2, 2⟩, .unknown⟩ = .ok s ∧
      Size.WithinLimit (2, 2) (s.output.shape.width, s.output.shape.height) := by
  obtain ⟨jobs, hjobs⟩ : ∃ jobs, jobsFor? ⟨.gray8, 2, 2⟩ ⟨.gray8, 2, 2⟩ false = some jobs := ⟨_, rfl⟩
  have hs : configure Config.identity ⟨⟨.gray8, 2, 2⟩, .unknown⟩ = _ :=
    configure_same_size rfl rfl (by decide) (by decide) (by decide) hjobs
  exact ⟨_, hs, (withinLimit_iff hs).2 ⟨by decide, by decide⟩⟩

/-- A row of `2 ^ 64 - 1` pixels is read as one of negative length, so an output of one pixel is accepted. Its
height times the width of the input is beyond the limit, and is `-1` as a signed word. -/
theorem exists_configure_beyond_limit :
    ∃ s, configure { Config.identity with width := "hsub", height := "vsub" }
        ⟨⟨.gray8, 18446744073709551615, 1⟩, .unknown⟩ = .ok s ∧
      s.output.shape = ⟨.gray8, 1, 1⟩ ∧
      ¬ Size.WithinLimit (18446744073709551615, 1) (s.output.shape.width, s.output.shape.height) ∧
      Word.signed (s.output.shape.height * 18446744073709551615 : Nat) = -1 := by
  obtain ⟨jobs, hjobs⟩ :
      ∃ jobs, jobsFor? ⟨.gray8, 18446744073709551615, 1⟩ ⟨.gray8, 1, 1⟩ false = some jobs := ⟨_, rfl⟩
  -- a gray picture has no smaller chroma, so both expressions are one
  have hone : (Binary.ofNat 1 : Double).truncate? = some 1 ∧
      ((Binary.ofNat Size.valueLimit).lt (Binary.ofNat 1 : Double) ||
        (Binary.ofNat 1 : Double).lt (-Binary.ofNat Size.valueLimit)) = false := by decide +kernel
  have hhsub : ∀ w h, Size.evaluate (Size.environment
      ⟨⟨.gray8, 18446744073709551615, 1⟩, .unknown⟩ .gray8 w h) "hsub" = .ok 1 := fun w h =>
    Size.evaluate_name (Size.tokenize_name rfl rfl rfl) rfl hone.1 hone.2
  have hvsub : ∀ w h, Size.evaluate (Size.environment
      ⟨⟨.gray8, 18446744073709551615, 1⟩, .unknown⟩ .gray8 w h) "vsub" = .ok 1 := fun w h =>
    Size.evaluate_name (Size.tokenize_name rfl rfl rfl) rfl hone.1 hone.2
  have hsize : Size.outputSize "hsub" "vsub" ⟨⟨.gray8, 18446744073709551615, 1⟩, .unknown⟩ .gray8 =
      .ok (1, 1) := by
    unfold Size.outputSize
    simp only [hhsub, hvsub, mapError_ok, bind, Except.bind]
    rfl
  refine ⟨_, configure_eq_ok_iff.2 ⟨by decide, by decide, (1, 1), jobs, hsize, hjobs, rfl⟩, rfl, ?_, ?_⟩
  · exact fun h => absurd h.across (show ¬ (1 * 18446744073709551615 : Nat) ≤ Size.productLimit by decide)
  · exact show Word.signed (1 * 18446744073709551615 : Nat) = -1 by decide

end Scaler

end Resample
