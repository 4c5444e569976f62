import Resample.Proofs.Kernel.Depths
import Resample.Proofs.Kernel.Dithering
import Resample.Proofs.Kernel.Reads

/-!
# Numbers and samples

What becomes of the sum of four reads is a number first, and the number is brought into the range of the samples
then. A word of half the usual length holds everything on the way: a sum of four samples takes 18 bits, a bias 17,
and what is shifted to the left has room for it.

A number that is not dithered is in the range already, since the half that rounds it does not reach the next
step above white. A bias of the matrix may reach it: so white and what is close to it, dithered, make the number
one above the range in most places, and no other number is changed.

## Contents

- §1 sums and biases in words, §2 numbers of a variant, §3 numbers of a launch
-/

namespace Resample

/-! ## §1 Sums and biases in words -/

/-- The sum of four reads is computed in words, whatever the texels are. -/
theorem Texture.guardedSum_eq_ok (t : Texture) (across down : TapPair) (c : Nat) :
    t.guardedSum across down c = .ok (t.sum across down c) := by
  have hsum : t.sum across down c ≤ Word.topHalf :=
    Nat.le_trans ((t.within_words c).sum across down).2 (by decide)
  unfold sum at hsum
  unfold guardedSum
  rw [bind_of_eq_ok (t.guardedBetween_eq_ok ..), bind_of_eq_ok (t.guardedBetween_eq_ok ..),
    bind_of_eq_ok (t.guardedBetween_eq_ok ..), bind_of_eq_ok (t.guardedBetween_eq_ok ..),
    bind_of_eq_ok (Word.held_eq_ok (by omega)), bind_of_eq_ok (Word.held_eq_ok (by omega))]
  exact Word.held_eq_ok hsum

namespace Variant

variable {v : Variant}

/-- The bias of a pixel is computed in words. -/
theorem guardedBias_eq_ok (v : Variant) (x y : Nat) : v.guardedBias x y = .ok (v.bias x y) := by
  unfold guardedBias bias
  split
  · have hthreshold := (Dither.table.within_words 0 ↑(x % Dither.side) ↑(y % Dither.side)).2
    have hnext : 1 + Dither.table.fetch ↑(x % Dither.side) ↑(y % Dither.side) 0 ≤ Word.topHalf :=
      Nat.le_trans (Nat.add_le_add_left hthreshold 1) (by decide)
    rw [bind_of_eq_ok (Dither.readable_table.checkFetch_eq_ok _ _)]
    unfold Dither.guardedBias
    rw [bind_of_eq_ok (Word.held_eq_ok hnext)]
    rfl
  · rfl

/-! ## §2 Numbers of a variant -/

/-- The number that a sum of four reads makes, before it is brought into the range of the samples. -/
def number (v : Variant) (sum bias : Nat) : Nat :=
  if v.dest.bits < v.source.bits + 2 then (sum + bias) >>> v.discarded
  else sum <<< (v.dest.bits - v.source.bits - 2)

/-- The sample is the number, or the greatest sample if that is less. -/
theorem finish_eq_saturate (v : Variant) (sum bias : Nat) (dest : Depth) :
    v.finish sum bias dest = Sample.saturate dest (v.number sum bias) := by
  unfold finish number
  split <;> rfl

/-- Where bits of a sum are dropped, the samples and the dropped bits together have as many values as four samples
of the source. -/
theorem levels_mul_two_pow (hdrops : v.dest.bits < v.source.bits + 2) :
    v.dest.levels * 2 ^ v.discarded = 4 * v.source.levels := by
  unfold discarded
  generalize v.source = source at hdrops ⊢
  generalize v.dest = dest at hdrops ⊢
  revert hdrops
  cases source <;> cases dest <;> decide

/-- Where none are dropped, a sum that is shifted to the left is a sample. -/
theorem shiftLeft_le_top (hwidens : ¬ v.dest.bits < v.source.bits + 2) {sum : Nat}
    (hsum : sum ≤ 4 * v.source.top) : sum <<< (v.dest.bits - v.source.bits - 2) ≤ v.dest.top := by
  generalize v.source = source at hwidens hsum ⊢
  generalize v.dest = dest at hwidens ⊢
  cases source <;> cases dest
  case eight.sixteen =>
    -- the 10 bits of a sum of 8-bit samples are shifted by 6
    change sum ≤ 4 * 255 at hsum
    change sum <<< 6 ≤ 65535
    rw [Nat.shiftLeft_eq]
    omega
  all_goals exact absurd (by decide) hwidens

variable {sum : Nat} (hsum : sum ≤ 4 * v.source.top)
include hsum

/-- The number is computed in words. -/
theorem guardedNumber_eq_ok (x y : Nat) : v.guardedNumber sum (v.bias x y) = .ok (v.number sum (v.bias x y)) := by
  have htop : ∀ d : Depth, 4 * d.top + 65536 ≤ Word.topHalf := by
    intro d
    cases d <;> decide
  have hsource := htop v.source
  have hdest := htop v.dest
  have hbias := v.bias_le x y
  unfold guardedNumber number
  split
  · rw [bind_of_eq_ok (Word.held_eq_ok (by omega))]
    rfl
  · next hwidens => exact Word.held_eq_ok (Nat.le_trans (shiftLeft_le_top hwidens hsum) (by omega))

/-- A number that is not dithered is in the range of the samples. -/
theorem number_le_top (hdither : v.dither = false) (x y : Nat) : v.number sum (v.bias x y) ≤ v.dest.top := by
  unfold number
  split
  · next hdrops =>
    -- white and a half step are below the step above white
    have hlevels := levels_mul_two_pow hdrops
    have hpos := v.source.levels_pos
    have hwhite : sum + 2 < v.dest.levels * 2 ^ v.discarded := by
      unfold Depth.top at hsum
      omega
    rw [bias_of_not_dither hdither, Nat.shiftRight_eq_div_pow]
    exact Nat.le_sub_one_of_lt ((Nat.div_lt_iff_lt_mul (Nat.two_pow_pos _)).2 hwhite)
  · next hwidens => exact shiftLeft_le_top hwidens hsum

/-- A number that is dithered is at most one above the range, since a bias is less than a step. -/
theorem number_le_top_succ (hbits : v.dest.bits ≤ v.source.bits) (x y : Nat) :
    v.number sum (v.bias x y) ≤ v.dest.top + 1 := by
  have hlevels := levels_mul_two_pow (v := v) (by omega)
  have hbias := bias_lt_two_pow hbits x y
  have hpos := v.dest.levels_pos
  have hstep : sum + v.bias x y < (v.dest.top + 2) * 2 ^ v.discarded := by
    have hnext : v.dest.top + 2 = v.dest.levels + 1 := by
      unfold Depth.top
      omega
    rw [hnext, Nat.add_one_mul]
    unfold Depth.top at hsum
    omega
  unfold number
  rw [if_pos (by omega), Nat.shiftRight_eq_div_pow]
  exact Nat.le_of_lt_succ ((Nat.div_lt_iff_lt_mul (Nat.two_pow_pos _)).2 hstep)

end Variant

/-! ## §3 Numbers of a launch -/

/-- A pass computes its numbers in words. -/
theorem Pass.guardedNumber_eq_ok {p : Pass} (hdepth : p.texture.view.depth = p.variant.source) (x y c : Nat) :
    p.guardedNumber x y c =
      .ok (p.variant.number (p.texture.sum (p.across.taps x) (p.down.taps y) c) (p.variant.bias x y)) := by
  have hsum := ((p.texture.within_top c).sum (p.across.taps x) (p.down.taps y)).2
  rw [hdepth] at hsum
  unfold guardedNumber
  rw [bind_of_eq_ok (p.texture.guardedSum_eq_ok ..), bind_of_eq_ok (p.variant.guardedBias_eq_ok x y)]
  exact Variant.guardedNumber_eq_ok hsum x y

namespace Kernel

variable {k : Kernel} {source dest : View} {r : Request}

/-- The sums and numbers of a launch. For every pixel and channel that a launch makes, of any variant, source, mode
and size, the sum of the four reads, the bias and the number are computed in words. The sum is at most four times the
greatest sample of the source. A number that is not dithered is in the range of the samples, and one that is dithered
is at most one above it. So bringing a number into the range changes none but a dithered 256, which becomes 255, and
what it becomes is what the destination shows. -/
theorem exists_number_of_launch {result : Vector (Sample dest.depth) dest.size}
    (h : k.launch source dest r = .ok result) {x y : Nat} (hx : x < r.destWidth) (hy : y < r.destHeight) (c : Nat) :
    ∃ (hcovers : source.window.Covers r.sourceWidth r.sourceHeight) (sum number : Nat),
      let p := r.pass k.variant (source.corner r.sourceWidth r.sourceHeight hcovers)
      p.texture.guardedSum (p.across.taps x) (p.down.taps y) c = .ok sum ∧ sum ≤ 4 * source.depth.top ∧
        p.guardedNumber x y c = .ok number ∧
        (k.variant.dither = false → number ≤ dest.depth.top) ∧
        (k.variant.dither = true → number ≤ dest.depth.top + 1) ∧
        (Sample.saturate dest.depth number).val =
          (if k.variant.dither = true ∧ number = 256 then 255 else number) ∧
        ∀ slot, k.variant.layout.source? k.variant.channels slot = some c →
          dest.window.get? result x y slot = some (Sample.saturate dest.depth number) := by
  obtain ⟨hfits, rfl⟩ := fits_of_launch h (Nat.zero_lt_of_lt hx) (Nat.zero_lt_of_lt hy)
  let p := r.pass k.variant (source.corner _ _ hfits.covers_source)
  let sum := p.texture.sum (p.across.taps x) (p.down.taps y) c
  have hsum : sum ≤ 4 * source.depth.top := ((p.texture.within_top c).sum _ _).2
  have hsum' : sum ≤ 4 * k.variant.source.top := hfits.sourceDepth ▸ hsum
  have hplain : k.variant.dither = false → k.variant.number sum (k.variant.bias x y) ≤ dest.depth.top := by
    rw [hfits.destDepth]
    exact fun hdither => Variant.number_le_top hsum' hdither x y
  have hdithered : k.variant.dither = true →
      k.variant.number sum (k.variant.bias x y) ≤ dest.depth.top + 1 ∧ dest.depth.top = 255 := by
    intro hdither
    obtain ⟨hsource, hdest⟩ := depths_of_dither hdither
    rw [hfits.destDepth]
    exact ⟨Variant.number_le_top_succ hsum' (by rw [hsource, hdest]; decide) x y, by rw [hdest]; rfl⟩
  refine ⟨hfits.covers_source, sum, _, p.texture.guardedSum_eq_ok .., hsum,
    Pass.guardedNumber_eq_ok hfits.sourceDepth x y c, hplain, fun hdither => (hdithered hdither).1, ?_,
    fun slot hslot => ?_⟩
  · change min (k.variant.number sum (k.variant.bias x y)) dest.depth.top =
      if k.variant.dither = true ∧ k.variant.number sum (k.variant.bias x y) = 256 then 255
      else k.variant.number sum (k.variant.bias x y)
    cases hdither : k.variant.dither with
    | false =>
      rw [if_neg (by simp)]
      exact Nat.min_eq_left (hplain hdither)
    | true =>
      -- the only number above the range is 256
      obtain ⟨hle, htop⟩ := hdithered hdither
      rw [htop] at hle ⊢
      simp only [true_and]
      split <;> omega
  · rw [hfits.get?_written_of_source? hslot hx hy]
    exact congrArg some (k.variant.finish_eq_saturate sum (k.variant.bias x y) dest.depth)

/-- Of two white pixels that are dithered, the second one makes 256 and is 255 nevertheless. -/
theorem exists_number_of_launch_white :
    ∃ (k : Kernel) (source dest : View) (r : Request) (result : Vector (Sample dest.depth) dest.size)
        (hcovers : source.window.Covers r.sourceWidth r.sourceHeight),
      k.variant.dither = true ∧ k.launch source dest r = .ok result ∧ 1 < r.destWidth ∧ 0 < r.destHeight ∧
      (r.pass k.variant (source.corner r.sourceWidth r.sourceHeight hcovers)).guardedNumber 1 0 0 = .ok 256 ∧
      (dest.window.get? result 1 0 0).map Fin.val = some 255 := by
  let k : Kernel := ⟨⟨1, .sixteen, .eight, true, .combined⟩, by decide, rfl⟩
  let source : View :=
    ⟨.sixteen, 2, .replicate 2 (Sample.saturate .sixteen 65535),
      ⟨2, 1, 1, 2, 0, 2, by decide, by decide, by decide⟩⟩
  let dest : View :=
    ⟨.eight, 2, .replicate 2 (Sample.saturate .eight 9),
      ⟨2, 1, 1, 2, 0, 2, by decide, by decide, by decide⟩⟩
  let r : Request := ⟨2, 1, 2, 1, .clamp, true⟩
  have hfits : k.Fits source dest r :=
    ⟨rfl, rfl, rfl, rfl, fun _ => rfl, by decide, by decide, by decide, by decide⟩
  have hslot : k.variant.layout.source? k.variant.channels 0 = some 0 := rfl
  let p : Pass := r.pass k.variant (source.corner 2 1 (by decide))
  have hwhite : p.variant.number (p.texture.sum (p.across.taps 1) (p.down.taps 0) 0) (p.variant.matrixBias 1 0) =
      256 := by decide +kernel
  obtain ⟨hcovers, -, number, -, -, hnumber, -, -, hval, hsamples⟩ :=
    exists_number_of_launch hfits.launch_eq_ok (show 1 < r.destWidth by decide) (show 0 < r.destHeight by decide) 0
  have hnumber' : p.guardedNumber 1 0 0 = .ok 256 := by
    rw [Pass.guardedNumber_eq_ok rfl, Variant.bias_eq_matrixBias, hwhite]
  obtain rfl : number = 256 := Except.ok.inj (hnumber.symm.trans hnumber')
  refine ⟨k, source, dest, r, _, hcovers, rfl, hfits.launch_eq_ok, by decide, by decide, hnumber', ?_⟩
  rw [hsamples 0 hslot, Option.map_some, hval]
  rfl

end Kernel

end Resample
