import Resample.Kernel.Filter
import Resample.Proofs.Grid.Writes

/-!
# Bounds of reads

An address mode leads every index to a texel of the axis, and only the border mode leads to none. So a read
gives the value of a pixel or of the border, and a read between texels, which is a rounded mean of four of
them, stays between the bounds of all. A sum of four such reads does so too, four times over.

## Contents

- §1 indices, §2 means, §3 textures within bounds
-/

namespace Resample

/-! ## §1 Indices -/

/-- The signed reading of a natural number is not above it. -/
theorem Word.signed_le (n : Nat) : signed n ≤ n := by
  unfold signed count
  rw [Int.bmod_def]
  split <;> omega

namespace AddressMode

/-- The texel that an index reads is one of the axis. -/
theorem lt_of_index?_eq_some {mode : AddressMode} {i : Int} {len j : Nat} (h : mode.index? i len = some j) :
    j < len := by
  unfold index? at h
  split at h
  · cases h
  · next hlen =>
    cases mode with
    | clamp =>
      have hj := Option.some.inj h
      omega
    | mirror =>
      -- the texels of the second half of a period are those of the first half, backwards
      simp only [Option.some.injEq] at h
      split at h <;> omega
    | border value =>
      obtain ⟨hin, hj⟩ := Option.ite_none_right_eq_some.1 h
      have hsigned := Word.signed_le len
      have hj := Option.some.inj hj
      omega

/-- An index that reads no texel of an axis with texels does so in border mode. -/
theorem exists_border_of_index?_eq_none {mode : AddressMode} {i : Int} {len : Nat}
    (h : mode.index? i len = none) (hlen : 0 < len) : ∃ value, mode = .border value := by
  unfold index? at h
  rw [if_neg (by omega)] at h
  cases mode with
  | clamp => cases h
  | mirror => cases h
  | border value => exact ⟨value, rfl⟩

end AddressMode

/-! ## §2 Means -/

namespace Tap

variable {low high a b : Nat}

/-- A weighted mean is not below a lower bound of both values. -/
theorem le_mix (t : Tap) (ha : low ≤ a) (hb : low ≤ b) : tapOne * low ≤ t.mix a b := by
  have hweight := t.weight_le
  calc tapOne * low = (tapOne - t.weight) * low + t.weight * low := by
        rw [← Nat.add_mul, Nat.sub_add_cancel hweight]
    _ ≤ (tapOne - t.weight) * a + t.weight * b :=
        Nat.add_le_add (Nat.mul_le_mul_left _ ha) (Nat.mul_le_mul_left _ hb)

/-- A weighted mean is not above an upper bound of both values. -/
theorem mix_le (t : Tap) (ha : a ≤ high) (hb : b ≤ high) : t.mix a b ≤ tapOne * high := by
  have hweight := t.weight_le
  calc (tapOne - t.weight) * a + t.weight * b ≤ (tapOne - t.weight) * high + t.weight * high :=
        Nat.add_le_add (Nat.mul_le_mul_left _ ha) (Nat.mul_le_mul_left _ hb)
    _ = tapOne * high := by rw [← Nat.add_mul, Nat.sub_add_cancel hweight]

end Tap

/-! ## §3 Textures within bounds -/

namespace Texture

/-- Every read of channel `c` is between two bounds. -/
def Within (t : Texture) (c low high : Nat) : Prop :=
  ∀ x y : Int, low ≤ t.fetch x y c ∧ t.fetch x y c ≤ high

variable {t : Texture} {c low high : Nat}

/-- The four values that a read of channel `c` between texels is the mean of. -/
def corners (t : Texture) (across down : Tap) (c : Nat) : List Nat :=
  [t.fetch across.base down.base c, t.fetch (across.base + 1) down.base c,
    t.fetch across.base (down.base + 1) c, t.fetch (across.base + 1) (down.base + 1) c]

/-- A read between texels is a rounded mean, so it is not below a whole lower bound of its corners. -/
theorem le_fetchBetween {across down : Tap} (h : ∀ corner ∈ t.corners across down c, low ≤ corner) :
    low ≤ t.fetchBetween across down c := by
  unfold corners at h
  simp only [List.forall_mem_cons] at h
  obtain ⟨h₁, h₂, h₃, h₄, -⟩ := h
  have hmean := down.le_mix (across.le_mix h₁ h₂) (across.le_mix h₃ h₄)
  unfold fetchBetween
  simp only
  unfold tapOne at hmean ⊢
  omega

/-- A read between texels is not above a whole upper bound of its corners. -/
theorem fetchBetween_le {across down : Tap} (h : ∀ corner ∈ t.corners across down c, corner ≤ high) :
    t.fetchBetween across down c ≤ high := by
  unfold corners at h
  simp only [List.forall_mem_cons] at h
  obtain ⟨h₁, h₂, h₃, h₄, -⟩ := h
  have hmean := down.mix_le (across.mix_le h₁ h₂) (across.mix_le h₃ h₄)
  unfold fetchBetween
  simp only
  unfold tapOne at hmean ⊢
  omega

/-- The reads are between two bounds if the pixels are, and the border where there is one. -/
theorem within_of_pixels (hin : t.view.window.Contains 0 0 c)
    (hpixels : ∀ x y v, t.view.window.get? t.view.data x y c = some v → low ≤ v.val ∧ v.val ≤ high)
    (hborder : ∀ value, t.mode = .border value →
      low ≤ t.mode.missing t.view.depth ∧ t.mode.missing t.view.depth ≤ high) : t.Within c low high := by
  obtain ⟨hwidth, hheight, hc⟩ := hin
  intro x y
  unfold fetch texel?
  cases hi : t.mode.index? x t.view.window.width with
  | none =>
    obtain ⟨value, hvalue⟩ := AddressMode.exists_border_of_index?_eq_none hi hwidth
    exact hborder value hvalue
  | some i =>
    cases hj : t.mode.index? y t.view.window.height with
    | none =>
      obtain ⟨value, hvalue⟩ := AddressMode.exists_border_of_index?_eq_none hj hheight
      exact hborder value hvalue
    | some j =>
      have hpixel : t.view.window.Contains i j c :=
        ⟨AddressMode.lt_of_index?_eq_some hi, AddressMode.lt_of_index?_eq_some hj, hc⟩
      have hsample := Window.get?_of_contains hpixel t.view.data
      simp only [Option.bind_eq_bind, Option.bind_some, hsample]
      exact hpixels i j _ hsample

/-- Every read is a sample of the depth, be it of a pixel or of the border. -/
theorem within_top (t : Texture) (c : Nat) : t.Within c 0 t.view.depth.top := by
  intro x y
  refine ⟨Nat.zero_le _, ?_⟩
  unfold fetch
  cases t.texel? x y c with
  | some s => exact s.le_top
  | none =>
    cases t.mode with
    | clamp => exact Nat.zero_le _
    | mirror => exact Nat.zero_le _
    | border => exact Nat.min_le_right _ _

namespace Within

/-- Reads between texels are within the bounds of reads of texels. -/
theorem fetchBetween (h : t.Within c low high) (across down : Tap) :
    low ≤ t.fetchBetween across down c ∧ t.fetchBetween across down c ≤ high := by
  have hcorners : ∀ corner ∈ t.corners across down c, low ≤ corner ∧ corner ≤ high := by
    unfold corners
    simp only [List.forall_mem_cons]
    exact ⟨h _ _, h _ _, h _ _, h _ _, nofun⟩
  exact ⟨le_fetchBetween fun corner hcorner => (hcorners corner hcorner).1,
    fetchBetween_le fun corner hcorner => (hcorners corner hcorner).2⟩

/-- Four reads make a sum within four times the bounds. -/
theorem sum (h : t.Within c low high) (across down : TapPair) :
    4 * low ≤ t.sum across down c ∧ t.sum across down c ≤ 4 * high := by
  have h₁ := h.fetchBetween across.before down.before
  have h₂ := h.fetchBetween across.after down.before
  have h₃ := h.fetchBetween across.before down.after
  have h₄ := h.fetchBetween across.after down.after
  unfold Texture.sum
  omega

end Within

end Texture

end Resample
