import Resample.Proofs.Kernel.Faults

/-!
# Refusals of a launch

A launch of the kernel for a variant looks at its planes, its sizes and its regions in a fixed order. What
it says is the first thing that is wrong, and nothing else; and whenever it says that something is wrong,
the buffer of the destination is as it was. It never meets a fault, as long as a word counts the samples of
a band and the coordinates of the reads stay far from the longest integers.

## Contents

- §1 refusals of a variant, §2 what a launch refuses, §3 how a launch ends
-/

namespace Resample

/-! ## §1 Refusals of a variant -/

/-- The planes have the depths and channels that a kernel for the variant works on. -/
def Variant.Matches (v : Variant) (source dest : View) : Prop :=
  source.depth = v.source ∧ dest.depth = v.dest ∧ source.window.channels = v.channels ∧
    dest.window.channels = v.layout.destChannels v.channels

/-- Why a launch of the kernel for a variant is refused: what is looked at first is wrong, or what is looked
at first is right and the next thing is wrong, and so on. -/
inductive Refuses (v : Variant) (source dest : View) (r : Request) : LaunchError → Prop where
  | sourceDepth (h : source.depth ≠ v.source) :
      Refuses v source dest r (.sourceDepth v.source.bits source.depth.bits)
  | destDepth (hsource : source.depth = v.source) (h : dest.depth ≠ v.dest) :
      Refuses v source dest r (.destDepth v.dest.bits dest.depth.bits)
  | sourceChannels (hsource : source.depth = v.source) (hdest : dest.depth = v.dest)
      (h : source.window.channels ≠ v.channels) :
      Refuses v source dest r (.sourceChannels v.channels source.window.channels)
  | destChannels (hsource : source.depth = v.source) (hdest : dest.depth = v.dest)
      (hread : source.window.channels = v.channels)
      (h : dest.window.channels ≠ v.layout.destChannels v.channels) :
      Refuses v source dest r (.destChannels (v.layout.destChannels v.channels) dest.window.channels)
  | emptySource (hplanes : v.Matches source dest) (hwidth : r.destWidth ≠ 0) (hheight : r.destHeight ≠ 0)
      (h : r.sourceWidth = 0 ∨ r.sourceHeight = 0) :
      Refuses v source dest r (.emptySource r.destWidth r.destHeight)
  | missingDither (hplanes : v.Matches source dest) (hwidth : r.destWidth ≠ 0) (hheight : r.destHeight ≠ 0)
      (hwidth' : r.sourceWidth ≠ 0) (hheight' : r.sourceHeight ≠ 0) (h : v.normalized.dither)
      (htable : r.table = false) : Refuses v source dest r .missingDither
  | region (hplanes : v.Matches source dest) (hwidth : r.destWidth ≠ 0) (hheight : r.destHeight ≠ 0)
      (hwidth' : r.sourceWidth ≠ 0) (hheight' : r.sourceHeight ≠ 0)
      (htable : v.normalized.dither → r.table)
      (h : source.window.width < r.sourceWidth ∨ source.window.height < r.sourceHeight ∨
        dest.window.width < r.destWidth ∨ dest.window.height < r.destHeight) :
      Refuses v source dest r (.region .outOfBounds)

namespace Kernel

variable {v : Variant} {k : Kernel} {source dest : View} {r : Request}

/-! ## §2 What a launch refuses -/

/-- A launch refuses what its variant refuses. -/
theorem refusal?_eq_some_iff (hk : select? v = some k) {e : LaunchError} :
    k.refusal? source dest r = some e ↔ Refuses v source dest r e := by
  have hvariant := variant_of_select? hk
  have hsourceDepth : k.variant.source = v.source := by rw [hvariant]; rfl
  have hdestDepth : k.variant.dest = v.dest := by rw [hvariant]; rfl
  have hchannels : k.variant.channels = v.channels := by rw [hvariant]; rfl
  have hlayout : k.variant.layout = v.layout := by rw [hvariant]; rfl
  have hdither : k.variant.dither = v.normalized.dither := by rw [hvariant]
  unfold refusal? Window.Covers
  rw [hsourceDepth, hdestDepth, hchannels, hlayout, hdither]
  constructor
  · -- the first question that is answered with yes names the refusal
    intro h
    by_cases hs : source.depth ≠ v.source
    · rw [if_pos hs] at h
      exact Option.some.inj h ▸ .sourceDepth hs
    rw [if_neg hs] at h
    have hs := Decidable.of_not_not hs
    by_cases hd : dest.depth ≠ v.dest
    · rw [if_pos hd] at h
      exact Option.some.inj h ▸ .destDepth hs hd
    rw [if_neg hd] at h
    have hd := Decidable.of_not_not hd
    by_cases hr : source.window.channels ≠ v.channels
    · rw [if_pos hr] at h
      exact Option.some.inj h ▸ .sourceChannels hs hd hr
    rw [if_neg hr] at h
    have hr := Decidable.of_not_not hr
    by_cases hw : dest.window.channels ≠ v.layout.destChannels v.channels
    · rw [if_pos hw] at h
      exact Option.some.inj h ▸ .destChannels hs hd hr hw
    rw [if_neg hw] at h
    have hw := Decidable.of_not_not hw
    have hplanes : v.Matches source dest := ⟨hs, hd, hr, hw⟩
    split at h
    · cases h
    next hnothing =>
    obtain ⟨hwidth, hheight⟩ := not_or.1 hnothing
    split at h
    · next hempty => exact Option.some.inj h ▸ .emptySource hplanes hwidth hheight hempty
    next hempty =>
    obtain ⟨hwidth', hheight'⟩ := not_or.1 hempty
    split at h
    · next htable =>
      exact Option.some.inj h ▸ .missingDither hplanes hwidth hheight hwidth' hheight' htable.1
        (Bool.eq_false_iff.2 htable.2)
    next htable =>
    split at h
    · cases h
    next hcovers =>
    exact Option.some.inj h ▸ .region hplanes hwidth hheight hwidth' hheight'
      (fun hdither => Decidable.byContradiction fun hnot => htable ⟨hdither, hnot⟩) (by omega)
  · -- a refusal says that the questions before it are answered with no
    intro h
    cases h with
    | sourceDepth h => rw [if_pos h]
    | destDepth hs h => rw [if_neg (absurd hs), if_pos h]
    | sourceChannels hs hd h => rw [if_neg (absurd hs), if_neg (absurd hd), if_pos h]
    | destChannels hs hd hr h =>
      rw [if_neg (absurd hs), if_neg (absurd hd), if_neg (absurd hr), if_pos h]
    | emptySource hplanes hwidth hheight h =>
      obtain ⟨hs, hd, hr, hw⟩ := hplanes
      rw [if_neg (absurd hs), if_neg (absurd hd), if_neg (absurd hr), if_neg (absurd hw),
        if_neg (not_or.2 ⟨hwidth, hheight⟩), if_pos h]
    | missingDither hplanes hwidth hheight hwidth' hheight' h htable =>
      obtain ⟨hs, hd, hr, hw⟩ := hplanes
      rw [if_neg (absurd hs), if_neg (absurd hd), if_neg (absurd hr), if_neg (absurd hw),
        if_neg (not_or.2 ⟨hwidth, hheight⟩), if_neg (not_or.2 ⟨hwidth', hheight'⟩),
        if_pos ⟨h, by rw [htable]; decide⟩]
    | region hplanes hwidth hheight hwidth' hheight' htable h =>
      obtain ⟨hs, hd, hr, hw⟩ := hplanes
      rw [if_neg (absurd hs), if_neg (absurd hd), if_neg (absurd hr), if_neg (absurd hw),
        if_neg (not_or.2 ⟨hwidth, hheight⟩), if_neg (not_or.2 ⟨hwidth', hheight'⟩),
        if_neg fun hnot => hnot.2 (htable hnot.1), if_neg (by omega)]

/-! ## §3 How a launch ends -/

/-- A launch of the kernel for a variant meets no fault: it is refused for what the variant refuses first, and
then the buffer of the destination is as it was; otherwise it ends well, and where a side of the destination
is zero, with the buffer as it was. No buffer is longer than a signed word counts. -/
theorem guardedLaunch_of_selected (hk : select? v = some k) (hsource : source.size ≤ Word.greatest)
    (hdest : dest.size ≤ Word.greatest) (hband : bandRows * dest.window.stride ≤ Word.top)
    (hfetches : (∀ e, ¬ Refuses v source dest r e) → r.FetchesBelow (2 ^ 62)) :
    ∃ result after, k.guardedLaunch source dest r = .ok (result, after) ∧
      (∀ e, result = .error e ↔ Refuses v source dest r e) ∧
      (∀ e, result = .error e → after = dest.data) ∧
      (r.destWidth = 0 ∨ r.destHeight = 0 → after = dest.data) ∧
      k.launch source dest r = result.map fun _ => after := by
  rw [guardedLaunch_eq_elim, launch_eq_elim]
  cases hrefusal : k.refusal? source dest r with
  | some e =>
    refine ⟨.error e, dest.data, rfl, fun e' => ?_, fun _ _ => rfl, fun _ => rfl, rfl⟩
    rw [← refusal?_eq_some_iff hk, hrefusal, Except.error.injEq, Option.some.injEq]
  | none =>
    have hnothing : ∀ e, ¬ Refuses v source dest r e := fun e he => by
      rw [(refusal?_eq_some_iff hk).2 he] at hrefusal
      cases hrefusal
    rw [Option.elim_none, guardedWritten_eq_ok hrefusal hsource hdest hband (hfetches hnothing)]
    refine ⟨.ok (), k.written source dest r, rfl, fun e => iff_of_false nofun (hnothing e), nofun, ?_, rfl⟩
    exact fun hempty => if_pos hempty

/-- A kernel that dithers: with the table at hand it ends well, and without it it is refused. -/
theorem guardedLaunch_of_selected_dithered :
    ∃ k source dest, select? ⟨1, .sixteen, .eight, true, .combined⟩ = some k ∧
      (∃ after, k.guardedLaunch source dest ⟨2, 2, 1, 1, .clamp, true⟩ = .ok (.ok (), after)) ∧
      k.guardedLaunch source dest ⟨2, 2, 1, 1, .clamp, false⟩ = .ok (.error .missingDither, dest.data) := by
  let source : View := ⟨.sixteen, 4, #v[0, 1, 2, 65535].map (Sample.truncate .sixteen),
    ⟨2, 2, 1, 2, 0, 4, by decide, by decide, by decide⟩⟩
  let dest : View := ⟨.eight, 1, #v[Sample.truncate .eight 9],
    ⟨1, 1, 1, 1, 0, 1, by decide, by decide, by decide⟩⟩
  obtain ⟨k, hk⟩ : ∃ k, select? ⟨1, .sixteen, .eight, true, .combined⟩ = some k := ⟨_, rfl⟩
  have hplanes : Variant.Matches ⟨1, .sixteen, .eight, true, .combined⟩ source dest := ⟨rfl, rfl, rfl, rfl⟩
  have hsource : source.size ≤ Word.greatest := by decide
  have hdest : dest.size ≤ Word.greatest := by decide
  have hband : bandRows * dest.window.stride ≤ Word.top := by decide
  refine ⟨k, source, dest, hk, ?_, ?_⟩
  · have hfetches : Request.FetchesBelow ⟨2, 2, 1, 1, .clamp, true⟩ (2 ^ 62) := by
      unfold Request.FetchesBelow
      decide +kernel
    obtain ⟨result, after, hrun, hrefuses, -⟩ :=
      guardedLaunch_of_selected hk hsource hdest hband fun _ => hfetches
    cases result with
    | ok => exact ⟨after, hrun⟩
    | error e =>
      cases (hrefuses e).1 rfl with
      | sourceDepth h => exact absurd hplanes.1 h
      | destDepth _ h => exact absurd hplanes.2.1 h
      | sourceChannels _ _ h => exact absurd hplanes.2.2.1 h
      | destChannels _ _ _ h => exact absurd hplanes.2.2.2 h
      | emptySource _ _ _ h => exact absurd h (by decide)
      | missingDither _ _ _ _ _ _ h => exact absurd h (by decide)
      | region _ _ _ _ _ _ h => exact absurd h (by decide)
  · have hrefused : Refuses ⟨1, .sixteen, .eight, true, .combined⟩ source dest ⟨2, 2, 1, 1, .clamp, false⟩
        .missingDither :=
      .missingDither hplanes (by decide) (by decide) (by decide) (by decide) (by decide) rfl
    obtain ⟨result, after, hrun, hrefuses, hkept, -⟩ :=
      guardedLaunch_of_selected hk hsource hdest hband fun h => absurd hrefused (h _)
    have hresult := (hrefuses _).2 hrefused
    rw [hrun, hresult, hkept _ hresult]

end Kernel

end Resample
