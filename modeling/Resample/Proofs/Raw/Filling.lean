import Mathlib.Algebra.GroupWithZero.Nat
import Mathlib.Data.List.SplitLengths
import Resample.Proofs.Raw.Source

/-!
# Filling buffers from a source

A filling takes the bytes of a source in order, as many as the buffer has room for, and leaves the rest of the
buffer as it was. It ends where the buffer is full, where the source has ended or where it fails, and the source
then stands behind the bytes that were taken. So fillings one after another take its bytes apart, and none is lost
or taken twice.

A filling ends unless the source is interrupted without end before the buffer is full.

## Contents

- §1 how a filling ends, §2 patient sources, §3 fillings one after another, §4 lists of events
-/

namespace Resample

namespace ByteSource

variable {ε : Type} {s rest : ByteSource ε} {bytes buffer : List UInt8} {filled : Nat}

/-! ## §1 How a filling ends -/

/-- A buffer is filled with the first bytes of a source that has enough of them, and the others are left. -/
theorem Gives.exists_ends_full (h : s.Gives bytes rest) (hle : buffer.length ≤ bytes.length) :
    ∃ middle, s.Ends buffer 0 ⟨.ok buffer.length, bytes.take buffer.length, middle⟩ ∧
      s.Gives (bytes.take buffer.length) middle ∧ middle.Gives (bytes.drop buffer.length) rest := by
  obtain ⟨first, hgives, hothers⟩ := h.split hle
  have hlength : (bytes.take buffer.length).length = buffer.length := List.length_take_of_le hle
  obtain ⟨middle, hends, htaken, hleft⟩ := hgives.exists_ends ((Nat.zero_add _).trans hlength)
  rw [overwriteBytes_zero, hlength, List.drop_length, List.append_nil] at hends
  exact ⟨middle, hends, htaken, hleft.trans hothers⟩

/-- Helper: a filling whose source has fewer bytes goes on with what comes then. -/
private theorem Gives.ends_of_short (h : s.Gives bytes rest) (hlt : bytes.length < buffer.length)
    {outcome : Filled ε} :
    s.Ends buffer 0 outcome ↔ rest.Ends (bytes ++ buffer.drop bytes.length) bytes.length outcome := by
  rw [h.ends_iff (by omega), overwriteBytes_zero, Nat.zero_add]

/-- Helper: a buffer with bytes over its start is as long as it was. -/
private theorem length_refilled (hlt : bytes.length < buffer.length) :
    (bytes ++ buffer.drop bytes.length).length = buffer.length := by
  rw [List.length_append, List.length_drop]
  omega

/-- Where the source ends within a buffer, the filling does, and the rest of the buffer is as it was. -/
theorem Gives.ends_ended (h : s.Gives bytes (cons (.data []) rest)) (hlt : bytes.length < buffer.length) :
    s.Ends buffer 0 ⟨.ok bytes.length, bytes ++ buffer.drop bytes.length, rest⟩ := by
  have hroom : bytes.length < (bytes ++ buffer.drop bytes.length).length := by rwa [length_refilled hlt]
  refine (h.ends_of_short hlt).2 ⟨1, ?_⟩
  rw [fillFrom_data hroom, if_pos rfl]

/-- Where the source fails within a buffer, the filling gives the error. -/
theorem Gives.ends_failed {e : ε} (h : s.Gives bytes (cons (.failed e) rest))
    (hlt : bytes.length < buffer.length) :
    s.Ends buffer 0 ⟨.error e, bytes ++ buffer.drop bytes.length, rest⟩ := by
  have hroom : bytes.length < (bytes ++ buffer.drop bytes.length).length := by rwa [length_refilled hlt]
  exact (h.ends_of_short hlt).2 ⟨1, fillFrom_failed hroom 0 e⟩

/-- The source has no byte for the next request: it has ended, or it fails. -/
def Stops (s : ByteSource ε) : Prop := s.head = .data [] ∨ ∃ e, s.head = .failed e

/-- Interruptions hand over nothing, and what answers the next request stands behind them, if anything does. -/
theorem exists_gives_nil (s : ByteSource ε) :
    (∃ rest, s.Gives [] rest ∧ rest.head ≠ .interrupted) ∨ s = const .interrupted := by
  by_cases hall : ∀ n, s.answer n = .interrupted
  · exact .inr (congrArg mk (funext hall))
  · obtain ⟨n, hn⟩ := not_forall.1 hall
    left
    induction n generalizing s with
    | zero => exact ⟨s, .nothing s, hn⟩
    | succ n ih =>
      by_cases hhead : s.head = .interrupted
      · obtain ⟨rest, hgives, hrest⟩ := ih s.tail (not_forall.2 ⟨n, hn⟩) hn
        rw [← cons_head_tail s, hhead]
        exact ⟨rest, .interrupted hgives, hrest⟩
      · exact ⟨s, .nothing s, hhead⟩

/-- A source hands over as many bytes as are wanted, unless it stops before or is interrupted from then on. -/
theorem exists_gives (s : ByteSource ε) (n : Nat) :
    ∃ bytes rest, s.Gives bytes rest ∧
      (bytes.length = n ∨ bytes.length < n ∧ (rest.Stops ∨ rest = const .interrupted)) := by
  induction n with
  | zero => exact ⟨[], s, .nothing s, .inl rfl⟩
  | succ n ih =>
    obtain ⟨bytes, rest, hgives, hlength | ⟨hlength, hover⟩⟩ := ih
    · obtain ⟨next, hnext, hhead⟩ | hforever := exists_gives_nil rest
      · have hgives := hgives.trans hnext
        rw [List.append_nil] at hgives
        have hnext : next = cons next.head next.tail := (cons_head_tail next).symm
        cases hanswer : next.head with
        | interrupted => exact absurd hanswer hhead
        | failed e => exact ⟨bytes, next, hgives, .inr ⟨by omega, .inl (.inr ⟨e, hanswer⟩)⟩⟩
        | data piece =>
          cases piece with
          | nil => exact ⟨bytes, next, hgives, .inr ⟨by omega, .inl (.inl hanswer)⟩⟩
          | cons b piece =>
            -- one byte more
            have hbyte : next.Gives [b] (left piece next.tail) := by
              rw [hnext, hanswer]
              exact .byte (.nothing _)
            refine ⟨bytes ++ [b], _, hgives.trans hbyte, .inl ?_⟩
            rw [List.length_append, hlength, List.length_singleton]
      · exact ⟨bytes, rest, hgives, .inr ⟨by omega, .inr hforever⟩⟩
    · exact ⟨bytes, rest, hgives, .inr ⟨by omega, hover⟩⟩

/-- A filling ends and leaves the source behind what it has taken, and behind the answer that ended it unless the
buffer is full, or else the source is interrupted without end before the buffer is full. -/
theorem exists_ends_or (s : ByteSource ε) (buffer : List UInt8) :
    (∃ outcome bytes, s.Ends buffer 0 outcome ∧
      (s.Gives bytes outcome.rest ∨ ∃ last, s.Gives bytes (cons last outcome.rest))) ∨
      ∃ bytes, s.Gives bytes (const .interrupted) ∧ bytes.length < buffer.length := by
  obtain ⟨bytes, rest, hgives, hlength | ⟨hlt, (hended | ⟨e, hfailed⟩) | rfl⟩⟩ := s.exists_gives buffer.length
  · obtain ⟨middle, hends, htaken, -⟩ := hgives.exists_ends_full (Nat.le_of_eq hlength.symm)
    exact .inl ⟨_, _, hends, .inl htaken⟩
  · rw [← cons_head_tail rest, hended] at hgives
    exact .inl ⟨_, bytes, hgives.ends_ended hlt, .inr ⟨_, hgives⟩⟩
  · rw [← cons_head_tail rest, hfailed] at hgives
    exact .inl ⟨_, bytes, hgives.ends_failed hlt, .inr ⟨_, hgives⟩⟩
  · exact .inr ⟨bytes, hgives, hlt⟩

/-- A loop that is interrupted without end does not end. -/
theorem not_ends_const_interrupted (hroom : filled < buffer.length) (outcome : Filled ε) :
    ¬ (const .interrupted : ByteSource ε).Ends buffer filled outcome := by
  rintro ⟨requests, h⟩
  induction requests with
  | zero =>
    rw [fillFrom, if_neg (Nat.not_le.2 hroom)] at h
    cases h
  | succ requests ih =>
    rw [fillFrom, if_neg (Nat.not_le.2 hroom)] at h
    exact ih h

/-- A filling ends unless the source is interrupted without end before the buffer is full. -/
theorem exists_ends_iff :
    (∃ outcome, s.Ends buffer 0 outcome) ↔
      ¬ ∃ bytes, s.Gives bytes (const .interrupted) ∧ bytes.length < buffer.length := by
  constructor
  · rintro ⟨outcome, hends⟩ ⟨bytes, hgives, hlt⟩
    refine not_ends_const_interrupted ?_ outcome ((hgives.ends_of_short hlt).1 hends)
    rwa [length_refilled hlt]
  · intro hnot
    obtain ⟨outcome, -, hends, -⟩ := (s.exists_ends_or buffer).resolve_right hnot
    exact ⟨outcome, hends⟩

/-- A filling has put the pieces of a source together again. -/
structure Reassembles (s : ByteSource ε) (buffer : List UInt8) (filled : Filled ε) : Prop where
  /-- Of a source that ends, it has taken as many bytes as there are and the buffer has room for. They stand at
  the start of the buffer, and the rest of it is as it was. -/
  ended : ∀ bytes rest, s.Gives bytes (cons (.data []) rest) →
    filled.result = .ok (min buffer.length bytes.length) ∧
      filled.buffer = bytes.take buffer.length ++ buffer.drop bytes.length ∧
      (bytes.length < buffer.length → filled.rest = rest)
  /-- Where there are enough bytes the buffer is full, whatever comes after them, and the other bytes are left. -/
  full : ∀ bytes rest, s.Gives bytes rest → buffer.length ≤ bytes.length →
    filled.result = .ok buffer.length ∧ filled.buffer = bytes.take buffer.length ∧
      filled.rest.Gives (bytes.drop buffer.length) rest
  /-- An error that comes before is what the filling gives; the bytes before it are in the buffer. -/
  failed : ∀ bytes e rest, s.Gives bytes (cons (.failed e) rest) → bytes.length < buffer.length →
    filled.result = .error e ∧ filled.buffer = bytes ++ buffer.drop bytes.length ∧ filled.rest = rest
  /-- One of these cases it is: the bytes fill the buffer, or fewer come before the source stops. -/
  exhaustive : ∃ bytes rest, s.Gives bytes rest ∧
    (bytes.length = buffer.length ∨ bytes.length < buffer.length ∧ rest.Stops)

/-- A filling that ends has put the pieces together. -/
theorem Ends.reassembles {outcome : Filled ε} (h : s.Ends buffer 0 outcome) : s.Reassembles buffer outcome := by
  have hfull : ∀ bytes rest, s.Gives bytes rest → buffer.length ≤ bytes.length →
      outcome.result = .ok buffer.length ∧ outcome.buffer = bytes.take buffer.length ∧
        outcome.rest.Gives (bytes.drop buffer.length) rest := by
    intro bytes rest hgives hle
    obtain ⟨middle, hends, -, hleft⟩ := hgives.exists_ends_full hle
    obtain rfl := h.unique hends
    exact ⟨rfl, rfl, hleft⟩
  refine ⟨fun bytes rest hgives => ?_, hfull, fun bytes e rest hgives hlt => ?_, ?_⟩
  · -- at the end of the source, the buffer is full or the rest of it is as it was
    rcases Nat.lt_or_ge bytes.length buffer.length with hlt | hle
    · obtain rfl := h.unique (hgives.ends_ended hlt)
      rw [Nat.min_eq_right (Nat.le_of_lt hlt), List.take_of_length_le (Nat.le_of_lt hlt)]
      exact ⟨rfl, rfl, fun _ => rfl⟩
    · obtain ⟨hresult, hbuffer, -⟩ := hfull bytes _ hgives hle
      rw [Nat.min_eq_left hle, List.drop_eq_nil_iff.2 hle, List.append_nil]
      exact ⟨hresult, hbuffer, fun hlt => absurd hlt (Nat.not_lt.2 hle)⟩
  · obtain rfl := h.unique (hgives.ends_failed hlt)
    exact ⟨rfl, rfl, rfl⟩
  · obtain ⟨bytes, rest, hgives, hlength | ⟨hlt, hstops | rfl⟩⟩ := s.exists_gives buffer.length
    · exact ⟨bytes, rest, hgives, .inl hlength⟩
    · exact ⟨bytes, rest, hgives, .inr ⟨hlt, hstops⟩⟩
    · exact absurd ⟨bytes, hgives, hlt⟩ (exists_ends_iff.1 ⟨outcome, h⟩)

/-! ## §2 Patient sources -/

/-- The source is never interrupted without end. -/
def IsPatient (s : ByteSource ε) : Prop := ∀ n, ∃ m, n ≤ m ∧ s.answer m ≠ .interrupted

theorem IsPatient.of_cons {a : Answer ε} (h : (cons a s).IsPatient) : s.IsPatient := by
  intro n
  obtain ⟨m, hle, hm⟩ := h (n + 1)
  obtain ⟨m, rfl⟩ : ∃ k, m = k + 1 := ⟨m - 1, by omega⟩
  exact ⟨m, Nat.le_of_succ_le_succ hle, hm⟩

theorem IsPatient.cons (h : s.IsPatient) (a : Answer ε) : (cons a s).IsPatient := by
  intro n
  obtain ⟨m, hle, hm⟩ := h n
  exact ⟨m + 1, Nat.le_succ_of_le hle, hm⟩

/-- A patient source is patient after all that it hands over. -/
theorem Gives.isPatient (h : s.Gives bytes rest) (hs : s.IsPatient) : rest.IsPatient := by
  induction h with
  | nothing => exact hs
  | interrupted _ ih => exact ih hs.of_cons
  | @byte s rest b piece bytes _ ih =>
    refine ih ?_
    unfold left
    split
    · exact hs.of_cons
    · exact hs.of_cons.cons _

/-- Fillings from a patient source end, and leave a patient source. -/
theorem IsPatient.exists_ends (hs : s.IsPatient) (buffer : List UInt8) :
    ∃ outcome, s.Ends buffer 0 outcome ∧ outcome.rest.IsPatient := by
  obtain ⟨outcome, bytes, hends, hgives | ⟨last, hgives⟩⟩ | ⟨bytes, hgives, -⟩ := s.exists_ends_or buffer
  · exact ⟨outcome, hends, hgives.isPatient hs⟩
  · exact ⟨outcome, hends, (hgives.isPatient hs).of_cons⟩
  · obtain ⟨m, -, hm⟩ := hgives.isPatient hs 0
    exact absurd rfl hm

/-! ## §3 Fillings one after another -/

theorem fillEach_of_le {requests more : Nat} (hle : requests ≤ more) {buffers : List (List UInt8)}
    {outcomes : List (Filled ε)} (h : s.fillEach requests buffers = some outcomes) :
    s.fillEach more buffers = some outcomes := by
  induction buffers generalizing s outcomes with
  | nil => exact h
  | cons buffer others ih =>
    obtain ⟨first, hfirst, h⟩ := Option.bind_eq_some_iff.1 h
    obtain ⟨later, hlater, houtcomes⟩ := Option.bind_eq_some_iff.1 h
    exact Option.bind_eq_some_iff.2 ⟨first, fillFrom_of_le hle hfirst,
      Option.bind_eq_some_iff.2 ⟨later, ih hlater, houtcomes⟩⟩

/-- All fillings end, after some number of requests each. -/
def EndsEach (s : ByteSource ε) (buffers : List (List UInt8)) (outcomes : List (Filled ε)) : Prop :=
  ∃ requests, s.fillEach requests buffers = some outcomes

theorem endsEach_nil : s.EndsEach [] [] := ⟨0, rfl⟩

theorem Ends.endsEach_cons {first : Filled ε} (h : s.Ends buffer 0 first) {others : List (List UInt8)}
    {outcomes : List (Filled ε)} (hothers : first.rest.EndsEach others outcomes) :
    s.EndsEach (buffer :: others) (first :: outcomes) := by
  obtain ⟨requests, h⟩ := h
  obtain ⟨requests', hothers⟩ := hothers
  have hfirst : s.fill (max requests requests') buffer = some first :=
    fillFrom_of_le (Nat.le_max_left ..) h
  refine ⟨max requests requests', ?_⟩
  rw [fillEach, hfirst, Option.bind_eq_bind, Option.bind_some, fillEach_of_le (Nat.le_max_right ..) hothers]
  rfl

/-- Fillings from a patient source end, one after another. -/
theorem IsPatient.exists_endsEach (hs : s.IsPatient) (buffers : List (List UInt8)) :
    ∃ outcomes, s.EndsEach buffers outcomes := by
  induction buffers generalizing s with
  | nil => exact ⟨[], endsEach_nil⟩
  | cons buffer others ih =>
    obtain ⟨first, hfirst, hrest⟩ := hs.exists_ends buffer
    obtain ⟨outcomes, houtcomes⟩ := ih hrest
    exact ⟨first :: outcomes, hfirst.endsEach_cons houtcomes⟩

/-- What a filling gives that has taken these bytes, and the buffer afterwards. -/
def taken (buffer portion : List UInt8) : Except ε Nat × List UInt8 :=
  (.ok portion.length, portion ++ buffer.drop portion.length)

/-- Fillings one after another take the bytes of a source in portions, each as long as its buffer while there are
bytes enough. -/
theorem Gives.exists_endsEach (h : s.Gives bytes rest) {buffers : List (List UInt8)}
    (hsizes : (buffers.map List.length).sum ≤ bytes.length ∨ rest = const (.data [])) :
    ∃ outcomes, s.EndsEach buffers outcomes ∧
      outcomes.map (fun filled => (filled.result, filled.buffer)) =
        List.zipWith taken buffers ((buffers.map List.length).splitLengths bytes) := by
  induction buffers generalizing s bytes with
  | nil => exact ⟨[], endsEach_nil, rfl⟩
  | cons buffer others ih =>
    rw [List.map_cons, List.sum_cons] at hsizes
    rw [List.map_cons, List.splitLengths_cons, List.zipWith_cons_cons]
    rcases Nat.lt_or_ge bytes.length buffer.length with hlt | hle
    · -- the source has ended, and nothing is left for the other buffers
      obtain rfl := hsizes.resolve_left (by omega)
      rw [← cons_head_tail (const _)] at h
      obtain ⟨outcomes, hends, houtcomes⟩ := ih (.nothing (const (.data []))) (.inr rfl)
      refine ⟨_, (h.ends_ended hlt).endsEach_cons hends, ?_⟩
      rw [List.map_cons, houtcomes, List.take_of_length_le (Nat.le_of_lt hlt),
        List.drop_eq_nil_iff.2 (Nat.le_of_lt hlt)]
      rfl
    · obtain ⟨middle, hends, -, hleft⟩ := h.exists_ends_full hle
      have hsizes' : (others.map List.length).sum ≤ (bytes.drop buffer.length).length ∨
          rest = const (.data []) := by
        rw [List.length_drop]
        exact hsizes.imp_left fun hsum => by omega
      obtain ⟨outcomes, hends', houtcomes⟩ := ih hleft hsizes'
      refine ⟨_, hends.endsEach_cons hends', ?_⟩
      rw [List.map_cons, houtcomes, taken, List.length_take_of_le hle, List.drop_length, List.append_nil]

/-- Portions that follow each other are what they were cut from, as far as they reach. -/
theorem flatten_splitLengths (sizes : List Nat) (bytes : List UInt8) :
    (sizes.splitLengths bytes).flatten = bytes.take sizes.sum := by
  induction sizes generalizing bytes with
  | nil => rfl
  | cons size sizes ih =>
    rw [List.splitLengths_cons, List.flatten_cons, ih, List.sum_cons, List.take_add]

/-- Fillings put any schedule of answers together again. From a source that is never interrupted without end, a
filling ends. It gives as many bytes as the buffer has room for and the source has before it ends, these bytes in
order at the start of the buffer and the rest of it as it was, or else the error that comes before. Fillings one
after another take the bytes in portions that follow each other, none lost and none taken twice. -/
theorem exists_reassembles (hs : s.IsPatient) :
    (∀ buffer, ∃ requests filled, (∀ more, requests ≤ more → s.fill more buffer = some filled) ∧
      s.Reassembles buffer filled) ∧
    ∀ buffers : List (List UInt8),
      ∃ requests outcomes, (∀ more, requests ≤ more → s.fillEach more buffers = some outcomes) ∧
        ∀ bytes rest, s.Gives bytes rest →
          (buffers.map List.length).sum ≤ bytes.length ∨ rest = const (.data []) →
          outcomes.map (fun filled => (filled.result, filled.buffer)) =
              List.zipWith taken buffers ((buffers.map List.length).splitLengths bytes) ∧
            ((buffers.map List.length).splitLengths bytes).flatten =
              bytes.take (buffers.map List.length).sum := by
  constructor
  · intro buffer
    obtain ⟨filled, ⟨requests, hends⟩, -⟩ := hs.exists_ends buffer
    exact ⟨requests, filled, fun more hle => fillFrom_of_le hle hends, Ends.reassembles ⟨requests, hends⟩⟩
  · intro buffers
    obtain ⟨outcomes, requests, hends⟩ := hs.exists_endsEach buffers
    refine ⟨requests, outcomes, fun more hle => fillEach_of_le hle hends, fun bytes rest hgives hsizes => ?_⟩
    obtain ⟨outcomes', ⟨requests', hends'⟩, houtcomes⟩ := hgives.exists_endsEach hsizes
    -- the number of requests does not matter
    have hboth := fillEach_of_le (Nat.le_max_left requests requests') hends
    rw [fillEach_of_le (Nat.le_max_right requests requests') hends'] at hboth
    obtain rfl := Option.some.inj hboth
    exact ⟨houtcomes, flatten_splitLengths _ _⟩

/-- Four bytes in two pieces, with an interruption before each, fill two buffers of two bytes and leave a third as
it was. -/
theorem interrupted_reassembles :
    let s : ByteSource String :=
      cons .interrupted (cons (.data [1, 2, 3]) (cons .interrupted (cons (.data [4]) (const (.data [])))))
    s.IsPatient ∧
      (∃ requests filled, s.fill requests [9, 9] = some filled ∧ filled.result = .ok 2 ∧ filled.buffer = [1, 2]) ∧
      ∃ requests outcomes, s.fillEach requests [[9, 9], [9, 9], [9, 9]] = some outcomes ∧
        outcomes.map (fun filled => (filled.result, filled.buffer)) =
          [(.ok 2, [1, 2]), (.ok 2, [3, 4]), (.ok 0, [9, 9])] := by
  intro s
  have hend : (const (.data []) : ByteSource String).IsPatient := fun n => ⟨n, Nat.le_refl n, nofun⟩
  have hs : s.IsPatient := (((hend.cons _).cons _).cons _).cons _
  have hgives : s.Gives [1, 2, 3, 4] (const (.data [])) :=
    .interrupted (.data (List.cons_ne_nil _ _) (.interrupted (.data (List.cons_ne_nil _ _) (.nothing _))))
  obtain ⟨hone, hmany⟩ := exists_reassembles hs
  obtain ⟨requests, filled, hends, hfilled⟩ := hone [9, 9]
  obtain ⟨hresult, hbuffer, -⟩ := hfilled.full _ _ hgives (by decide)
  obtain ⟨requests', outcomes, hends', houtcomes⟩ := hmany [[9, 9], [9, 9], [9, 9]]
  exact ⟨hs, ⟨requests, filled, hends _ (Nat.le_refl _), hresult, hbuffer⟩, requests', outcomes,
    hends' _ (Nat.le_refl _), (houtcomes _ _ hgives (.inr rfl)).1⟩

/-! ## §4 Lists of events -/

/-- What a filling of a buffer from a place on looks like from outside. -/
def ofFilling (buffer : List UInt8) (filled : Nat) (filling : Filling) : Filled Unit where
  result := if filling.failed then .error () else .ok (filled + filling.bytes.length)
  buffer := overwriteBytes buffer filled filling.bytes
  rest := ofEvents filling.rest

theorem ofFilling_nil (rest : List ReadEvent) (buffer : List UInt8) (filled : Nat) :
    ofFilling buffer filled ⟨[], rest, false⟩ = ⟨.ok filled, buffer, ofEvents rest⟩ := by
  unfold ofFilling
  rw [overwriteBytes_nil]
  rfl

/-- A filling that goes on behind some bytes is one with these bytes in front. -/
theorem ofFilling_append (h : filled + bytes.length ≤ buffer.length) (filling : Filling) :
    ofFilling (overwriteBytes buffer filled bytes) (filled + bytes.length) filling =
      ofFilling buffer filled { filling with bytes := bytes ++ filling.bytes } := by
  unfold ofFilling
  rw [overwriteBytes_append h, List.length_append, Nat.add_assoc]

/-- The loop reads a list of events as `ReadEvent.fill` does, and makes no more requests than there are events and
one for the end. -/
theorem fillFrom_ofEvents {events : List ReadEvent} {requests : Nat} (hrequests : events.length < requests) :
    fillFrom requests (ofEvents events) buffer filled =
      some (ofFilling buffer filled (ReadEvent.fill (buffer.length - filled) events)) := by
  obtain ⟨requests, rfl⟩ : ∃ n, requests = n + 1 := ⟨requests - 1, by omega⟩
  induction events generalizing requests buffer filled with
  | nil =>
    by_cases hfull : buffer.length ≤ filled
    · rw [fillFrom_of_full hfull, ReadEvent.fill, if_pos (by omega), ofFilling_nil]
    · have hend : ofEvents [] = cons (.data []) (ofEvents []) := (cons_head_tail _).symm
      rw [hend, fillFrom_data (Nat.not_le.1 hfull), if_pos rfl, ReadEvent.fill, if_neg (by omega), ofFilling_nil]
  | cons event rest ih =>
    by_cases hfull : buffer.length ≤ filled
    · rw [fillFrom_of_full hfull, ReadEvent.fill.eq_def, if_pos (by omega), ofFilling_nil]
    obtain ⟨requests, rfl⟩ : ∃ n, requests = n + 1 := ⟨requests - 1, by simp at hrequests; omega⟩
    have hrest : rest.length < requests + 1 := Nat.lt_of_succ_lt_succ hrequests
    have hroom := Nat.not_le.1 hfull
    rw [ReadEvent.fill.eq_def, if_neg (by omega)]
    cases event with
    | interrupted => rw [ofEvents, fillFrom_interrupted hroom, ih requests hrest]
    | failed =>
      rw [ofEvents, fillFrom_failed hroom]
      unfold ofFilling
      rw [overwriteBytes_nil]
      rfl
    | data piece =>
      rw [ofEvents, fillFrom_data hroom]
      simp only [List.isEmpty_iff]
      by_cases hpiece : piece = []
      · rw [if_pos hpiece, if_pos hpiece, ofFilling_nil]
      rw [if_neg hpiece, if_neg hpiece]
      by_cases hwhole : piece.length ≤ buffer.length - filled
      · -- the whole piece is taken, and the loop goes on behind it
        have hfits : filled + piece.length ≤ buffer.length := by omega
        rw [List.drop_eq_nil_iff.2 hwhole, List.take_of_length_le hwhole, if_pos rfl]
        rw [left_nil, ih requests hrest, ofFilling_append hfits, length_overwriteBytes hfits, Nat.sub_sub]
      · -- the buffer is full, and the rest of the piece is there for later requests
        have hsome : piece.drop (buffer.length - filled) ≠ [] := mt List.drop_eq_nil_iff.1 hwhole
        have hlength : (piece.take (buffer.length - filled)).length = buffer.length - filled :=
          List.length_take_of_le (by omega)
        rw [if_neg hsome, fillFrom_of_full]
        · rw [left_of_ne_nil hsome]
          rfl
        · rw [length_overwriteBytes (by omega)]
          omega

/-- A buffer is filled from a list of events by the bytes that `ReadEvent.fill` reads. -/
theorem fill_ofEvents (events : List ReadEvent) (buffer : List UInt8) :
    (ofEvents events).fill (events.length + 1) buffer =
      some ⟨if (ReadEvent.fill buffer.length events).failed then .error ()
          else .ok (ReadEvent.fill buffer.length events).bytes.length,
        ReadEvent.refill buffer (ReadEvent.fill buffer.length events).bytes,
        ofEvents (ReadEvent.fill buffer.length events).rest⟩ := by
  unfold fill
  rw [fillFrom_ofEvents (Nat.lt_succ_self _)]
  unfold ofFilling
  rw [overwriteBytes_zero, Nat.zero_add, Nat.sub_zero]
  rfl

end ByteSource

end Resample
