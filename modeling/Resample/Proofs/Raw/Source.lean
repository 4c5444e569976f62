import Resample.Raw.Source

/-!
# Requests to a source of bytes

A source hands over its bytes in pieces of any size, with interruptions between them. What it hands over can be
told without the requests: the bytes one after another, and the source behind them. The loop that fills a buffer
makes its requests for what is missing, and it does not matter to it how the bytes lie in the pieces.

## Contents

- §1 bytes of a source, §2 overwritten buffers, §3 the loop
-/

namespace Resample

namespace ByteSource

variable {ε : Type} {s rest : ByteSource ε} {bytes buffer : List UInt8} {filled : Nat}

/-! ## §1 Bytes of a source -/

/-- The source hands over these bytes one after another, with any number of interruptions, and goes on with
`rest`. -/
inductive Gives : ByteSource ε → List UInt8 → ByteSource ε → Prop where
  | nothing (s : ByteSource ε) : Gives s [] s
  | interrupted {s rest : ByteSource ε} {bytes : List UInt8} (h : Gives s bytes rest) :
      Gives (cons .interrupted s) bytes rest
  | byte {s rest : ByteSource ε} {b : UInt8} {piece bytes : List UInt8} (h : Gives (left piece s) bytes rest) :
      Gives (cons (.data (b :: piece)) s) (b :: bytes) rest

theorem cons_head_tail (s : ByteSource ε) : cons s.head s.tail = s := by
  have hanswer : (cons s.head s.tail).answer = s.answer := by
    funext n
    cases n with
    | zero => rfl
    | succ n => rfl
  exact congrArg mk hanswer

@[simp]
theorem left_nil (s : ByteSource ε) : left [] s = s := rfl

theorem left_of_ne_nil {piece : List UInt8} (h : piece ≠ []) (s : ByteSource ε) :
    left piece s = cons (.data piece) s :=
  if_neg (mt List.isEmpty_iff.1 h)

namespace Gives

theorem trans {more : List UInt8} {last : ByteSource ε} (h : Gives s bytes rest) (h' : Gives rest more last) :
    Gives s (bytes ++ more) last := by
  induction h with
  | nothing => exact h'
  | interrupted _ ih => exact .interrupted (ih h')
  | byte _ ih => exact .byte (ih h')

/-- What is handed over can be cut anywhere. -/
theorem split (h : Gives s bytes rest) {n : Nat} (hn : n ≤ bytes.length) :
    ∃ middle, Gives s (bytes.take n) middle ∧ Gives middle (bytes.drop n) rest := by
  induction h generalizing n with
  | nothing s =>
    obtain rfl : n = 0 := Nat.eq_zero_of_le_zero hn
    exact ⟨s, .nothing s, .nothing s⟩
  | interrupted _ ih =>
    obtain ⟨middle, hfirst, hsecond⟩ := ih hn
    exact ⟨middle, .interrupted hfirst, hsecond⟩
  | byte h ih =>
    cases n with
    | zero => exact ⟨_, .nothing _, .byte h⟩
    | succ n =>
      obtain ⟨middle, hfirst, hsecond⟩ := ih (Nat.le_of_succ_le_succ hn)
      exact ⟨middle, .byte hfirst, hsecond⟩

/-- A piece is handed over whole. -/
theorem data {piece : List UInt8} (hpiece : piece ≠ []) (h : Gives s bytes rest) :
    Gives (cons (.data piece) s) (piece ++ bytes) rest := by
  induction piece with
  | nil => exact absurd rfl hpiece
  | cons b piece ih =>
    refine .byte ?_
    by_cases hnil : piece = []
    · subst hnil
      exact h
    · rw [left_of_ne_nil hnil]
      exact ih hnil

end Gives

/-! ## §2 Overwritten buffers -/

theorem length_overwriteBytes (h : filled + bytes.length ≤ buffer.length) :
    (overwriteBytes buffer filled bytes).length = buffer.length := by
  unfold overwriteBytes
  simp only [List.length_append, List.length_take, List.length_drop]
  omega

@[simp]
theorem overwriteBytes_nil (buffer : List UInt8) (filled : Nat) : overwriteBytes buffer filled [] = buffer := by
  unfold overwriteBytes
  rw [List.append_nil, List.length_nil, Nat.add_zero, List.take_append_drop]

/-- Bytes that are written behind others might have been written with them. -/
theorem overwriteBytes_append (h : filled + bytes.length ≤ buffer.length) (more : List UInt8) :
    overwriteBytes (overwriteBytes buffer filled bytes) (filled + bytes.length) more =
      overwriteBytes buffer filled (bytes ++ more) := by
  have hfront : (buffer.take filled ++ bytes).length = filled + bytes.length := by
    rw [List.length_append, List.length_take, Nat.min_eq_left (by omega)]
  have hback : (buffer.take filled ++ bytes ++ buffer.drop (filled + bytes.length)).drop
      (filled + bytes.length + more.length) = buffer.drop (filled + (bytes.length + more.length)) := by
    rw [List.drop_append, hfront, List.drop_eq_nil_iff.2 (by omega), List.nil_append, List.drop_drop]
    congr 1
    omega
  unfold overwriteBytes
  rw [List.take_left' hfront, hback, List.append_assoc _ bytes, List.length_append]

theorem overwriteBytes_cons (h : filled < buffer.length) (b : UInt8) (more : List UInt8) :
    overwriteBytes (overwriteBytes buffer filled [b]) (filled + 1) more =
      overwriteBytes buffer filled (b :: more) :=
  overwriteBytes_append h more

theorem overwriteBytes_zero (buffer bytes : List UInt8) :
    overwriteBytes buffer 0 bytes = bytes ++ buffer.drop bytes.length := by
  unfold overwriteBytes
  rw [List.take_zero, List.nil_append, Nat.zero_add]

/-! ## §3 The loop -/

/-- The loop ends, after some number of requests. -/
def Ends (s : ByteSource ε) (buffer : List UInt8) (filled : Nat) (outcome : Filled ε) : Prop :=
  ∃ requests, fillFrom requests s buffer filled = some outcome

theorem fillFrom_of_full (h : buffer.length ≤ filled) (requests : Nat) :
    fillFrom requests s buffer filled = some ⟨.ok filled, buffer, s⟩ := by
  unfold fillFrom
  exact if_pos h

/-- A loop that has ended is not changed by requests that it does not make. -/
theorem fillFrom_of_le {requests more : Nat} (hle : requests ≤ more) {outcome : Filled ε}
    (h : fillFrom requests s buffer filled = some outcome) : fillFrom more s buffer filled = some outcome := by
  -- by the requests of the loop that has ended: each of them is made by the longer one too
  induction requests generalizing more s buffer filled with
  | zero =>
    by_cases hfull : buffer.length ≤ filled
    · rw [fillFrom_of_full hfull] at h ⊢
      exact h
    · rw [fillFrom, if_neg hfull] at h
      cases h
  | succ requests ih =>
    obtain ⟨more, rfl⟩ : ∃ n, more = n + 1 := ⟨more - 1, by omega⟩
    by_cases hfull : buffer.length ≤ filled
    · rw [fillFrom_of_full hfull] at h ⊢
      exact h
    · rw [fillFrom, if_neg hfull] at h ⊢
      generalize s.read (buffer.length - filled) = reply at h ⊢
      obtain ⟨answer, rest⟩ := reply
      cases answer with
      | interrupted => exact ih (Nat.le_of_succ_le_succ hle) h
      | failed e => exact h
      | data piece =>
        simp only at h ⊢
        split at h
        · next hempty => rw [if_pos hempty, h]
        · next hempty =>
          rw [if_neg hempty]
          exact ih (Nat.le_of_succ_le_succ hle) h

/-- A filling ends in one way only. -/
theorem Ends.unique {outcome outcome' : Filled ε} (h : s.Ends buffer filled outcome)
    (h' : s.Ends buffer filled outcome') : outcome = outcome' := by
  obtain ⟨requests, h⟩ := h
  obtain ⟨requests', h'⟩ := h'
  have hboth := fillFrom_of_le (Nat.le_max_left requests requests') h
  rw [fillFrom_of_le (Nat.le_max_right requests requests') h'] at hboth
  exact (Option.some.inj hboth).symm

section Room

variable (hroom : filled < buffer.length)
include hroom

/-- A loop that has room makes a request. -/
theorem ends_iff {outcome : Filled ε} :
    s.Ends buffer filled outcome ↔ ∃ requests, fillFrom (requests + 1) s buffer filled = some outcome := by
  constructor
  · rintro ⟨requests, h⟩
    cases requests with
    | zero =>
      rw [fillFrom, if_neg (Nat.not_le.2 hroom)] at h
      cases h
    | succ requests => exact ⟨requests, h⟩
  · rintro ⟨requests, h⟩
    exact ⟨requests + 1, h⟩

theorem fillFrom_interrupted (requests : Nat) :
    fillFrom (requests + 1) (cons .interrupted s) buffer filled = fillFrom requests s buffer filled := by
  rw [fillFrom, if_neg (Nat.not_le.2 hroom)]
  rfl

theorem fillFrom_failed (requests : Nat) (e : ε) :
    fillFrom (requests + 1) (cons (.failed e) s) buffer filled = some ⟨.error e, buffer, s⟩ := by
  rw [fillFrom, if_neg (Nat.not_le.2 hroom)]
  rfl

theorem fillFrom_data (requests : Nat) (piece : List UInt8) :
    fillFrom (requests + 1) (cons (.data piece) s) buffer filled =
      if piece = [] then some ⟨.ok filled, buffer, s⟩
      else
        fillFrom requests (left (piece.drop (buffer.length - filled)) s)
          (overwriteBytes buffer filled (piece.take (buffer.length - filled)))
          (filled + (piece.take (buffer.length - filled)).length) := by
  have hnone : (piece.take (buffer.length - filled)).isEmpty = true ↔ piece = [] := by
    rw [List.isEmpty_iff, List.take_eq_nil_iff, or_iff_right (by omega)]
  have hread : (cons (.data piece) s).read (buffer.length - filled) =
      (.data (piece.take (buffer.length - filled)), left (piece.drop (buffer.length - filled)) s) := rfl
  rw [fillFrom, if_neg (Nat.not_le.2 hroom), hread]
  simp only [hnone]
  split
  · next hnil =>
    subst hnil
    rw [List.drop_nil]
    rfl
  · rfl

theorem ends_interrupted_iff {outcome : Filled ε} :
    (cons .interrupted s).Ends buffer filled outcome ↔ s.Ends buffer filled outcome := by
  rw [ends_iff hroom]
  exact exists_congr fun requests => by rw [fillFrom_interrupted hroom]

/-- A piece might as well come byte by byte: what follows its first byte is there for the same request. -/
theorem ends_byte_iff {b : UInt8} {piece : List UInt8} {outcome : Filled ε} :
    (cons (.data (b :: piece)) s).Ends buffer filled outcome ↔
      (left piece s).Ends (overwriteBytes buffer filled [b]) (filled + 1) outcome := by
  have hlength : (overwriteBytes buffer filled [b]).length = buffer.length := length_overwriteBytes hroom
  obtain ⟨room, hsize⟩ : ∃ room, buffer.length - filled = room + 1 := ⟨buffer.length - filled - 1, by omega⟩
  have hloop : ∀ requests, fillFrom (requests + 1) (cons (.data (b :: piece)) s) buffer filled =
      fillFrom requests (left (piece.drop room) s)
        (overwriteBytes (overwriteBytes buffer filled [b]) (filled + 1) (piece.take room))
        (filled + 1 + (piece.take room).length) := by
    intro requests
    rw [fillFrom_data hroom, if_neg (List.cons_ne_nil b piece), hsize, List.drop_succ_cons, List.take_succ_cons,
      List.length_cons, overwriteBytes_cons hroom, Nat.add_assoc filled 1, Nat.add_comm 1]
  rw [ends_iff hroom]
  simp only [hloop]
  by_cases hpiece : piece = []
  · -- the byte is the whole piece
    subst hpiece
    rw [List.drop_nil, List.take_nil, overwriteBytes_nil]
    exact Iff.rfl
  by_cases hfull : room = 0
  · -- it fills the buffer
    subst hfull
    rw [List.drop_zero, List.take_zero, overwriteBytes_nil, List.length_nil, Nat.add_zero]
    exact Iff.rfl
  · -- the rest of the piece is asked for in the same request
    have hroom' : filled + 1 < (overwriteBytes buffer filled [b]).length := by omega
    rw [left_of_ne_nil hpiece, ends_iff hroom']
    refine exists_congr fun requests => ?_
    rw [fillFrom_data hroom', if_neg hpiece, hlength, show buffer.length - (filled + 1) = room by omega]

end Room

/-- The loop takes what it is given, as long as there is room for more. -/
theorem Gives.ends_iff (h : s.Gives bytes rest) (hroom : filled + bytes.length < buffer.length)
    {outcome : Filled ε} :
    s.Ends buffer filled outcome ↔
      rest.Ends (overwriteBytes buffer filled bytes) (filled + bytes.length) outcome := by
  induction h generalizing buffer filled with
  | nothing s =>
    rw [overwriteBytes_nil]
    exact Iff.rfl
  | interrupted _ ih =>
    rw [ends_interrupted_iff (by omega)]
    exact ih hroom
  | @byte s rest b piece bytes _ ih =>
    rw [List.length_cons] at hroom
    have hfirst : filled < buffer.length := by omega
    have hlength : (overwriteBytes buffer filled [b]).length = buffer.length := length_overwriteBytes hfirst
    rw [ends_byte_iff hfirst, ih (by omega), overwriteBytes_cons hfirst, List.length_cons, Nat.add_assoc,
      Nat.add_comm 1]

/-- Where it is given enough to fill the buffer it ends, and has taken no more than that. -/
theorem Gives.exists_ends (h : s.Gives bytes rest) (hfull : filled + bytes.length = buffer.length) :
    ∃ middle, s.Ends buffer filled ⟨.ok buffer.length, overwriteBytes buffer filled bytes, middle⟩ ∧
      s.Gives bytes middle ∧ middle.Gives [] rest := by
  induction h generalizing buffer filled with
  | nothing s =>
    obtain rfl : filled = buffer.length := hfull
    refine ⟨s, ⟨0, ?_⟩, .nothing s, .nothing s⟩
    rw [fillFrom_of_full (Nat.le_refl _), overwriteBytes_nil]
  | @interrupted s rest bytes h ih =>
    by_cases hroom : filled < buffer.length
    · obtain ⟨middle, hends, htaken, hleft⟩ := ih hfull
      exact ⟨middle, (ends_interrupted_iff hroom).2 hends, .interrupted htaken, hleft⟩
    · -- the buffer was full before, and no request is made
      obtain rfl : bytes = [] := List.length_eq_zero_iff.1 (by omega)
      obtain rfl : filled = buffer.length := hfull
      refine ⟨cons .interrupted s, ⟨0, ?_⟩, .nothing _, .interrupted h⟩
      rw [fillFrom_of_full (Nat.le_refl _), overwriteBytes_nil]
  | @byte s rest b piece bytes _ ih =>
    rw [List.length_cons] at hfull
    have hfirst : filled < buffer.length := by omega
    have hlength : (overwriteBytes buffer filled [b]).length = buffer.length := length_overwriteBytes hfirst
    obtain ⟨middle, hends, htaken, hleft⟩ := @ih (overwriteBytes buffer filled [b]) (filled + 1) (by omega)
    rw [hlength, overwriteBytes_cons hfirst] at hends
    exact ⟨middle, (ends_byte_iff hfirst).2 hends, .byte htaken, hleft⟩

end ByteSource

end Resample
