import Resample.Raw.Reading

/-!
# What a source delivers

A source that does not fail before it ends delivers certain bytes, in pieces of any size and with any number
of interruptions between them. A request is filled with the first of these bytes, as far as there are any, and
the source delivers the others afterwards. So a run of requests takes the bytes apart one after another, and
the pieces in which they came leave no trace.
-/

namespace Resample.ReadEvent

/-- The events deliver exactly these bytes, and then the source ends without having failed. -/
inductive Delivers : List ReadEvent → List UInt8 → Prop where
  /-- After the last event the source has ended. -/
  | nil : Delivers [] []
  /-- An answer of no bytes is the end, whatever would come after it. -/
  | ended (rest : List ReadEvent) : Delivers (data [] :: rest) []
  | data {piece bytes : List UInt8} {rest : List ReadEvent} (hpiece : piece ≠ [])
      (hrest : Delivers rest bytes) : Delivers (data piece :: rest) (piece ++ bytes)
  | interrupted {bytes : List UInt8} {rest : List ReadEvent} (hrest : Delivers rest bytes) :
      Delivers (interrupted :: rest) bytes

/-- A request has taken the first bytes that a source delivers, as many as were wanted and there were. If
there were as many, the source delivers the bytes that follow them. -/
structure Takes (wanted : Nat) (bytes : List UInt8) (filling : Filling) : Prop where
  bytes_eq : filling.bytes = bytes.take wanted
  not_failed : filling.failed = false
  rest : wanted ≤ bytes.length → Delivers filling.rest (bytes.drop wanted)

namespace Delivers

variable {events : List ReadEvent} {bytes : List UInt8}

/-- A request for no bytes asks nothing of the source. -/
theorem takes_zero (h : Delivers events bytes) : Takes 0 bytes (fill 0 events) := by
  unfold fill
  rw [if_pos rfl]
  exact ⟨rfl, rfl, fun _ => h⟩

/-- A request is filled with the first bytes that the source delivers. -/
theorem takes_fill (h : Delivers events bytes) (wanted : Nat) : Takes wanted bytes (fill wanted events) := by
  induction h generalizing wanted with
  | nil =>
    by_cases hwanted : wanted = 0
    · exact hwanted ▸ Delivers.nil.takes_zero
    unfold fill
    rw [if_neg hwanted]
    exact ⟨List.take_nil.symm, rfl, fun hle => absurd (Nat.eq_zero_of_le_zero hle) hwanted⟩
  | ended rest =>
    by_cases hwanted : wanted = 0
    · exact hwanted ▸ (Delivers.ended rest).takes_zero
    unfold fill
    rw [if_neg hwanted]
    exact ⟨List.take_nil.symm, rfl, fun hle => absurd (Nat.eq_zero_of_le_zero hle) hwanted⟩
  | interrupted hrest ih =>
    by_cases hwanted : wanted = 0
    · exact hwanted ▸ (Delivers.interrupted hrest).takes_zero
    -- the request is made again, of what comes after the interruption
    unfold fill
    rw [if_neg hwanted]
    exact ih wanted
  | @data piece bytes rest hpiece hrest ih =>
    by_cases hwanted : wanted = 0
    · exact hwanted ▸ (Delivers.data hpiece hrest).takes_zero
    unfold fill
    rw [if_neg hwanted]
    simp only [List.isEmpty_iff, if_neg hpiece, List.drop_eq_nil_iff]
    by_cases hshort : piece.length ≤ wanted
    · -- the whole piece is taken, and the request goes on with what is missing
      have hmore := ih (wanted - piece.length)
      rw [if_pos hshort]
      refine ⟨?_, hmore.not_failed, fun hle => ?_⟩
      · rw [List.take_append, List.take_of_length_le hshort, ← hmore.bytes_eq]
      · rw [List.length_append] at hle
        rw [List.drop_append, List.drop_eq_nil_iff.2 hshort, List.nil_append]
        exact hmore.rest (by omega)
    · -- the request ends within the piece, and the source still has the rest of it
      have hleft : piece.drop wanted ≠ [] := mt List.drop_eq_nil_iff.1 hshort
      rw [if_neg hshort]
      refine ⟨?_, rfl, fun _ => ?_⟩
      · rw [List.take_append_of_le_length (by omega)]
      · rw [List.drop_append_of_le_length (by omega)]
        exact .data hleft hrest

end Delivers

end Resample.ReadEvent
