/-!
# Reading in pieces

A source of bytes answers requests one after another. An answer may be shorter than the request, may
ask to be repeated, and may fail. What the source will do is given as a list of events; after the last
one it has ended.
-/

namespace Resample

/-- What a request for bytes meets. -/
inductive ReadEvent where
  /-- Bytes are there. A request takes no more of them than it asked for; none at all means the
  end. -/
  | data (bytes : List UInt8)
  /-- The request is to be repeated. -/
  | interrupted
  | failed
deriving DecidableEq, Repr

/-- What was read of a certain number of bytes. -/
structure Filling where
  bytes : List UInt8
  /-- What later requests meet. -/
  rest : List ReadEvent
  /-- Whether the source failed. -/
  failed : Bool
deriving DecidableEq, Repr

namespace ReadEvent

/-- Reads until there are `wanted` bytes, the source ends or it fails. -/
def fill (wanted : Nat) (events : List ReadEvent) : Filling :=
  if wanted = 0 then ⟨[], events, false⟩
  else
    match events with
    | [] => ⟨[], [], false⟩
    | interrupted :: rest => fill wanted rest
    | failed :: rest => ⟨[], rest, true⟩
    | data bytes :: rest =>
      if bytes.isEmpty then ⟨[], rest, false⟩
      else
        -- what is not asked for now is there for the next request
        let left := bytes.drop wanted
        if left.isEmpty then
          let more := fill (wanted - bytes.length) rest
          { more with bytes := bytes ++ more.bytes }
        else ⟨bytes.take wanted, data left :: rest, false⟩
termination_by structural events

/-- A buffer with the bytes that were read written over its start. -/
def refill (buffer bytes : List UInt8) : List UInt8 := bytes ++ buffer.drop bytes.length

/-- Bytes and events that are left. -/
def weight : ReadEvent → Nat
  | data bytes => bytes.length + 1
  | interrupted | failed => 1

/-- Bytes and events that are left in a list. -/
def totalWeight : List ReadEvent → Nat
  | [] => 0
  | event :: rest => event.weight + totalWeight rest

/-- Every byte that was read is no longer there. -/
theorem totalWeight_fill_le (wanted : Nat) (events : List ReadEvent) :
    (fill wanted events).bytes.length + totalWeight (fill wanted events).rest ≤
      totalWeight events := by
  induction events generalizing wanted with
  | nil =>
    unfold fill
    split <;> simp
  | cons event rest ih =>
    unfold fill
    split
    · simp
    · cases event with
      | interrupted =>
        have h := ih wanted
        simp only [totalWeight, weight] at h ⊢
        omega
      | failed => simp [totalWeight, weight]
      | data bytes =>
        simp only
        split
        · simp [totalWeight]
        · split
          · have h := ih (wanted - bytes.length)
            simp only [totalWeight, weight, List.length_append] at h ⊢
            omega
          · simp only [totalWeight, weight, List.length_take, List.length_drop]
            omega

end ReadEvent

end Resample
