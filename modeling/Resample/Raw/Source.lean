import Resample.Raw.Reading

/-!
# Sources that answer without end

A source of bytes is asked again and again, and it always answers: with some of the bytes that it was asked for,
with no bytes once it has ended, with the wish to be asked again, or with an error. A buffer is filled by a loop
of requests, each of which asks for what is still missing.

Nothing bounds the number of requests: a source that only ever wishes to be asked again is asked forever. So the
loop is run for a number of requests, and gives nothing if it has not ended by then.
-/

namespace Resample

/-- What a request for bytes is answered with. -/
inductive Answer (ε : Type) where
  /-- Some of the bytes that were asked for; none at all means that the source has ended. -/
  | data (bytes : List UInt8)
  /-- The request is to be repeated. -/
  | interrupted
  | failed (error : ε)

/-- A source of bytes, given by what it has for one request after another. -/
structure ByteSource (ε : Type) where
  answer : Nat → Answer ε

/-- How the filling of a buffer ended. -/
structure Filled (ε : Type) where
  /-- Number of bytes in the buffer, or the error. -/
  result : Except ε Nat
  buffer : List UInt8
  /-- What later requests meet. -/
  rest : ByteSource ε

/-- A buffer with bytes written over it from a place on. -/
def overwriteBytes (buffer : List UInt8) (place : Nat) (bytes : List UInt8) : List UInt8 :=
  buffer.take place ++ bytes ++ buffer.drop (place + bytes.length)

namespace ByteSource

variable {ε : Type}

/-- What the next request is answered with, unless it asks for less. -/
def head (s : ByteSource ε) : Answer ε := s.answer 0

/-- The source after one answer. -/
def tail (s : ByteSource ε) : ByteSource ε := ⟨fun n => s.answer (n + 1)⟩

/-- The source with one more answer in front. -/
def cons (a : Answer ε) (s : ByteSource ε) : ByteSource ε :=
  ⟨fun
    | 0 => a
    | n + 1 => s.answer n⟩

/-- The source that has one answer for all requests. -/
def const (a : Answer ε) : ByteSource ε := ⟨fun _ => a⟩

/-- The source with what is left of an answer in front, if anything is. -/
def left (piece : List UInt8) (s : ByteSource ε) : ByteSource ε :=
  if piece.isEmpty then s else cons (.data piece) s

/-- Asks for at most `wanted` bytes. What the answer has beyond them is there for the next request. -/
def read (s : ByteSource ε) (wanted : Nat) : Answer ε × ByteSource ε :=
  match s.head with
  | .data piece => (.data (piece.take wanted), left (piece.drop wanted) s.tail)
  | .interrupted => (.interrupted, s.tail)
  | .failed e => (.failed e, s.tail)

/-- Reads until a buffer that has `filled` bytes already is full, the source ends or it fails, but makes no more
than the given number of requests. -/
def fillFrom (requests : Nat) (s : ByteSource ε) (buffer : List UInt8) (filled : Nat) : Option (Filled ε) :=
  if buffer.length ≤ filled then some ⟨.ok filled, buffer, s⟩
  else
    match requests with
    | 0 => none
    | requests + 1 =>
      match s.read (buffer.length - filled) with
      | (.interrupted, rest) => fillFrom requests rest buffer filled
      | (.failed e, rest) => some ⟨.error e, buffer, rest⟩
      | (.data piece, rest) =>
        if piece.isEmpty then some ⟨.ok filled, buffer, rest⟩
        else fillFrom requests rest (overwriteBytes buffer filled piece) (filled + piece.length)

/-- Fills a buffer from its start. -/
def fill (requests : Nat) (s : ByteSource ε) (buffer : List UInt8) : Option (Filled ε) :=
  fillFrom requests s buffer 0

/-- Fills buffers one after another, with the given number of requests for each. -/
def fillEach (requests : Nat) (s : ByteSource ε) : List (List UInt8) → Option (List (Filled ε))
  | [] => some []
  | buffer :: others => do
    let first ← s.fill requests buffer
    return first :: (← first.rest.fillEach requests others)

/-- The source of a list of events; after the last one it has ended. -/
def ofEvents : List ReadEvent → ByteSource Unit
  | [] => const (.data [])
  | .data bytes :: rest => cons (.data bytes) (ofEvents rest)
  | .interrupted :: rest => cons .interrupted (ofEvents rest)
  | .failed :: rest => cons (.failed ()) (ofEvents rest)

end ByteSource

end Resample
