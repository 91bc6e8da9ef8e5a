import CompanionFactory.File.Fault

/-!
# Sinks

Where the bytes of one file go.  A sink without a limit takes everything.  One with a limit
holds exactly that many bytes at most: a write that does not fit fills the sink and fails, and
every later write of at least one byte fails without changing it.
-/

namespace CompanionFactory

abbrev Bytes := List UInt8

namespace Bytes

/-- The UTF-8 encoding of a text. -/
def ofText (text : String) : Bytes :=
  text.toUTF8.data.toList

/-- The text with this UTF-8 encoding, when there is one. -/
def text? (bytes : Bytes) : Option String :=
  String.fromUTF8? ⟨bytes.toArray⟩

theorem ofText_append (s t : String) : ofText (s ++ t) = ofText s ++ ofText t := by
  simp [ofText, String.toUTF8, ByteArray.data_append]

theorem text?_ofText (text : String) : text? (ofText text) = some text := by
  simp [text?, ofText, String.toUTF8, String.fromUTF8?, String.fromUTF8, text.isValidUTF8]

end Bytes

/-- A place for the bytes of one file. -/
structure Sink where
  /-- How many bytes fit in all; no limit when absent. -/
  limit : Option Nat := none
  /-- Whether a full sink takes nothing silently instead of saying that it is full. -/
  stalls : Bool := false
  /-- Whether flushing fails. -/
  failsToFlush : Bool := false
  held : Bytes := []
  deriving DecidableEq, Repr

namespace Sink

/-- What a full sink answers to a write. -/
def overflow (s : Sink) : FileFault :=
  if s.stalls then .stalled else .full

/-- How many of the given number of bytes still fit. -/
def fitting (s : Sink) (count : Nat) : Nat :=
  match s.limit with
  | none => count
  | some limit => min count (limit - s.held.length)

/-- Write bytes, as many as fit. -/
def write (s : Sink) (bytes : Bytes) : Sink × Except FileFault Unit :=
  let count := s.fitting bytes.length
  ({ s with held := s.held ++ bytes.take count },
    if count = bytes.length then .ok () else .error s.overflow)

/-- Flush and give up the sink. -/
def close (s : Sink) : Except FileFault Unit :=
  if s.failsToFlush then .error .notFlushed else .ok ()

theorem write_of_limit_none {s : Sink} (h : s.limit = none) (bytes : Bytes) :
    s.write bytes = ({ s with held := s.held ++ bytes }, .ok ()) := by
  simp [write, fitting, h]

theorem write_nil (s : Sink) : s.write [] = (s, .ok ()) := by
  have h : s.fitting 0 = 0 := by
    cases hl : s.limit <;> simp [fitting, hl]
  simp [write, h]

theorem write_eq_ok_iff {s : Sink} {bytes : Bytes} :
    (s.write bytes).2 = .ok () ↔ s.fitting bytes.length = bytes.length := by
  simp [write]

/-- What fits completely can be written apart from what follows. -/
theorem write_append_of_ok {s : Sink} {first : Bytes} (h : (s.write first).2 = .ok ())
    (second : Bytes) : s.write (first ++ second) = (s.write first).1.write second := by
  rw [write_eq_ok_iff] at h
  cases hlimit : s.limit with
  | none => simp [write_of_limit_none, hlimit]
  | some limit =>
      simp only [fitting, hlimit] at h
      have hroom : first.length ≤ limit - s.held.length := by omega
      have hleft : limit - (s.held.length + first.length) =
          limit - s.held.length - first.length := by omega
      have hall : min (first.length + second.length) (limit - s.held.length) =
          first.length + min second.length (limit - s.held.length - first.length) := by omega
      simp [write, fitting, hlimit, h, hleft, hall, List.take_length_add_append, overflow]

/-- Nothing is written behind what does not fit. -/
theorem write_append_of_error {s : Sink} {first : Bytes} (h : (s.write first).2 ≠ .ok ())
    (second : Bytes) : s.write (first ++ second) = s.write first := by
  rw [ne_eq, write_eq_ok_iff] at h
  cases hlimit : s.limit with
  | none => simp [fitting, hlimit] at h
  | some limit =>
      simp only [fitting, hlimit] at h
      have hroom : limit - s.held.length < first.length := by omega
      have hfirst : min first.length (limit - s.held.length) = limit - s.held.length := by omega
      have hall : min (first.length + second.length) (limit - s.held.length) =
          limit - s.held.length := by omega
      have hne : limit - s.held.length ≠ first.length + second.length := by omega
      simp [write, fitting, hlimit, hfirst, hall, Nat.ne_of_lt hroom, hne,
        List.take_append_of_le_length (Nat.le_of_lt hroom)]

end Sink

end CompanionFactory
