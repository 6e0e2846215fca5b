/-!
# Source locations

A `Span` is a half-open range of byte offsets into a source text. Offsets are kept within 32
bits: `ofRange` and `shift` stop at `Span.limit`, and `ofRange?` refuses what does not fit and
says which end was too large.
-/

namespace DialectScript

/-- A half-open range of byte offsets into a source text. -/
structure Span where
  start : Nat
  stop : Nat
deriving DecidableEq, Inhabited

namespace Span

/-- The largest offset a span records. -/
def limit : Nat := 4294967295

/-- The offset itself, or the limit where the offset lies beyond it. -/
def clamp (offset : Nat) : Nat :=
  if offset ≤ limit then offset else limit

/-- The span of a byte range, each end stopped at the limit. -/
def ofRange (start stop : Nat) : Span :=
  ⟨clamp start, clamp stop⟩

/-- Why a byte range is no span. -/
inductive RangeError where
  | startTooLarge (offset : Nat)
  | stopTooLarge (offset : Nat)
deriving DecidableEq

/-- The wording of a range error. -/
def RangeError.message : RangeError → String
  | .startTooLarge offset => s!"span start {offset} exceeds u32::MAX"
  | .stopTooLarge offset => s!"span end {offset} exceeds u32::MAX"

/-- The span of a byte range that fits; the start is looked at first. -/
def ofRange? (start stop : Nat) : Except RangeError Span :=
  if limit < start then .error (.startTooLarge start)
  else if limit < stop then .error (.stopTooLarge stop)
  else .ok ⟨start, stop⟩

/-- The empty span at an offset. -/
def point (offset : Nat) : Span := ⟨offset, offset⟩

/-- The number of bytes covered. -/
def length (s : Span) : Nat := s.stop - s.start

/-- Whether the two ends meet. -/
def isEmpty (s : Span) : Bool := s.start == s.stop

/-- The smallest span that covers both. -/
def merge (s t : Span) : Span :=
  ⟨if s.start ≤ t.start then s.start else t.start, if s.stop ≤ t.stop then t.stop else s.stop⟩

/-- The span moved right, each end stopped at the limit. -/
def shift (s : Span) (delta : Nat) : Span :=
  ⟨clamp (s.start + delta), clamp (s.stop + delta)⟩

/-- The written form, `start..stop`. -/
def text (s : Span) : String := s!"{s.start}..{s.stop}"

/-! ## Offsets within the limit -/

theorem clamp_eq_self {offset : Nat} (h : offset ≤ limit) : clamp offset = offset := by
  simp [clamp, h]

theorem ofRange_eq_mk {start stop : Nat} (h : start ≤ limit) (h' : stop ≤ limit) :
    ofRange start stop = ⟨start, stop⟩ := by
  simp [ofRange, clamp_eq_self h, clamp_eq_self h']

end Span

end DialectScript
