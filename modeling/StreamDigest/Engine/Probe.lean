import StreamDigest.Engine.Stream

/-!
# A backend that computes nothing

The probe has the block and buffer lengths of an algorithm but no chaining
value: its state is the digest length alone, and every digest is filled with
`0xa5`. It shows how the engine schedules calls, for any limit on the input.
-/

namespace StreamDigest.Probe

/-- The digest length that the probe refuses. -/
def refusedLen : Nat := 99

def backend (algorithm : Algorithm) (lanes : LaneWidth) (maxInput : Nat) : Backend Nat Nat where
  algorithm
  lanes
  maxInput
  init len := if len = refusedLen then .error (.custom "recorder refuses 99") else .ok len
  digestLen := id
  interior s _ _ := s
  final s _ _ := s
  extract _ out := out.map fun _ => 0xa5
  extractsTo _ := true
  wiped := 0

end StreamDigest.Probe
