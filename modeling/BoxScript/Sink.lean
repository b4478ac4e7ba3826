/-!
# Output

Where a program prints. A sink keeps the text written to it. It may have a limit on the number of
lines: once it holds that many line ends, it refuses every text that is not empty.
-/

set_option autoImplicit false

namespace BoxScript

structure Sink where
  text : String
  limit : Option Nat
  deriving Repr, DecidableEq

namespace Sink

def unlimited : Sink := ⟨"", none⟩

/-- The number of line ends in the text. -/
def lineCount (sink : Sink) : Nat := sink.text.toList.count '\n'

def isFull (sink : Sink) : Bool :=
  match sink.limit with
  | none => false
  | some limit => limit ≤ sink.lineCount

/-- Why a sink refuses a text. -/
def refusal : String := "sink full"

/-- Writes a piece of text. The answer tells whether the sink took it. -/
def write (sink : Sink) (piece : String) : Bool × Sink :=
  if piece.isEmpty then (true, sink)
  else if sink.isFull then (false, sink)
  else (true, { sink with text := sink.text ++ piece })

end Sink

end BoxScript
