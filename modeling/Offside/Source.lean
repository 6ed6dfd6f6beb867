import Offside.Fault
/-!
# Token sources

What a stream asks for its tokens, written down as the list of its replies.  A reply is a token, a gap (no token this
time, though more may follow), the end, or a fault, after which the source goes on.  A source with no reply left is at
its end.
-/
namespace Offside

/-- One reply of a token source. -/
inductive Reply where
  | token (t : Token)
  | gap
  | done
  | fault (f : Fault)
deriving DecidableEq, Repr

/-- A token source: its replies to come. -/
abbrev Source := List Reply

def Source.ofTokens (ts : List Token) : Source :=
  ts.map .token

end Offside
