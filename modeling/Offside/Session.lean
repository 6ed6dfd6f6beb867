import Offside.Stream.Steps
/-!
# Streams over streams

A session holds any number of streams of one configuration.  The source of each is a list of replies of its own or an
earlier stream of the session, which may be asked directly too, and may be the source of several others.  Whoever asks
it moves it on for all.

What a stream replies up to its first reply that is no token depends on its source, and that one's replies on its own
source in turn (`Session.replies`).  Sources are always earlier streams, so this ends.
-/
namespace Offside

/-- Where a stream of a session takes its tokens from. -/
inductive Feed where
  | own (source : Source)
  | stream (index : Nat)
deriving DecidableEq, Repr

/-- A configuration, and the streams made with it, the first at the front. -/
structure Session where
  config : Config
  streams : List (Stream × Feed)

namespace Session

def make (s : Session) (feed : Feed) : Session :=
  { s with streams := s.streams ++ [(.ofConfig s.config, feed)] }

def put (s : Session) (index : Nat) (stream : Stream) (feed : Feed) : Session :=
  { s with streams := s.streams.set index (stream, feed) }

/-- What a stream replies until it gives no token, each reply with the session after it. -/
def replies (s : Session) (index : Nat) : List (Reply × Session) :=
  match s.streams[index]? with
  | none => []
  | some (stream, .own source) =>
    (stream.steps source).map (fun step => (step.reply, s.put index step.stream (.own step.rest)))
  | some (stream, .stream below) =>
    if below < index then
      let source := s.replies below
      (stream.steps (source.map Prod.fst)).map (fun step =>
        -- the session in which the replies taken from the source are gone
        let after := (source.take (source.length - step.rest.length)).getLast?.elim s Prod.snd
        (step.reply, after.put index step.stream (.stream below)))
    else []
termination_by index

def next (s : Session) (index : Nat) : Reply × Session :=
  (s.replies index).head?.getD (.done, s)

def drain (s : Session) (index : Nat) : List Token × Option Fault × Session :=
  let rs := s.replies index
  (rs.filterMap (fun r => r.1.token?), rs.getLast?.bind (fun r => r.1.fault?), rs.getLast?.elim s Prod.snd)

/-- How many levels a stream has open, and its indent unit. -/
def levels (s : Session) (index : Nat) : Nat × Datum :=
  s.streams[index]?.elim (0, .int 0) (fun p => (p.1.levels.depth, p.1.levels.unit))

end Session
end Offside
