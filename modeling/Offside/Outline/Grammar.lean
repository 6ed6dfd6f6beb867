import Offside.Outline.Forest
import Offside.Token
/-!
# The grammar of outlines

An outline is a row of lines, and a block of further lines may follow each of them, between an opening and a closing
marker.  A block may also stand at the very front, and another one directly inside a block; such a block has no line to
belong to, and its lines join those around it.  Line breaks may follow a line, and may stand at the very front.

The reader (`Reader`) keeps the blocks that are open.  Of each it knows the nodes that are finished, and the line read
last, as long as a block may still follow it.  These two say what may come next, and every reader can be led on to the
end of some outline, so the first token that it refuses is the first that no outline has there.
-/
namespace Offside
namespace Outline

/-- What a token is to the grammar. -/
inductive Symbol where
  | line
  | newline
  | indent
  | dedent
deriving DecidableEq, Repr

/-- The symbol of a token type, if it is one of the grammar's. -/
def Symbol.ofType? (type : TokenType) : Option Symbol :=
  if type = .name "LINE" then some .line
  else if type = .name "_NL" then some .newline
  else if type = .name "_INDENT" then some .indent
  else if type = .name "_DEDENT" then some .dedent
  else none

def endType : TokenType := .name "$END"

/-- A block being read: its finished nodes, the last first, and the line that a block may still follow. -/
structure Block where
  finished : List (Token × Forest Token)
  line : Option Token
deriving DecidableEq

namespace Block

def empty : Block :=
  ⟨[], none⟩

def isEmpty (b : Block) : Bool :=
  b.finished.isEmpty && b.line.isNone

/-- All nodes of the block, the last first, with nothing below its last line. -/
def nodes (b : Block) : List (Token × Forest Token) :=
  match b.line with
  | none => b.finished
  | some t => (t, .nil) :: b.finished

/-- The block behind one more line. -/
def addLine (b : Block) (t : Token) : Block :=
  ⟨b.nodes, some t⟩

/-- The block behind a block inside it: its nodes stand below the line read last, or, where there is none, beside the
nodes around them. -/
def addBlock (b : Block) (inner : Block) : Block :=
  match b.line with
  | none => ⟨inner.nodes ++ b.finished, none⟩
  | some t => ⟨(t, Forest.ofRoots inner.nodes.reverse) :: b.finished, none⟩

def forest (b : Block) : Forest Token :=
  Forest.ofRoots b.nodes.reverse

end Block

/-- The block being read, and those around it, the innermost first. -/
structure Reader where
  block : Block
  outer : List Block
deriving DecidableEq

namespace Reader

def start : Reader :=
  ⟨.empty, []⟩

/-- The reader behind one more token, if the token may stand there. -/
def step? (r : Reader) (t : Token) : Option Reader :=
  match Symbol.ofType? t.type with
  | none => none
  | some .line => some { r with block := r.block.addLine t }
  | some .newline => if r.block.line.isSome || (r.outer.isEmpty && r.block.isEmpty) then some r else none
  | some .indent => if r.block.line.isSome || r.block.isEmpty then some ⟨.empty, r.block :: r.outer⟩ else none
  | some .dedent =>
    match r.outer with
    | [] => none
    | around :: outer => if r.block.isEmpty then none else some ⟨around.addBlock r.block, outer⟩

/-- The outline read, if it may end here. -/
def finish? (r : Reader) : Option (Forest Token) :=
  if r.outer.isEmpty then some r.block.forest else none

/-- Reads tokens on; fails with the number of tokens in front of the first that may not stand where it does.  A token
of the end's own type is taken where the outline may end, and then whatever comes next, the end itself included, is one
end too many. -/
def feed (r : Reader) (index : Nat) : List Token → Except Nat Reader
  | [] => .ok r
  | t :: rest =>
    if t.type = endType then .error (if r.finish?.isSome then index + 1 else index)
    else match r.step? t with
      | none => .error index
      | some r => r.feed (index + 1) rest

end Reader

/-- The outline of some tokens; fails with the number of tokens in front of the first that may not stand where it does,
or with the number of all, if only the end comes too soon. -/
def parse (ts : List Token) : Except Nat (Forest Token) := do
  let r ← Reader.start.feed 0 ts
  match r.finish? with
  | some forest => .ok forest
  | none => .error ts.length

end Outline
end Offside
