import EntitySplit.Block.Dissection
import EntitySplit.Text.Span

namespace EntitySplit

/-- A block of a document with the place where it stands. What is before its
    statement on the line belongs to the call site only if it is indentation. -/
structure Block where
  /-- From the receiver through the `;`. -/
  outer : Span
  /-- `outer` together with the call site, so that taking it out takes out the
      whole line. -/
  removal : Span
  /-- The line break and indentation before the statement. -/
  callSite : Text
  content : Block.Content
  deriving DecidableEq, Repr

namespace Block

/-- The indentation of the call site. -/
def indent (block : Block) : Text :=
  block.callSite.dropWhile fun c => c = '\r' || c = '\n'

/-- The blocks of excerpts of which the first begins at `position`. The places
    are the sizes of the pieces before them, so they are places where the
    document can be cut. -/
def ofExcerpts (position : Nat) : List Excerpt → List Block
  | [] => []
  | excerpt :: rest =>
    let removal := position + excerpt.lead.size
    let start := removal + excerpt.callSite.size
    let stop := start + excerpt.statement.size
    { outer := ⟨start, stop⟩, removal := ⟨removal, stop⟩, callSite := excerpt.callSite,
      content := excerpt.content } :: ofExcerpts stop rest

/-- The blocks of a document in their order, with their places counted from its
    beginning. -/
def locate (receiver document : Text) : List Block :=
  ofExcerpts 0 (dissect receiver document).excerpts

end Block

end EntitySplit
