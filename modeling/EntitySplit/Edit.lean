import EntitySplit.Text.Span

namespace EntitySplit

/-- A text for the place of a span. -/
structure Edit where
  span : Span
  text : Text
  deriving DecidableEq, Repr

namespace Edit

/-- Puts the text in the place of the span. None if the span is none of the
    document. -/
def replace? (document : Text) (edit : Edit) : Option Text :=
  (edit.span.cut? document).map fun (before, _, after) => before ++ edit.text ++ after

/-- The edits in the order in which they are made: the later its start, the
    earlier an edit is made, and those with one start in the order given. -/
def lastFirst (edits : List Edit) : List Edit :=
  edits.mergeSort fun a b => b.span.start ≤ a.span.start

/-- Whether each edit keeps clear of the one made just before it, which stands
    after it in the document. -/
def keepClear (edits : List Edit) : Bool :=
  ((lastFirst edits).zip (lastFirst edits).tail).all fun (later, earlier) =>
    earlier.span.stop ≤ later.span.start

/-- Makes all edits, the last one in the document first. None if one of their
    spans is no span of the text at its turn. -/
def applyAll? (edits : List Edit) (document : Text) : Option Text :=
  (lastFirst edits).foldlM replace? document

end Edit

end EntitySplit
