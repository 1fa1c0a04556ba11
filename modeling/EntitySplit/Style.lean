import EntitySplit.Text.Basic

namespace EntitySplit

/-- How a piece of text is set off on a terminal. -/
inductive Style where
  | bold
  | dim
  | red
  | green
  | redBold
  | yellowBold
  deriving DecidableEq, Repr

namespace Style

def codes : Style → List Text
  | bold => [['1']]
  | dim => [['2']]
  | red => [['3', '1']]
  | green => [['3', '2']]
  | redBold => [['3', '1'], ['1']]
  | yellowBold => [['3', '3'], ['1']]

def escape (code : Text) : Text :=
  '\x1b' :: '[' :: code ++ ['m']

/-- The text in a style, as it is if there is no color: escape sequences in
    front of the text and one after it. -/
def paint (style : Style) (color : Bool) (text : Text) : Text :=
  if color then style.codes.flatMap escape ++ text ++ escape ['0'] else text

end Style

end EntitySplit
