import EntitySplit.Block.Locate

namespace EntitySplit

namespace Split

/-- A number with its sign, also where it is a plus. -/
def signed (number : Int) : Text :=
  (if number < 0 then '-' else '+') :: Nat.toDigits 10 number.natAbs

/-- The warning about a block, if the braces of its body do not balance. That
    would be a sign that the block was cut in the wrong place. -/
def balanceWarning? (block : Block) : Option Text :=
  let balance := Lexical.braceBalance block.content.statements
  if balance = 0 then
    none
  else
    some ("Unbalanced braces (".toList ++ signed balance ++ ") in the body of Entity<".toList ++
      block.content.typeName ++ "> at byte ".toList ++ Nat.toDigits 10 block.outer.start)

/-- The warnings about the blocks of a document, in their order. -/
def balanceWarnings (blocks : List Block) : List Text :=
  blocks.filterMap balanceWarning?

end Split

end EntitySplit
