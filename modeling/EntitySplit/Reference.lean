import EntitySplit.ConfigurationClass.Basic
import EntitySplit.Edit

namespace EntitySplit

namespace Reference

/-- The statement that applies the class of a block, without its indentation. -/
def statement (settings : Settings) (block : Block) : Text :=
  settings.receiver ++ ".ApplyConfiguration(new ".toList ++
    ConfigurationClass.nameFor settings block ++
    "());".toList

/-- The edits that take the blocks out of the document, one a block and in
    their order. What a block gives way to begins with its call site, which its
    removal takes away; where nothing is put in its place, the line is gone. -/
def edits (settings : Settings) (lineEnding : Text) (blocks : List Block) : List Edit :=
  match settings.referenceMode, blocks with
  | .inPlace, blocks =>
    blocks.map fun block => ⟨block.removal, block.callSite ++ statement settings block⟩
  | .none, blocks => blocks.map fun block => ⟨block.removal, []⟩
  | .aggregate, [] => []
  | .aggregate, first :: rest =>
    ⟨first.removal, first.callSite ++
      (lineEnding ++ first.indent).intercalate ((first :: rest).map (statement settings))⟩ ::
    rest.map fun block => ⟨block.removal, []⟩

end Reference

end EntitySplit
