import EntitySplit.Document
import EntitySplit.Header
import EntitySplit.Reference
import EntitySplit.Split.Options
import EntitySplit.Split.Warning
import EntitySplit.Split.Writes

namespace EntitySplit

namespace Split

/-- What a run over a document will do. Everything that can go wrong before a
    file is changed goes wrong while this is made. -/
structure Plan where
  document : Document
  outputDir : Path
  classes : List ConfigurationClass
  writes : List PlannedWrite
  warnings : List Text
  /-- The document without its blocks. -/
  newText : Text
  deriving DecidableEq, Repr

/-- Where classes go: to the folder asked for, made absolute, or else next to
    the document. -/
def outputDir (view : Files.View) (options : Options) (document : Document) : Except Failure Path :=
  match options.outputDir with
  | none => .ok document.folder
  | some path =>
    match path.absolute? view.workingPath with
    | some path => .ok path
    | none => .error (.read path .emptyPath)

/-- What the classes of a document have in common. -/
def contextFor (options : Options) (document : Document) : ConfigurationClass.Context :=
  let documentNamespace := Header.namespaceName document.text
  { settings := options.settings
    usings := Header.usings document.text
    documentNamespace
    classNamespace := options.namespaceName.getD documentNamespace
    lineEnding := Text.lineEnding document.text }

/-- The document with its blocks replaced. The edits for located blocks can
    always be made, so the document as it was is only what a function for any
    edits has to fall back on. -/
def replaceBlocks (settings : Settings) (document : Text) (blocks : List Block) : Text :=
  (Edit.applyAll? (Reference.edits settings (Text.lineEnding document) blocks) document).getD
    document

/-- Plans a run over a document; there is none for a document without blocks,
    and then nothing else can fail. -/
def plan (view : Files.View) (options : Options) (document : Document) :
    Except Failure (Option Plan) :=
  match Block.locate options.settings.receiver document.text with
  | [] => .ok none
  | blocks => do
    let folder ← outputDir view options document
    let outcome ← planBlocks view (contextFor options document) folder blocks
    return some { document, outputDir := folder, classes := outcome.classes,
                  writes := outcome.writes, warnings := balanceWarnings blocks,
                  newText := replaceBlocks options.settings document.text blocks }

/-- The entities' files that a plan looks into, one a block if classes are
    embedded. They have to be looked at before planning where the files are not
    at hand. -/
def entityFiles (view : Files.View) (options : Options) (document : Document) : List Path :=
  if options.settings.embed then
    match outputDir view options document with
    | .ok folder =>
      (Block.locate options.settings.receiver document.text).map
        (ConfigurationClass.entityPath options.settings folder)
    | .error _ => []
  else
    []

end Split

end EntitySplit
