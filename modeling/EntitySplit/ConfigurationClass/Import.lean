import EntitySplit.ConfigurationClass.Basic

namespace EntitySplit

namespace ConfigurationClass

/-- The directive for a namespace. -/
def usingFor (namespaceName : Text) : Text :=
  "using ".toList ++ namespaceName ++ [';']

/-- The directives that every class needs besides those of the document: the
    configured ones and one for the document's namespace. -/
def fixedUsings (context : Context) : List Text :=
  context.settings.extraUsings ++
    if context.documentNamespace.isEmpty then [] else [usingFor context.documentNamespace]

/-- Adds a directive to those that stand already, each but once. A class in the
    document's own namespace needs no directive for it. -/
def addUsing (context : Context) (usings : List Text) (directive : Text) : List Text :=
  if context.classNamespace = context.documentNamespace ∧
    directive = usingFor context.documentNamespace then
    usings
  else if directive ∈ usings then
    usings
  else
    usings ++ [directive]

/-- The directives of a file of its own. -/
def standaloneUsings (context : Context) : List Text :=
  (fixedUsings context).foldl (addUsing context) context.usings

end ConfigurationClass

end EntitySplit
