import CodeAtlas.Settings.Sections

namespace CodeAtlas

/-- The variable that an entry starts from, where there is one. -/
def Initial.variable? : Initial → Option String
  | .always _ => none
  | .text name _ => some name
  | .optionalText name => some name
  | .int name _ => some name
  | .float name _ => some name
  | .flag name _ => some name

/-- The variables of a section, in the order of its entries. -/
def Section.variableNames {σ : Type} (s : Section σ) : List String :=
  s.entries.filterMap fun e => e.initial.variable?

namespace Environment

/-- The variables that an embedding service looks at when it is made. -/
def embeddingNames : List String :=
  ["EMBEDDING_MODEL", "EMBEDDING_DEVICE", "EMBEDDING_BATCH_SIZE", "EMBEDDING_NORMALIZE"]

/-- All variables that have a say in what the program does. -/
def known : List String :=
  graphSection.variableNames ++ vectorSection.variableNames ++ funnelSection.variableNames ++
    ingestionSection.variableNames ++ completionSection.variableNames ++ embeddingSection.variableNames ++
    embeddingNames

end Environment

end CodeAtlas
