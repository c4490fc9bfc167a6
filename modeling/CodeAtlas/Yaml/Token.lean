import CodeAtlas.Yaml.Cursor

namespace CodeAtlas

/-- What a line that starts with a percent sign says about a document. -/
inductive Directive where
  | version (major minor : Nat)
  | tagPrefix (handle text : String)
  | other
  deriving DecidableEq, Inhabited, Repr

/-- The sorts of tokens of a document. -/
inductive TokenSort where
  | directive (d : Directive)
  | documentStart
  | documentEnd
  | streamEnd
  | blockSequenceStart
  | blockMappingStart
  | blockEnd
  | flowSequenceStart
  | flowMappingStart
  | flowSequenceEnd
  | flowMappingEnd
  | key
  | value
  | blockEntry
  | flowEntry
  | alias (name : String)
  | anchor (name : String)
  | tag (handle : Option String) (suffix : String)
  | scalar (text : String) (plain : Bool)
  deriving DecidableEq, Inhabited, Repr

/-- A token as messages name it. -/
def TokenSort.label : TokenSort → String
  | .directive _ => "<directive>"
  | .documentStart => "<document start>"
  | .documentEnd => "<document end>"
  | .streamEnd => "<stream end>"
  | .blockSequenceStart => "<block sequence start>"
  | .blockMappingStart => "<block mapping start>"
  | .blockEnd => "<block end>"
  | .flowSequenceStart => "["
  | .flowMappingStart => "\x7b"
  | .flowSequenceEnd => "]"
  | .flowMappingEnd => "\x7d"
  | .key => "?"
  | .value => ":"
  | .blockEntry => "-"
  | .flowEntry => ","
  | .alias _ => "<alias>"
  | .anchor _ => "<anchor>"
  | .tag .. => "<tag>"
  | .scalar .. => "<scalar>"

structure Token where
  sort : TokenSort
  start : Mark
  stop : Mark
  deriving DecidableEq, Inhabited, Repr

/-- The tokens of a document; a fault in its text ends them. -/
structure TokenStream where
  tokens : List Token
  fault : Option DocumentFault
  deriving Inhabited

end CodeAtlas
