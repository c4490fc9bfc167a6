import CodeAtlas.Text.Quoted

namespace CodeAtlas

/-- A place in a settings file; both numbers count from zero. -/
structure Mark where
  line : Nat
  column : Nat
  deriving DecidableEq, Inhabited, Repr

/-- Why a settings file cannot be read: what was being read and where it began, what went wrong and
where. -/
structure DocumentFault where
  context : Option (String × Option Mark)
  problem : String
  mark : Option Mark
  deriving DecidableEq, Inhabited, Repr

/-- A value that the rules refuse. -/
inductive Invalid where
  | belowOne (field : String) (got : Value)
  | outsideUnit (field : String) (high : Nat) (got : Value)
  | negative (field : String) (got : Value)
  | notPositive (field : String) (got : Value)
  | emptyEndpoint
  | unknownSection (name : Value)
  | sectionNotMapping (name : String)
  | sectionKey (name : String) (reason : String)
  | fileNotMapping (path : String)
  | notMember (got : Value) (family : String)
  | notInteger (text : String)
  | notInBase (base : Nat) (text : String)
  | notOnCalendar (flaw : StampFlaw)
  | notNumber (text : String)
  | manyDigits (count : Nat)
  | nanAsInteger
  | zeroStep
  | placesOfText
  | noApiKey
  | noContent
  | notData
  deriving Inhabited, Repr

/-- A step that could not be completed. -/
inductive Failure where
  | graphClosed
  | notConnected
  | noGraph
  | noLoop
  | methodMissing (id : Value)
  | completionStatus (status text : Value)
  | completionMalformed
  | completionEmpty
  | analysisStatus (status : Value) (url : String) (text : Value)
  | analysisNotStarted
  | analysisUnknown (id : String)
  | analysisFailed (reason : Value)
  | analysisTimedOut (seconds : String)
  | modelNotLoaded (reason : String)
  deriving Inhabited, Repr

/-- An operation on a value of the wrong kind. -/
inductive Mismatch where
  | order (sign left right : String)
  | operands (sign left right : String)
  | notIterable (kind : String)
  | notContainer (kind : String)
  | notInText (kind : String)
  | notIntegral (kind : String)
  | notReal (kind : String)
  | notIndex (kind : String)
  | sliceBound
  | notIndexable (kind : String)
  | listIndex (kind : String)
  | textIndex (kind : String)
  | noLength (kind : String)
  | notKey (kind : String)
  | joinItem (position : Nat) (kind : String)
  | places (kind : String)
  | notPath (kind : String)
  | unexpectedKey (owner key : String)
  | missingKeys (owner : String) (keys : List String)
  | keyNotText
  deriving DecidableEq, Inhabited, Repr

/-- The kinds of errors that services report. -/
inductive Foreign where
  | runtime
  | value
  | connection
  | key
  | timeout
  | os
  | general
  | type
  deriving DecidableEq, Inhabited, Repr

/-- Everything that can end a step early. -/
inductive Fault where
  | invalid (why : Invalid)
  | failure (why : Failure)
  | mismatch (why : Mismatch)
  | noMember (kind member : String)
  | noKey (key : Value)
  | noIndex (kind : String)
  | overflow
  | document (source : String) (why : DocumentFault)
  | foreign (kind : Foreign) (message : Option String)
  | cancelled
  | interrupted
  deriving Inhabited, Repr

def Invalid.message : Invalid → String
  | .belowOne field got => field ++ " must be >= 1, got " ++ got.display
  | .outsideUnit field high got => field ++ " must be in [0, " ++ toString high ++ "], got " ++ got.display
  | .negative field got => field ++ " must be >= 0, got " ++ got.display
  | .notPositive field got => field ++ " must be > 0, got " ++ got.display
  | .emptyEndpoint => "ast_endpoint must not be empty"
  | .unknownSection name => "Unknown config section: " ++ name.display
  | .sectionNotMapping name => "Config section '" ++ name ++ "' must be a mapping"
  | .sectionKey name reason => "Invalid key in config section '" ++ name ++ "': " ++ reason
  | .fileNotMapping path => "Config file " ++ path ++ " must contain a mapping at top level"
  | .notMember got family => got.shown ++ " is not a valid " ++ family
  | .notInBase base text => "invalid literal for int() with base " ++ toString base ++ ": " ++ quoted text
  | .notOnCalendar flaw => flaw.message
  | .notInteger text => "invalid literal for int() with base 10: " ++ quoted text
  | .notNumber text => "could not convert string to float: " ++ quoted text
  | .manyDigits count =>
    "Exceeds the limit (4300 digits) for integer string conversion: value has " ++ toString count ++
      " digits; use sys.set_int_max_str_digits() to increase the limit"
  | .nanAsInteger => "cannot convert float NaN to integer"
  | .zeroStep => "range() arg 3 must not be zero"
  | .placesOfText => "Unknown format code 'f' for object of type 'str'"
  | .noApiKey => "OpenRouter API key not provided"
  | .noContent => "LLM response has no 'content'"
  | .notData => "LLM response is not JSON"

def Failure.message : Failure → String
  | .graphClosed => "Not connected to FalkorDB. Call connect() first."
  | .notConnected => "CodeKnowledgeGraph not connected. Call connect() first."
  | .noGraph => "EntityRegistry has no graph client to refresh from"
  | .noLoop => "no running event loop"
  | .methodMissing id => "Method node " ++ id.display ++ " not found while creating description"
  | .completionStatus status text => "OpenRouter API error: " ++ status.display ++ " - " ++ text.display
  | .completionMalformed => "Invalid response from OpenRouter API"
  | .completionEmpty => "OpenRouter response carries no message content"
  | .analysisStatus status url text =>
    "AST service error " ++ status.display ++ " on " ++ url ++ ": " ++ text.display
  | .analysisNotStarted => "Failed to start analysis - no analysis ID returned"
  | .analysisUnknown id => "Failed to get status for analysis ID: " ++ id
  | .analysisFailed reason => "Analysis failed: " ++ reason.display
  | .analysisTimedOut seconds => "Analysis timed out after " ++ seconds ++ " seconds"
  | .modelNotLoaded reason => "Failed to load embedding model: " ++ reason

def inTicks (s : String) : String := "'" ++ s ++ "'"

/-- Names in ticks, the last one after "and". -/
def enumerated : List String → String
  | [] => ""
  | [a] => inTicks a
  | [a, b] => inTicks a ++ " and " ++ inTicks b
  | a :: rest => inTicks a ++ ", " ++ enumeratedTail rest
where
  enumeratedTail : List String → String
    | [] => ""
    | [b] => "and " ++ inTicks b
    | b :: rest => inTicks b ++ ", " ++ enumeratedTail rest

def Mismatch.message : Mismatch → String
  | .order sign left right =>
    inTicks sign ++ " not supported between instances of " ++ inTicks left ++ " and " ++ inTicks right
  | .operands sign left right =>
    "unsupported operand type(s) for " ++ sign ++ ": " ++ inTicks left ++ " and " ++ inTicks right
  | .notIterable kind => inTicks kind ++ " object is not iterable"
  | .notContainer kind => "argument of type " ++ inTicks kind ++ " is not iterable"
  | .notInText kind => "'in <string>' requires string as left operand, not " ++ kind
  | .notIntegral kind =>
    "int() argument must be a string, a bytes-like object or a real number, not " ++ inTicks kind
  | .notReal kind => "float() argument must be a string or a real number, not " ++ inTicks kind
  | .notIndex kind => inTicks kind ++ " object cannot be interpreted as an integer"
  | .sliceBound => "slice indices must be integers or None or have an __index__ method"
  | .notIndexable kind => inTicks kind ++ " object is not subscriptable"
  | .listIndex kind => "list indices must be integers or slices, not " ++ kind
  | .textIndex kind => "string indices must be integers, not " ++ inTicks kind
  | .noLength kind => "object of type " ++ inTicks kind ++ " has no len()"
  | .notKey kind => "unhashable type: " ++ inTicks kind
  | .joinItem position kind =>
    "sequence item " ++ toString position ++ ": expected str instance, " ++ kind ++ " found"
  | .places kind => "unsupported format string passed to " ++ kind ++ ".__format__"
  | .notPath kind => "expected str, bytes or os.PathLike object, not " ++ kind
  | .unexpectedKey owner key => owner ++ ".__init__() got an unexpected keyword argument " ++ inTicks key
  | .missingKeys owner keys =>
    owner ++ ".__init__() missing " ++ toString keys.length ++ " required positional argument" ++
      (if keys.length = 1 then "" else "s") ++ ": " ++ enumerated keys
  | .keyNotText => "keywords must be strings"

def Mark.message (source : String) (m : Mark) : String :=
  "  in \"" ++ source ++ "\", line " ++ toString (m.line + 1) ++ ", column " ++ toString (m.column + 1)

/-- The context has a mark of its own only where it differs from the mark of the problem. -/
def DocumentFault.message (source : String) (f : DocumentFault) : String :=
  let context := match f.context with
    | none => []
    | some (text, none) => [text]
    | some (text, some m) => if f.mark = some m then [text] else [text, m.message source]
  let place := match f.mark with
    | none => []
    | some m => [m.message source]
  "\n".intercalate (context ++ [f.problem] ++ place)

/-- The text of a fault as messages quote it. -/
def Fault.message : Fault → String
  | .invalid why => why.message
  | .failure why => why.message
  | .mismatch why => why.message
  | .noMember kind member => inTicks kind ++ " object has no attribute " ++ inTicks member
  | .noKey key => key.shown
  | .noIndex kind => kind ++ " index out of range"
  | .overflow => "int too large to convert to float"
  | .document source why => why.message source
  | .foreign .key (some text) => quoted text
  | .foreign _ (some text) => text
  | .foreign _ none => ""
  | .cancelled => ""
  | .interrupted => ""

/-- Faults that a step may recover from; being cancelled or interrupted is not one of them. -/
def Fault.ordinary : Fault → Bool
  | .cancelled => false
  | .interrupted => false
  | _ => true

section

variable {α β : Type}

theorem exists_of_bind_ok {first : Except Fault α} {rest : α → Except Fault β} {b : β} (done : first >>= rest = .ok b) :
    ∃ a, first = .ok a ∧ rest a = .ok b := by
  cases first with
  | ok a => exact ⟨a, rfl, done⟩
  | error => cases done

theorem exists_of_map_ok {first : Except Fault α} {f : α → β} {b : β} (done : first.map f = .ok b) :
    ∃ a, first = .ok a ∧ f a = b := by
  cases first with
  | ok a => exact ⟨a, rfl, Except.ok.inj done⟩
  | error => cases done

end

end CodeAtlas
