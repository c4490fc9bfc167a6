import CodeAtlas.Routine
import CodeAtlas.Value.Access

namespace CodeAtlas

def completionUrl : String := "https://openrouter.ai/api/v1/chat/completions"

namespace CompletionService

/-- Opens a session unless one is open. -/
def openSession (n : Nat) : Routine Unit := do
  let service ← Routine.view (·.completion n)
  if service.session = .open then return
  Routine.query (.openSession service.settings.timeout)
  Routine.change (Memory.onCompletion n fun s => { s with session := .open })

/-- Closes the session, if one is open. -/
def close (n : Nat) : Routine Unit := do
  let service ← Routine.view (·.completion n)
  if service.session = .open then
    Routine.query .closeSession
    Routine.change (Memory.onCompletion n fun s => { s with session := .closed })

def message (role : String) (content : Value) : Value :=
  .record [("role", .str role), ("content", content)]

/-- The body of a request; an empty system text is left out. -/
def requestBody (s : CompletionSettings) (prompt system : Value) : Value :=
  let messages := (if system.truthy then [message "system" system] else []) ++ [message "user" prompt]
  .record [("model", s.model), ("messages", .list messages), ("temperature", s.temperature),
    ("max_tokens", s.maxTokens)]

def requestHeaders (s : CompletionSettings) : Value :=
  .record [("Authorization", .str ("Bearer " ++ s.apiKey.display)), ("Content-Type", .str "application/json"),
    ("X-Title", .str "ASTKG")]

/-- The first item of a list of choices. -/
def firstChoice : Value → Except Fault Value
  | .list items => match items with
    | v :: _ => .ok v
    | [] => .error (.noIndex "list")
  | .str s => match s.toList with
    | c :: _ => .ok (.str (String.singleton c))
    | [] => .error (.noIndex "string")
  | .dict _ => .error (.noKey (.int 0))
  | v => .error (.mismatch (.notIndexable v.kind))

/-- The completion in a response, and the usage that it reports. -/
def readResponse (data : Value) : Except Fault (Value × List (String × Value)) := do
  if !(← data.has "choices") then throw (.failure .completionMalformed)
  let choices ← data.entry "choices"
  if !choices.truthy then throw (.failure .completionMalformed)
  let choice ← firstChoice choices
  let content ← (← choice.getD "message" (.dict [])).get "content"
  if content.isNull then throw (.failure .completionEmpty)
  let usage ← data.getD "usage" (.dict [])
  let count (key : String) : Except Fault (String × Value) := do return (key, ← usage.getD key (.int 0))
  return (content, [← count "total_tokens", ← count "prompt_tokens", ← count "completion_tokens"])

/-- Completes a prompt. The usage is kept as soon as it is known; a completion without a length is
refused after that. -/
def generate (n : Nat) (prompt system : Value) : Routine Value := do
  let service ← Routine.view (·.completion n)
  if !service.settings.apiKey.truthy then Routine.fail (.invalid .noApiKey)
  else
    openSession n
    let reply ← Routine.query
      (.requestCompletion completionUrl (requestBody service.settings prompt system)
        (requestHeaders service.settings))
    if !reply.status.same (.int 200) then
      Routine.fail (.failure (.completionStatus reply.status reply.text))
    else
      let data ← reply.body
      let (completion, usage) ← readResponse data
      Routine.change (Memory.onCompletion n fun s => { s with usage })
      let _ ← completion.length
      return completion

end CompletionService

/-- Asks for the completion of a prompt. -/
def CompletionSource.complete (source : CompletionSource) (prompt : String) (system : Option String) :
    Routine Value :=
  match source with
  | .service n => CompletionService.generate n (.str prompt) (Value.ofText? system)
  | .outside => Routine.query (.complete prompt system)

end CodeAtlas
