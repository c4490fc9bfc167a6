import CodeAtlas.Routine
import CodeAtlas.Text.Capital
import CodeAtlas.Value.Access

namespace CodeAtlas

/-- Pauses for a time given as a value, which has to be a number. -/
def Routine.pauseFor (seconds : Value) : Routine Unit := do
  let _ ← Value.compare .atMost seconds (.int 0)
  Routine.request (.pause (← seconds.toFloat))

/-- Sends a request and reads its body as data; any status but 200 is a failure. -/
def requestData (verb url : String) (body : Value) : Routine Value := do
  let reply ← Routine.query (.requestAnalysis verb url body)
  if !reply.status.same (.int 200) then Routine.fail (.failure (.analysisStatus reply.status url reply.text))
  else Routine.ofExcept reply.body

/-- What stands in the envelope of a body; nothing in an empty body. -/
def envelope (body : Value) : Except Fault Value :=
  if body.truthy then body.get "data" else .ok .null

/-- Starts an analysis and gives its identifier. -/
def startAnalysis (endpoint : String) : Routine String := do
  let body ← requestData "POST" (endpoint ++ "/analyze") (.dict [])
  let data ← envelope body
  if !data.truthy then Routine.fail (.failure .analysisNotStarted)
  else if !(← data.has "analysisId") then Routine.fail (.failure .analysisNotStarted)
  else return (← data.entry "analysisId").display

/-- What a status says about an analysis. -/
inductive Progress where
  | completed
  | failed
  | running
  deriving DecidableEq, Inhabited, Repr

/-- The words for a status, in letters of any case. -/
def Progress.ofStatus (status : Value) : Progress :=
  let word := capitals status.display
  if word = "COMPLETED" ∨ word = "SUCCESS" then .completed
  else if word = "FAILED" ∨ word = "ERROR" then .failed
  else .running

/-- Asks for the status up to so many times, with a pause after each answer that is not final. -/
def awaitAnalysis (settings : PollingSettings) (endpoint id : String) : Nat → Routine Unit
  | 0 => do
    let waited ← Value.times settings.maxPolls settings.pollInterval
    Routine.fail (.failure (.analysisTimedOut (← waited.fixed 0)))
  | left + 1 => do
    let body ← requestData "GET" (endpoint ++ "/status/" ++ id) .null
    let data ← envelope body
    if data.isNull then Routine.fail (.failure (.analysisUnknown id))
    else
      match Progress.ofStatus (← data.getD "status" (.str "")) with
      | .completed => return
      | .failed => Routine.fail (.failure (.analysisFailed (← data.getD "error" (.str "Unknown error"))))
      | .running =>
        Routine.pauseFor settings.pollInterval
        awaitAnalysis settings endpoint id left

/-- Runs an analysis in an open session and gives what its result holds. -/
def analyseCode (settings : PollingSettings) (endpoint : String) : Routine Value := do
  let id ← startAnalysis endpoint
  let polls ← settings.maxPolls.toIndex
  awaitAnalysis settings endpoint id polls.toNat
  let body ← requestData "GET" (endpoint ++ "/results/" ++ id) .null
  envelope body

/-- The snapshot of the code base behind an address; nothing when the analysis holds no data. The
session is closed in any case. -/
def fetchSnapshot (settings : PollingSettings) (endpoint : Value) : Routine (Option Snapshot) := do
  let address := stripRight '/' (← endpoint.text "rstrip")
  Routine.query (.openSession settings.requestTimeout)
  let data ← Routine.ensuring (analyseCode settings address) (Routine.query .closeSession)
  if data.isNull then return none
  return some (← Snapshot.ofValue data)

end CodeAtlas
