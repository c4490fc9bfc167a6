import CodeAtlas.Agenda.Basic
import CodeAtlas.Agenda.Control
import CodeAtlas.Agenda.Permit
import CodeAtlas.Agenda.Run
import CodeAtlas.Agenda.Stop
import CodeAtlas.Analyzer
import CodeAtlas.Answer
import CodeAtlas.Ask
import CodeAtlas.Calendar
import CodeAtlas.Command
import CodeAtlas.Command.Arguments
import CodeAtlas.Completion
import CodeAtlas.Decimal.Binary
import CodeAtlas.Decimal.Layout
import CodeAtlas.Decimal.Ratio
import CodeAtlas.Decimal.Shortest
import CodeAtlas.Digest.NameId
import CodeAtlas.Digest.Sha1
import CodeAtlas.Embedding
import CodeAtlas.Enrichment
import CodeAtlas.Entity
import CodeAtlas.Entity.Fields
import CodeAtlas.Facade
import CodeAtlas.Fault
import CodeAtlas.FileTree
import CodeAtlas.Graph.Build
import CodeAtlas.Graph.Client
import CodeAtlas.Graph.Statement
import CodeAtlas.Ingestion
import CodeAtlas.Job
import CodeAtlas.Json.Read
import CodeAtlas.Json.Write
import CodeAtlas.Listing
import CodeAtlas.Magnitude
import CodeAtlas.Memory
import CodeAtlas.Offline
import CodeAtlas.Path
import CodeAtlas.Polling
import CodeAtlas.Proofs.Ingestion.Course
import CodeAtlas.Proofs.Ingestion.Flight
import CodeAtlas.Proofs.Ingestion.Orderly
import CodeAtlas.Proofs.Ingestion.Rules
import CodeAtlas.Proofs.Turns.Basic
import CodeAtlas.Proofs.Turns.Guarded
import CodeAtlas.Ranking
import CodeAtlas.Registry
import CodeAtlas.Routine
import CodeAtlas.Script
import CodeAtlas.Settings
import CodeAtlas.Settings.Deployment
import CodeAtlas.Settings.Document
import CodeAtlas.Settings.Section
import CodeAtlas.Settings.Sections
import CodeAtlas.Settings.Variables
import CodeAtlas.Similarity
import CodeAtlas.Snapshot
import CodeAtlas.Snapshot.Fields
import CodeAtlas.Text.Blank
import CodeAtlas.Text.Capital
import CodeAtlas.Text.Digit
import CodeAtlas.Text.Numeral
import CodeAtlas.Text.Printable
import CodeAtlas.Text.Quoted
import CodeAtlas.Text.Utf8
import CodeAtlas.Value
import CodeAtlas.Value.Access
import CodeAtlas.Value.Order
import CodeAtlas.Vectorize
import CodeAtlas.World
import CodeAtlas.Yaml.Cursor
import CodeAtlas.Yaml.Node
import CodeAtlas.Yaml.Node.Reader
import CodeAtlas.Yaml.Read
import CodeAtlas.Yaml.Scalar
import CodeAtlas.Yaml.ScalarText
import CodeAtlas.Yaml.Token
import CodeAtlas.Yaml.Token.Lexer
import CodeAtlas.Yaml.Token.Names
import CodeAtlas.Main
import CodeAtlas.Proofs.Ingestion.Calls
import CodeAtlas.Proofs.Ingestion.SingleFlight
import CodeAtlas.Proofs.Ingestion.Lock
import CodeAtlas.Proofs.Turns.Loop
import CodeAtlas.Proofs.Ingestion.Trigger
import CodeAtlas.Proofs.Retrieval.Cap
import CodeAtlas.Proofs.Graph.Repeat
import CodeAtlas.Proofs.Graph.Rows
import CodeAtlas.Proofs.Graph.Rebuild
import CodeAtlas.Proofs.Graph.Spares
import CodeAtlas.Proofs.Keys
import CodeAtlas.Proofs.Turns.Runs
import CodeAtlas.Proofs.Retrieval.Sound
import CodeAtlas.Proofs.Retrieval.Fallback
import CodeAtlas.Proofs.Capitals
import CodeAtlas.Proofs.Graph.Answer
import CodeAtlas.Proofs.Graph.Sections
import CodeAtlas.Proofs.Graph.Contents
import CodeAtlas.Proofs.Graph.Population
import CodeAtlas.Proofs.Graph.RoundTrip
import CodeAtlas.Proofs.Turns.Frame
import CodeAtlas.Proofs.Ingestion.Scope
import CodeAtlas.Proofs.Ingestion.Account
import CodeAtlas.Proofs.Ingestion.Engaged
import CodeAtlas.Proofs.Ingestion.Reload
import CodeAtlas.Proofs.Crew.Basic
import CodeAtlas.Proofs.Crew.Hands
import CodeAtlas.Proofs.Crew.Keeps
import CodeAtlas.Proofs.Crew.Remit
import CodeAtlas.Proofs.Crew.Staff
import CodeAtlas.Proofs.Ingestion.Owner
import CodeAtlas.Proofs.Ingestion.Regular
import CodeAtlas.Proofs.Ingestion.Conduct
import CodeAtlas.Proofs.Ingestion.Stages
import CodeAtlas.Proofs.Ingestion.Rounds
import CodeAtlas.Proofs.Ingestion.Facade
import CodeAtlas.Proofs.Ingestion.Chronicle
import CodeAtlas.Proofs.Ingestion.Told
import CodeAtlas.Proofs.Ingestion.Recount
import CodeAtlas.Proofs.Ingestion.Civil
import CodeAtlas.Proofs.Crew.Founding
import CodeAtlas.Proofs.Ingestion.Release
import CodeAtlas.Proofs.Retrieval.Indexing
import CodeAtlas.Proofs.Storage.Names
import CodeAtlas.Proofs.Storage.Separation
import CodeAtlas.Proofs.Crew.Moved
import CodeAtlas.Proofs.Crew.Rota
import CodeAtlas.Proofs.Ingestion.Charted
import CodeAtlas.Proofs.Ingestion.Described
import CodeAtlas.Proofs.Enrichment.Alike
import CodeAtlas.Proofs.Turns.Regime
import CodeAtlas.Proofs.Settings.Usable
import CodeAtlas.Proofs.Settings.Connection
import CodeAtlas.Proofs.Crew.Report
import CodeAtlas.Proofs.Ingestion.Waiting
import CodeAtlas.Proofs.Crew.Diary
import CodeAtlas.Proofs.Storage.Snapshots
import CodeAtlas.Proofs.Storage.Vectors
import CodeAtlas.Proofs.Storage.Revectorize
import CodeAtlas.Proofs.Crew.Acts
import CodeAtlas.Proofs.Crew.Prompt
import CodeAtlas.Proofs.Graph.Backing
import CodeAtlas.Proofs.Graph.Handlers
import CodeAtlas.Proofs.Graph.Superclasses
import CodeAtlas.Proofs.Ingestion.Scheduled
import CodeAtlas.Proofs.Ingestion.Attended
import CodeAtlas.Proofs.Ingestion.Attending
import CodeAtlas.Proofs.Ingestion.Calling
import CodeAtlas.Proofs.Ingestion.Keeping
import CodeAtlas.Proofs.Ingestion.Pacing
import CodeAtlas.Proofs.Ingestion.Discipline
import CodeAtlas.Proofs.Graph.Sending
import CodeAtlas.Proofs.Retrieval.Raising
import CodeAtlas.Proofs.Crew.Finish
import CodeAtlas.Proofs.Enrichment.Tally
import CodeAtlas.Proofs.Enrichment.Decoding
import CodeAtlas.Proofs.Enrichment.Quoting
import CodeAtlas.Proofs.Retrieval.Listing
import CodeAtlas.Proofs.Retrieval.Naming
import CodeAtlas.Proofs.Ingestion.Polling
import CodeAtlas.Proofs.Retrieval.Nearest
import CodeAtlas.Proofs.Storage.Alignment
import CodeAtlas.Proofs.Completion.Calls
import CodeAtlas.Proofs.Snapshot.Spellings
import CodeAtlas.Proofs.Settings.Overlay
import CodeAtlas.Proofs.Retrieval.Unmatched
import CodeAtlas.Proofs.Truth
import CodeAtlas.Proofs.Turns.Simulation
import CodeAtlas.Proofs.Retrieval.Concord
import CodeAtlas.Proofs.Retrieval.Override
import CodeAtlas.Proofs.Retrieval.Mentions
import CodeAtlas.Proofs.Graph.Connection
import CodeAtlas.Proofs.Graph.Overloads
import CodeAtlas.Proofs.Command.Status
import CodeAtlas.Proofs.Retrieval.Choosing
