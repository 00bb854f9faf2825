import SharedCells.Cas.Backoff
import SharedCells.Cas.Loop
import SharedCells.Cas.Race
import SharedCells.CopyOnWrite.Basic
import SharedCells.CopyOnWrite.Race
import SharedCells.CowMap.Basic
import SharedCells.CowMap.Cursor
import SharedCells.CowMap.EntrySet
import SharedCells.CowMap.KeySet
import SharedCells.CowMap.SubMap
import SharedCells.CowMap.Values
import SharedCells.CowSet
import SharedCells.Decimal.Layout
import SharedCells.Decimal.Shortest
import SharedCells.Descending
import SharedCells.Digest.Fingerprint
import SharedCells.Digest.Sip
import SharedCells.Feed
import SharedCells.Interrupt
import SharedCells.Json.Document
import SharedCells.Json.Integer
import SharedCells.Json.Number
import SharedCells.Json.Text
import SharedCells.KeyRange
import SharedCells.Lazy.Call
import SharedCells.Lazy.Holder
import SharedCells.Lazy.Outcome
import SharedCells.Lazy.Settle
import SharedCells.Lazy.Step
import SharedCells.Lazy.System
import SharedCells.Panic
import SharedCells.Proofs.BulkChanges
import SharedCells.Proofs.Cas.Backoff
import SharedCells.Proofs.Cas.Chain
import SharedCells.Proofs.Cas.Evidence
import SharedCells.Proofs.Cas.Proposals
import SharedCells.Proofs.Cas.Rivals
import SharedCells.Proofs.Cas.Scripted
import SharedCells.Proofs.Cas.Shortcut
import SharedCells.Proofs.Cas.Unpaused
import SharedCells.Proofs.Cas.Winner
import SharedCells.Proofs.CopyOnWrite.Atomic
import SharedCells.Proofs.CopyOnWrite.Family
import SharedCells.Proofs.CopyOnWrite.InTurn
import SharedCells.Proofs.CopyOnWrite.Race
import SharedCells.Proofs.CopyOnWrite.Requests
import SharedCells.Proofs.CopyOnWrite.Serial
import SharedCells.Proofs.CopyOnWrite.Writes
import SharedCells.Proofs.CowMap.Comparison
import SharedCells.Proofs.CowMap.Cursor.Removal
import SharedCells.Proofs.CowMap.Cursor.Session
import SharedCells.Proofs.CowMap.Cursor.Walks
import SharedCells.Proofs.CowMap.Digests
import SharedCells.Proofs.CowMap.Drained
import SharedCells.Proofs.CowMap.Equality
import SharedCells.Proofs.CowMap.InTurn
import SharedCells.Proofs.CowMap.Nested
import SharedCells.Proofs.CowMap.Operations
import SharedCells.Proofs.CowMap.PlainMap
import SharedCells.Proofs.CowMap.SubMap
import SharedCells.Proofs.CowSet
import SharedCells.Proofs.Gaps
import SharedCells.Proofs.Isolation
import SharedCells.Proofs.Json.Documents
import SharedCells.Proofs.Json.Scalars
import SharedCells.Proofs.Lazy.Consumed
import SharedCells.Proofs.Lazy.Generations.Advances
import SharedCells.Proofs.Lazy.Generations.Episodes
import SharedCells.Proofs.Lazy.Generations.Invariant
import SharedCells.Proofs.Lazy.Generations.Late
import SharedCells.Proofs.Lazy.Generations.Ledger
import SharedCells.Proofs.Lazy.Generations.Spared
import SharedCells.Proofs.Lazy.Generations.Succession
import SharedCells.Proofs.Lazy.Interruption.Effects
import SharedCells.Proofs.Lazy.Interruption.Order
import SharedCells.Proofs.Lazy.Interruption.Queries
import SharedCells.Proofs.Lazy.Interruption.Warranted
import SharedCells.Proofs.Lazy.Interruption.World
import SharedCells.Proofs.Lazy.Lineage
import SharedCells.Proofs.Lazy.Lone.Overlooked
import SharedCells.Proofs.Lazy.Lone.Phases
import SharedCells.Proofs.Lazy.Lone.Turns
import SharedCells.Proofs.Lazy.Moves
import SharedCells.Proofs.Lazy.Once
import SharedCells.Proofs.Lazy.Outline
import SharedCells.Proofs.Lazy.Sequential.Account
import SharedCells.Proofs.Lazy.Sequential.Alone
import SharedCells.Proofs.Lazy.Sequential.Programs
import SharedCells.Proofs.Lazy.Waiting.Attended
import SharedCells.Proofs.Lazy.Waiting.Commitment
import SharedCells.Proofs.Lazy.Waiting.Roster
import SharedCells.Proofs.Lazy.Waiting.Served
import SharedCells.Proofs.RoundTrip
import SharedCells.Proofs.Snapshot
import SharedCells.Proofs.Store.Guarded
import SharedCells.Proofs.Store.Lawful
import SharedCells.Proofs.Store.LawfulSet
import SharedCells.Proofs.Store.Plain
import SharedCells.Proofs.Store.Range
import SharedCells.Proofs.Store.Rebuilt
import SharedCells.Proofs.Turns
import SharedCells.Script.Bump
import SharedCells.Script.Cas
import SharedCells.Script.Cells
import SharedCells.Script.Interrupts
import SharedCells.Script.Keep
import SharedCells.Script.Lazy
import SharedCells.Script.LazyErrors
import SharedCells.Script.MapDisplay
import SharedCells.Script.MapRequest
import SharedCells.Script.Maps
import SharedCells.Script.Ranges
import SharedCells.Script.Run
import SharedCells.Script.Sets
import SharedCells.Script.SortedMaps
import SharedCells.Snapshot
import SharedCells.Store.Ascending
import SharedCells.Store.Basic
import SharedCells.Store.Distinct
import SharedCells.Store.Listed
import SharedCells.Store.Sorted
import SharedCells.Store.Unordered
import SharedCells.Table
import SharedCells.Text.CodeRange
import SharedCells.Text.Combining
import SharedCells.Text.Describe
import SharedCells.Text.Floating
import SharedCells.Text.Invisible
import SharedCells.Text.Quoted
import SharedCells.ViewError
