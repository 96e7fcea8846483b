import AtomStore.Main
import AtomStore.TieredSet.Cursor
import AtomStore.Workspace
import AtomStore.Proofs.Log.Reading
import AtomStore.Proofs.Log.RoundTrip
import AtomStore.Proofs.Log.Stability
import AtomStore.Proofs.Log.Layout
import AtomStore.Proofs.Checksum
import AtomStore.Proofs.Log.Altered
import AtomStore.Proofs.DataFile.Damaged
import AtomStore.Proofs.DataFile.Layout
import AtomStore.Proofs.DataFile.Content
import AtomStore.Proofs.DataFile.History
import AtomStore.Proofs.Store.Slots
import AtomStore.Proofs.Store.Commit
import AtomStore.Proofs.Store.Course
import AtomStore.Proofs.Store.Session
import AtomStore.Proofs.Store.FailedCommit
import AtomStore.Proofs.DataFile.Recorded
import AtomStore.Proofs.Store.Journal
import AtomStore.Proofs.Store.Agreement
import AtomStore.Proofs.Log.Torn
import AtomStore.Proofs.Store.CrashCut
import AtomStore.Proofs.DataFile.Buffer
import AtomStore.Proofs.TieredSet.Contents
import AtomStore.Proofs.TieredSet.Growth
import AtomStore.Proofs.TieredSet.Plain
import AtomStore.Proofs.TieredSet.Cursor
import AtomStore.Proofs.Store.IndexOrder
import AtomStore.Proofs.Store.SlotHistory
import AtomStore.Proofs.Store.IndexRefresh
import AtomStore.Proofs.Store.StateSteps
import AtomStore.Proofs.Store.IndexExact
import AtomStore.Proofs.Store.Walk
import AtomStore.Proofs.Log.Spans
import AtomStore.Proofs.Store.Repair
import AtomStore.Proofs.TieredSet.Successor
import AtomStore.Proofs.Store.Occupied
import AtomStore.Proofs.Store.Refusal
import AtomStore.Proofs.Store.OrderlyLog
import AtomStore.Proofs.Store.Building
import AtomStore.Proofs.Store.Ledger
import AtomStore.Proofs.Log.TooLong
import AtomStore.Proofs.Log.Accepted
import AtomStore.Proofs.DataFile.Payload
import AtomStore.Proofs.Store.WholeFile
import AtomStore.Proofs.Store.Backed
import AtomStore.Proofs.Store.PayloadHistory
import AtomStore.Proofs.Store.Spoiled
import AtomStore.Proofs.Store.ReadOnly
import AtomStore.Proofs.Store.Exposed
import AtomStore.Proofs.Log.Grammar
import AtomStore.Proofs.Log.Parsing
import AtomStore.Proofs.Log.Delivery
import AtomStore.Proofs.Store.IndexSearch
import AtomStore.Proofs.Shell.Plain
import AtomStore.Proofs.Shell.Registered
import AtomStore.Proofs.Store.SingleCommit
import AtomStore.Proofs.Shell.Mirror
import AtomStore.Proofs.Shell.Answers
import AtomStore.Proofs.Store.CopiedBytes
import AtomStore.Proofs.Store.Publication
import AtomStore.Proofs.Store.EmptySlots
import AtomStore.Proofs.Log.Blanked
import AtomStore.Proofs.Store.TornAppend
import AtomStore.Proofs.Store.Turns
import AtomStore.Proofs.Store.IndexHeld
import AtomStore.Proofs.Store.Precedence
import AtomStore.Proofs.Store.IndexAnswers
import AtomStore.Proofs.Log.HeaderNormal
import AtomStore.Proofs.Log.HeaderDamaged
import AtomStore.Proofs.Log.HeaderFaults
import AtomStore.Proofs.DataFile.Growth
import AtomStore.Proofs.DataFile.HostedPlaces
import AtomStore.Proofs.Log.CutRecord
import AtomStore.Proofs.Store.Conducted
import AtomStore.Proofs.Log.Versions
import AtomStore.Proofs.Store.RepairReport
import AtomStore.Proofs.Text.Quoted
import AtomStore.Proofs.Rendering
import AtomStore.Proofs.Log.Numbers
import AtomStore.Proofs.Log.PassingOver
