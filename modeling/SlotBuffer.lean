import SlotBuffer.Checked.Total
import SlotBuffer.Contents
import SlotBuffer.ListLike
import SlotBuffer.Registers
import SlotBuffer.Run
import SlotBuffer.Script.Names
import SlotBuffer.Script.Session
import SlotBuffer.Proofs.Room
import SlotBuffer.Proofs.Meaning
import SlotBuffer.Proofs.Refinement
import SlotBuffer.Proofs.Invariant
import SlotBuffer.Proofs.Atomicity
import SlotBuffer.Proofs.FailureConditions
import SlotBuffer.Proofs.Checks
import SlotBuffer.Proofs.Strategies
import SlotBuffer.Proofs.Handles
import SlotBuffer.Proofs.Budget
import SlotBuffer.Proofs.Reservation
import SlotBuffer.Proofs.SpareSlots
import SlotBuffer.Proofs.Distinct
import SlotBuffer.Proofs.Recency
import SlotBuffer.Proofs.GrowthLog
import SlotBuffer.Proofs.GeometricGrowth
import SlotBuffer.Proofs.HighWater
import SlotBuffer.Proofs.Equality
import SlotBuffer.Proofs.Conservation
import SlotBuffer.Proofs.Removal
import SlotBuffer.Proofs.Rollback
import SlotBuffer.Proofs.Conversion
import SlotBuffer.Proofs.Values
import SlotBuffer.Proofs.Signatures
import SlotBuffer.Proofs.Calls
import SlotBuffer.Proofs.Sessions
import SlotBuffer.Proofs.Reinsertion
import SlotBuffer.Proofs.Commits
import SlotBuffer.Proofs.Gathering
import SlotBuffer.Proofs.Chunks
import SlotBuffer.Proofs.OneByOne
import SlotBuffer.Proofs.Occurrences
import SlotBuffer.Proofs.Construction
import SlotBuffer.Proofs.Indexing
import SlotBuffer.Proofs.Texts
