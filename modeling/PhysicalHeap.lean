import PhysicalHeap.Console.Lemmas
import PhysicalHeap.Console.Output
import PhysicalHeap.Table.Lemmas
import PhysicalHeap.Proofs.FreeRun
import PhysicalHeap.Proofs.SegmentSteps
import PhysicalHeap.Proofs.Blocks
import PhysicalHeap.Proofs.GridSteps
import PhysicalHeap.Proofs.Ledger
import PhysicalHeap.Proofs.RecordedSteps
import PhysicalHeap.Proofs.History
import PhysicalHeap.Proofs.GivingBack
import PhysicalHeap.Proofs.ArenaSteps
import PhysicalHeap.Proofs.LeaseSteps
import PhysicalHeap.Proofs.SessionSteps
import PhysicalHeap.Proofs.Isolation
import PhysicalHeap.Proofs.Ownership
import PhysicalHeap.Proofs.Addressing
import PhysicalHeap.Proofs.FirstFit
import PhysicalHeap.Proofs.Walks
import PhysicalHeap.Proofs.HandingOut
import PhysicalHeap.Proofs.Clearing
import PhysicalHeap.Proofs.Complaints
import PhysicalHeap.Proofs.FreeingOrder
import PhysicalHeap.Proofs.NullPointer
import PhysicalHeap.Proofs.Accounting
import PhysicalHeap.Proofs.Alike
import PhysicalHeap.Proofs.Likeness
import PhysicalHeap.Proofs.Contents
import PhysicalHeap.Proofs.PlainHeap
import PhysicalHeap.Proofs.Thresholds
import PhysicalHeap.Proofs.Reading
import PhysicalHeap.Proofs.Retelling
import PhysicalHeap.Proofs.SettingUp
import PhysicalHeap.Proofs.BarePointers
import PhysicalHeap.Proofs.Delivery
import PhysicalHeap.Proofs.LiveMasks
import PhysicalHeap.Proofs.RoundingUp
