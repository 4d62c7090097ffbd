import StackWalk.Arch.Shipped
import StackWalk.Session
import StackWalk.Image.ByteImage
import StackWalk.Image.PagePair
import StackWalk.Assembler.EhFrame
import StackWalk.Proofs.Action
import StackWalk.Proofs.Cfi.Execution
import StackWalk.Proofs.Cfi.RowAt
import StackWalk.Proofs.Cursor.Searching
import StackWalk.Proofs.Cursor.Step
import StackWalk.Proofs.Cache.Recency
import StackWalk.Proofs.Cache.Chains
import StackWalk.Proofs.Cache.LruMap
import StackWalk.Proofs.Cache.Requests
import StackWalk.Proofs.Cache.Links
import StackWalk.Proofs.Cfi.MemoryOnly
import StackWalk.Proofs.Cfi.Bracketed
import StackWalk.Proofs.Cfi.FrameChain
import StackWalk.Proofs.Cfi.SearchTable
import StackWalk.Proofs.Unread
import StackWalk.Proofs.Cfi.UnreadBytes
import StackWalk.Proofs.Cfi.WithoutTable
import StackWalk.Proofs.Cursor.Rules
import StackWalk.Proofs.Cache.Trusted
import StackWalk.Proofs.Cursor.Agreement
import StackWalk.Proofs.Session.Requests
import StackWalk.Proofs.Session.Transparency
import StackWalk.Proofs.Cursor.AtRest
import StackWalk.Proofs.Cursor.FrameRecord
import StackWalk.Proofs.Cursor.RecordChain
import StackWalk.Proofs.Session.Generations
import StackWalk.Proofs.Caller.Substitution
import StackWalk.Proofs.Cursor.RuleColumns
import StackWalk.Proofs.Expression.Cells
import StackWalk.Proofs.Caller.Bounds
import StackWalk.Proofs.Session.Reachable
import StackWalk.Proofs.Session.Procedures
import StackWalk.Proofs.Assembler.Layout
import StackWalk.Proofs.Assembler.ReadBack
import StackWalk.Proofs.Expression.WordMachine
import StackWalk.Proofs.Cfi.Failure
import StackWalk.Proofs.Cfi.Nesting
import StackWalk.Proofs.OwnBytes
import StackWalk.Proofs.Cfi.EmptyRanges
import StackWalk.Proofs.Cfi.OwnFields
import StackWalk.Proofs.Cfi.AcceptedEntry
import StackWalk.Proofs.Cursor.HeuristicRows
import StackWalk.Proofs.Region.Registry
import StackWalk.Proofs.Region.Rows
import StackWalk.Proofs.Cfi.TableLookUp
import StackWalk.Proofs.Cursor.ReportedRange
import StackWalk.Proofs.Image.ByteMemory
import StackWalk.Proofs.Pointer
import StackWalk.Proofs.Session.RefusedWrites
import StackWalk.Proofs.Image.SpilledImage
import StackWalk.Proofs.Session.RegisterAccess
import StackWalk.Proofs.Session.Lending
import StackWalk.Proofs.Session.Releases
import StackWalk.Proofs.Session.ProcedureNames
import StackWalk.Proofs.Assembler.Decoding
import StackWalk.Proofs.Cursor.CodePatterns
import StackWalk.Proofs.Cursor.Fallbacks
import StackWalk.Proofs.Cursor.SavedInRegister
