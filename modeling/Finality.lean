import Finality.Lib.Utf8
import Finality.Lib.Hex
import Finality.Lib.KeyOrder
import Finality.Lib.JsonText
import Finality.Python.Text
import Finality.Lib.Checks
import Finality.Python.Value
import Finality.Canonical.Normalize
import Finality.Canonical.Equivalence
import Finality.Core.Models
import Finality.Core.Crypto
import Finality.Core.State
import Finality.Core.Policy
import Finality.Core.Evidence
import Finality.Core.Effectors
import Finality.Core.Sink
import Finality.Core.Authority
import Finality.Lib.Runs
import Finality.Lib.SingleUse
import Finality.Core.System
import Finality.Core.Sample
import Finality.Core.Completeness
import Finality.Core.Provenance
import Finality.Core.NonceTable
import Finality.Core.SingleAct
import Finality.Sovereignty.Models
import Finality.Sovereignty.Policy
import Finality.Sovereignty.Plane
import Finality.Sovereignty.System
import Finality.Sovereignty.Soundness
import Finality.Sovereignty.Sample
import Finality.Sovereignty.SingleSubject
import Finality.Canonical.Same
import Finality.Core.ExactAct
import Finality.Core.Interleaving
import Finality.Core.Accounts
import Finality.Core.Concurrency
import Finality.Core.NonBearer
import Finality.Lib.Ledger
import Finality.Lib.Updates
import Finality.Core.Conservation
import Finality.Lib.Utf16
import Finality.Lib.Doubles
import Finality.Interop.Profile
import Finality.Interop.GoCanonical
import Finality.Interop.NodeCanonical
import Finality.Interop.Agreement
import Finality.Interop.Bundle
import Finality.Interop.Document
import Finality.Interop.GoVerify
import Finality.Interop.NodeVerify
import Finality.Interop.Checked
import Finality.Interop.Export
import Finality.Interop.Refinement
import Finality.Interop.Verifiers
import Finality.Sovereignty.Separation
import Finality.Lib.Transactions
import Finality.Core.SQLiteStore
import Finality.Core.DurableClaims
import Finality.Core.DurableSerial
import Finality.Canonical.Domain
import Finality.Canonical.Sample
import Finality.Lib.JsonRead
import Finality.Interop.RoundTrip
import Finality.Sovereignty.Declared
import Finality.Canonical.Nfc
import Finality.Core.Spelling
import Finality.Sovereignty.Spelling
import Finality.Interop.ScalarStrings
import Finality.Interop.GoArithmetic
import Finality.Lib.IntLiteral
import Finality.Interop.GoDecode
import Finality.Interop.GoSpelling
import Finality.Sovereignty.FailedCalls
import Finality.Sovereignty.Order
import Finality.Sovereignty.Binding
import Finality.Sovereignty.Bundles
import Finality.Core.Refusals
import Finality.Python.Sets
import Finality.Sovereignty.Totality
import Finality.Sovereignty.AllowLists
import Finality.Threads.System
import Finality.Threads.Provenance
import Finality.Threads.Sequential
import Finality.Threads.Soundness
import Finality.Threads.Budget
import Finality.Threads.Linear
import Finality.Threads.Receipts
import Finality.Threads.Planes
import Finality.Threads.Governed
import Finality.Threads.Durable
import Finality.Threads.Crashes
import Finality.Sovereignty.Tightening
import Finality.Threads.Tightening
import Finality.Core.Delivery
import Finality.Threads.Audit
import Finality.Core.Availability
import Finality.Sovereignty.Pipeline
import Finality.Core.Surface
import Finality.Core.Ed25519
import Finality.Core.TrustDomains
