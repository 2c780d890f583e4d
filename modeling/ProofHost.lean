import ProofHost.Document.Render
import ProofHost.Main
import ProofHost.Proofs.Document.Edit
import ProofHost.Proofs.Json.RoundTrip
import ProofHost.Proofs.Package.Containment
import ProofHost.Proofs.Session.Mirror
import ProofHost.Proofs.Wire.RoundTrip
import ProofHost.Proofs.Document.History
import ProofHost.Proofs.Document.Removal
import ProofHost.Proofs.Sandbox.Contents
import ProofHost.Proofs.Interrupt
import ProofHost.Proofs.Kernel.Execution
import ProofHost.Proofs.Kernel.Quiet
import ProofHost.Proofs.Kernel.Framing
import ProofHost.Proofs.Session.Installation
import ProofHost.Proofs.Package.Interleaving
import ProofHost.Proofs.Sandbox.FiniteMap
import ProofHost.Proofs.Kernel.Snapshot
import ProofHost.Proofs.Delivery
import ProofHost.Proofs.Session.Service
import ProofHost.Proofs.Session.Starting
import ProofHost.Proofs.Sandbox.NormalForm
import ProofHost.Proofs.Kernel.Verdict
import ProofHost.Proofs.Kernel.Handover
import ProofHost.Proofs.Session.Binaries
import ProofHost.Proofs.Document.Drawing
import ProofHost.Proofs.Kernel.TakenBack
import ProofHost.Proofs.Document.Legibility
import ProofHost.Proofs.Kernel.OpenProof
import ProofHost.Proofs.Wire.Unions
import ProofHost.Proofs.Wire.Reencoding
import ProofHost.Proofs.Package.Arrival
import ProofHost.Proofs.Attachment
import ProofHost.Proofs.Kernel.LoadPath
import ProofHost.Proofs.Kernel.ModuleSearch
import ProofHost.Proofs.Config.Stubs
import ProofHost.Proofs.Config.RoundTrip
import ProofHost.Proofs.Package.Repetition
