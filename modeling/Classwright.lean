import Classwright.Main
import Classwright.Machine.Codec
import Classwright.Source.Codec
import Classwright.Proofs.Conformance
import Classwright.Proofs.Compiled
import Classwright.Proofs.World
import Classwright.Proofs.Keeping
import Classwright.Proofs.Dispatch
import Classwright.Proofs.HostCalls
import Classwright.Proofs.Operators
import Classwright.Proofs.Frames
import Classwright.Proofs.Typing
import Classwright.Proofs.Lowering
import Classwright.Proofs.Bodies
import Classwright.Proofs.Members
import Classwright.Proofs.Running
import Classwright.Proofs.Soundness
import Classwright.Proofs.Coherence
import Classwright.Proofs.Resolution
import Classwright.Proofs.Contents
import Classwright.Proofs.Implementing
import Classwright.Proofs.Indentation
import Classwright.Proofs.Extending
import Classwright.Proofs.Fragments
import Classwright.Proofs.Readback
import Classwright.Proofs.Grammar
import Classwright.Proofs.Climbing
import Classwright.Proofs.Rereading
import Classwright.Proofs.Accesses
import Classwright.Proofs.Scoping
import Classwright.Proofs.Numbering
import Classwright.Proofs.Ensuring
import Classwright.Proofs.Returning
import Classwright.Proofs.Tracing
import Classwright.Proofs.Furnished
import Classwright.Proofs.Slots
import Classwright.Proofs.Hosting
import Classwright.Proofs.Placing
import Classwright.Proofs.SlotSafety
import Classwright.Proofs.Caching
import Classwright.Proofs.Cells
import Classwright.Proofs.Documents
import Classwright.Proofs.Stored
import Classwright.Proofs.Descriptors
import Classwright.Proofs.Initializing
import Classwright.Proofs.Reloading
import Classwright.Proofs.Retrying
import Classwright.Proofs.Delegating
import Classwright.Proofs.Registering
import Classwright.Proofs.Redeclaring
import Classwright.Proofs.Monotonicity
import Classwright.Proofs.Finality
import Classwright.Proofs.Guarding
import Classwright.Proofs.Sealing
import Classwright.Proofs.Immutability
import Classwright.Proofs.Forwarding
import Classwright.Proofs.Recovering
import Classwright.Proofs.Patching
import Classwright.Proofs.Answering
import Classwright.Proofs.Augmenting
import Classwright.Proofs.Proxies
import Classwright.Proofs.Widening
import Classwright.Proofs.Retraction
import Classwright.Proofs.Making
import Classwright.Proofs.Foreseeing
import Classwright.Proofs.Aftermath
import Classwright.Proofs.Faithfulness
import Classwright.Proofs.Overloads
import Classwright.Proofs.Lineage
import Classwright.Proofs.Concatenation
import Classwright.Proofs.Loading
import Classwright.Proofs.Exporting
import Classwright.Proofs.Tiling
import Classwright.Proofs.Joining
import Classwright.Proofs.Relocation
import Classwright.Proofs.Abreast
import Classwright.Proofs.Declarations
import Classwright.Proofs.Transport
import Classwright.Proofs.Layout
import Classwright.Proofs.Isolation
import Classwright.Proofs.Integers
import Classwright.Proofs.Narrowing
import Classwright.Proofs.Hashing
import Classwright.Proofs.Nominating
import Classwright.Proofs.Agreement
import Classwright.Proofs.Depth
import Classwright.Proofs.Termination
import Classwright.Proofs.Walking
import Classwright.Proofs.Following
import Classwright.Proofs.Halting
import Classwright.Proofs.Escapes
import Classwright.Proofs.Granting
import Classwright.Proofs.Lacking
import Classwright.Proofs.Nominees
import Classwright.Proofs.FieldNames
import Classwright.Proofs.Ascending
import Classwright.Proofs.Layers
import Classwright.Proofs.Reporting
import Classwright.Proofs.Elaboration
import Classwright.Proofs.Elaborating
import Classwright.Proofs.Accepting
