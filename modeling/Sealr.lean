import Sealr.Lib.Bytes
import Sealr.Lib.HashTree
import Sealr.Lib.HashChain
import Sealr.Lib.Log
import Sealr.Lib.Pairs
import Sealr.Lib.Linked
import Sealr.Lib.Runs
import Sealr.Lib.Walks
import Sealr.Lib.FirstMatch
import Sealr.Lib.Fallible
import Sealr.Lib.Sections
import Sealr.Lib.Crockford
import Sealr.Lib.Base64
import Sealr.Lib.Halves
import Sealr.Lib.Capped
import Sealr.Lib.Json
import Sealr.Lib.Rfc8259
import Sealr.Lib.Accepts
import Sealr.Lib.Rfc8785
import Sealr.Lib.Shape
import Sealr.Lib.Pretty
import Sealr.Lib.Decode
import Sealr.Lib.Flips
import Sealr.Lib.Lexer
import Sealr.Lib.Lexemes
import Sealr.Lib.Outline
import Sealr.Lib.Inventory
import Sealr.Lib.Scalars
import Sealr.Lib.Respell
import Sealr.Lib.Replaced
import Sealr.Lib.FlippedLine
import Sealr.Lib.Text
import Sealr.Externals
import Sealr.Evidence.Error
import Sealr.Evidence.Jcs
import Sealr.Evidence.Hash
import Sealr.Evidence.Merkle
import Sealr.Evidence.Inclusion
import Sealr.Evidence.Splits
import Sealr.Evidence.Record
import Sealr.Evidence.Chain
import Sealr.Evidence.Agreement
import Sealr.Evidence.Malformed
import Sealr.Evidence.Appendable
import Sealr.Evidence.Clean
import Sealr.Evidence.Segments
import Sealr.Evidence.Clocks
import Sealr.Evidence.Determined
import Sealr.Evidence.Flipped
import Sealr.Evidence.Excerpts
import Sealr.Evidence.Restarts
import Sealr.Evidence.Spool
import Sealr.Evidence.Projection
import Sealr.Evidence.Redacted
import Sealr.Evidence.Sanitized
import Sealr.Evidence.Truncated
import Sealr.Evidence.Keys
import Sealr.Evidence.Checkpoint
import Sealr.Evidence.Contiguous
import Sealr.Evidence.Hexadecimal
import Sealr.Evidence.Disclosure
import Sealr.Evidence.Revocation
import Sealr.Evidence.Certs
import Sealr.Evidence.Paths
import Sealr.Evidence.Lengths
import Sealr.Bundle.Types
import Sealr.Bundle.Anchors
import Sealr.Bundle.Batches
import Sealr.Bundle.Read
import Sealr.Bundle.Write
import Sealr.Bundle.Decode
import Sealr.Bundle.Signed
import Sealr.Bundle.Documents
import Sealr.Bundle.Calls
import Sealr.Bundle.Order
import Sealr.Bundle.Atomic
import Sealr.Bundle.RoundTrip
import Sealr.Verify.Report
import Sealr.Verify.Tsa
import Sealr.Verify.Stream
import Sealr.Verify.Identity
import Sealr.Verify.Pem
import Sealr.Verify.Checkpoints
import Sealr.Verify.Attested
import Sealr.Verify.Countersigned
import Sealr.Verify.Revoked
import Sealr.Verify.Ranges
import Sealr.Verify.Binding
import Sealr.Verify.Anchors
import Sealr.Verify.Engine
import Sealr.Verify.Passes
import Sealr.Verify.Quiet
import Sealr.Verify.Unordered
import Sealr.Verify.Soundness
import Sealr.Verify.Roots
import Sealr.Verify.Intermediates
import Sealr.Verify.Windows
import Sealr.Verify.Extent
import Sealr.Verify.Links
import Sealr.Verify.History
import Sealr.Verify.Reads
import Sealr.Verify.Hashed
import Sealr.Verify.Answered
import Sealr.Verify.Monotone
import Sealr.Verify.Scope
import Sealr.Verify.Mutated
import Sealr.Verify.Honest
import Sealr.Verify.Authentic
import Sealr.Verify.Exported
import Sealr.Verify.Trusted
import Sealr.Verify.Slices
import Sealr.Verify.Anchored
import Sealr.Verify.Stamped
import Sealr.Verify.Tokens
import Sealr.Verify.Heads
import Sealr.Verify.Accumulate
import Sealr.Verify.Counters
import Sealr.Verify.Parts
import Sealr.Verify.Span
import Sealr.Verify.Render
import Sealr.Verify.Cli
