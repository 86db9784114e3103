import FeltWire.Main
import FeltWire.Proofs.Binary64.Nearest
import FeltWire.Proofs.Binary64.Operations
import FeltWire.Proofs.Binary64.Quotients
import FeltWire.Proofs.Binary64.Values
import FeltWire.Proofs.ByteString
import FeltWire.Proofs.ByteString.Layout
import FeltWire.Proofs.Codec.Components
import FeltWire.Proofs.Codec.Composition
import FeltWire.Proofs.Codec.Cost
import FeltWire.Proofs.Codec.DecodeFaults
import FeltWire.Proofs.Codec.Erasure
import FeltWire.Proofs.Codec.Exact
import FeltWire.Proofs.Codec.Faults
import FeltWire.Proofs.Codec.FixedSizes
import FeltWire.Proofs.Codec.Framing
import FeltWire.Proofs.Codec.Lengths
import FeltWire.Proofs.Codec.Plain
import FeltWire.Proofs.Codec.RoundTrip
import FeltWire.Proofs.Codec.Scalars
import FeltWire.Proofs.Codec.Sizes
import FeltWire.Proofs.Codec.Threading
import FeltWire.Proofs.Command
import FeltWire.Proofs.Correspondence
import FeltWire.Proofs.Felt.Grammar
import FeltWire.Proofs.Felt.Primality
import FeltWire.Proofs.Felt.Programs
import FeltWire.Proofs.Fixed.Arithmetic
import FeltWire.Proofs.Fixed.DoubleRoundTrip
import FeltWire.Proofs.Fixed.Doubles
import FeltWire.Proofs.Fixed.FromDoubles
import FeltWire.Proofs.Fixed.NearestDoubles
import FeltWire.Proofs.Fixed.Ratio
import FeltWire.Proofs.Json.Components
import FeltWire.Proofs.Json.Encoding
import FeltWire.Proofs.Json.Faults
import FeltWire.Proofs.Json.IntegerForms
import FeltWire.Proofs.Json.Paths
import FeltWire.Proofs.Json.RoundTrip
import FeltWire.Proofs.Json.Scalars
import FeltWire.Proofs.Message
import FeltWire.Proofs.Message.Edges
import FeltWire.Proofs.Message.Headers
import FeltWire.Proofs.MessagePack
import FeltWire.Proofs.Numeral
import FeltWire.Proofs.Occurrence
import FeltWire.Proofs.Reader.Exact
import FeltWire.Proofs.Reader.Runs
import FeltWire.Proofs.Rounding
import FeltWire.Proofs.Rounding.Laws
import FeltWire.Proofs.Scalar
import FeltWire.Proofs.Scalar.Ranges
import FeltWire.Proofs.Schema.Faults
import FeltWire.Proofs.Schema.Resolution
import FeltWire.Proofs.Schema.Unfolding
import FeltWire.Proofs.Schema.Walk
import FeltWire.Proofs.StaticType
import FeltWire.Proofs.StaticType.Judgement
import FeltWire.Proofs.Writer
import FeltWire.StaticType
import FeltWire.Writer
