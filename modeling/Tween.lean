import Tween.Channel.Simplify
import Tween.Compiler.Span
import Tween.Compiler.Workbench
import Tween.Compiler
import Tween.Exchange.Keyframe
import Tween.Exchange.Problem
import Tween.Exchange.Settings
import Tween.Exchange.State
import Tween.Exchange.Text
import Tween.Fixture
import Tween.Replay
import Tween.Proofs.Binary64.Units
import Tween.Proofs.Binary64.Sum
import Tween.Proofs.Binary64.Arithmetic
import Tween.Proofs.Binary64.Products
import Tween.Proofs.Binary64.Progress
import Tween.Proofs.Channel.Accumulation
import Tween.Proofs.Channel.PairOrder
import Tween.Proofs.Channel.HoldSteps
import Tween.Proofs.Channel.Simplification
import Tween.Proofs.Compiler.Buffer
import Tween.Proofs.Capture.Segmentation
import Tween.Proofs.Capture.Spans
import Tween.Proofs.Channel.Joining
import Tween.Proofs.Capture.Layout
import Tween.Proofs.Capture.Times
import Tween.Proofs.Emission.Suppression
import Tween.Proofs.Binary64.Rounding
import Tween.Proofs.Channel.Passing
import Tween.Proofs.Channel.Changes
import Tween.Proofs.Emission.FlagSpans
import Tween.Proofs.Emission.Lifetime
import Tween.Proofs.Emission.Fades
import Tween.Proofs.Capture.Sampling
import Tween.Proofs.Emission.Faithful
import Tween.Proofs.Emission.Enclosure
import Tween.Proofs.Anchoring
import Tween.Proofs.Compiler.Fidelity
import Tween.Proofs.StableOrder
import Tween.Proofs.Compiler.Arrival
import Tween.Proofs.Channel.Storage
import Tween.Proofs.Capture.Darkness
import Tween.Proofs.Channel.Coarsening
import Tween.Proofs.Channel.PairCount
import Tween.Proofs.Capture.Thinning
import Tween.Proofs.Capture.Timeless
import Tween.Proofs.Emission.Tally
import Tween.Proofs.Emission.Pruning
import Tween.Proofs.Compiler.Economy
import Tween.Proofs.Channel.Members
import Tween.Proofs.Channel.Stillness
import Tween.Proofs.Capture.Entrance
import Tween.Proofs.Compiler.Gating
import Tween.Proofs.Exact.Field
import Tween.Proofs.Channel.Shift
import Tween.Proofs.Capture.Shift
import Tween.Proofs.Emission.Shift
import Tween.Proofs.Compiler.Shift
import Tween.Proofs.Channel.Overrun
import Tween.Proofs.Emission.Parts
import Tween.Proofs.Compiler.Direction
import Tween.Proofs.Channel.PairEnds
import Tween.Proofs.Capture.Values
import Tween.Proofs.Emission.Numbers
import Tween.Proofs.Exchange.Nulls
import Tween.Proofs.Compiler.Finiteness
import Tween.Proofs.Exact.Rounding
import Tween.Proofs.Visibility
import Tween.Proofs.Json.Strings
import Tween.Proofs.Json.Numerals
import Tween.Proofs.Json.Trees
import Tween.Proofs.Json.Records
import Tween.Proofs.Decimal.Digits
import Tween.Proofs.Exchange.RoundTrip
import Tween.Proofs.Channel.Course
import Tween.Proofs.Channel.Tracing
import Tween.Proofs.Compiler.Reuse
import Tween.Channel.Sweep
import Tween.Proofs.Channel.RunEnds
import Tween.Proofs.Channel.Foremost
import Tween.Proofs.Channel.Absorption
import Tween.Proofs.Channel.Sweep
import Tween.Proofs.Channel.Sampling
import Tween.Proofs.Channel.Lossless
import Tween.Proofs.Emission.Lossless
import Tween.Proofs.Channel.Reach
import Tween.Proofs.Channel.Bursts
import Tween.Proofs.Emission.FlagSampling
import Tween.Proofs.Channel.Agreement
import Tween.Proofs.Emission.Axes
import Tween.Proofs.Exact.Beginning
import Tween.Proofs.Channel.Brackets
import Tween.Proofs.Exact.Angles
import Tween.Proofs.Exact.Partway
import Tween.Proofs.Exact.Sampling
import Tween.Proofs.Channel.Subdivision
import Tween.Proofs.Channel.Tolerance
import Tween.Proofs.Culling
import Tween.Proofs.Exact.Overshoot
import Tween.Proofs.Channel.Range
import Tween.Proofs.Exact.Lines
