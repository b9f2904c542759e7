import CounterStream.Main
import CounterStream.Sharing
import CounterStream.Proofs.Fill
import CounterStream.Proofs.Mixing
import CounterStream.Proofs.WordStream
import CounterStream.Proofs.Reservation
import CounterStream.Proofs.Rounding
import CounterStream.Proofs.Decimal
import CounterStream.Proofs.Text
import CounterStream.Proofs.Positional
import CounterStream.Proofs.Name
import CounterStream.Proofs.JsonText
import CounterStream.Proofs.Checkpoint
import CounterStream.Proofs.CheckpointFile
import CounterStream.Proofs.Draw
import CounterStream.Proofs.Substreams
import CounterStream.Proofs.Directory
import CounterStream.Proofs.Report
import CounterStream.Proofs.Resume
import CounterStream.Proofs.TomlScalar
import CounterStream.Proofs.Widening
import CounterStream.Proofs.TomlDocument
import CounterStream.Proofs.TomlFit
import CounterStream.Proofs.Config
import CounterStream.Proofs.PrivateFill
import CounterStream.Proofs.StreamOrder
import CounterStream.Proofs.Window
import CounterStream.Proofs.Neighbours
import CounterStream.Proofs.Agreement
import CounterStream.Proofs.Narrowing
import CounterStream.Proofs.JsonNumber
import CounterStream.Proofs.Record
import CounterStream.Proofs.Precedence
import CounterStream.Proofs.Saving
import CounterStream.Proofs.Numerals
import CounterStream.Proofs.TwoFormats
import CounterStream.Proofs.Monotone
import CounterStream.Proofs.FixedPoint
import CounterStream.Proofs.Elementary
import CounterStream.Proofs.Extremes
import CounterStream.Proofs.Order
import CounterStream.Proofs.Interval
import CounterStream.Proofs.Failure
import CounterStream.Proofs.Modulus
import CounterStream.Proofs.Strides
import CounterStream.Proofs.Folding
import CounterStream.Proofs.Spelling
import CounterStream.Proofs.Exactness
import CounterStream.Proofs.Grid
import CounterStream.Proofs.PairBound
import CounterStream.Proofs.Predecessor
import CounterStream.Proofs.Inspection
import CounterStream.Proofs.Limits
