import Sandfall.Sandbox
import Sandfall.Proofs.Packing
import Sandfall.Proofs.Book
import Sandfall.Proofs.Tables
import Sandfall.Proofs.Cells
import Sandfall.Proofs.Deeds
import Sandfall.Proofs.Turns
import Sandfall.Proofs.Authored
import Sandfall.Proofs.Faithful
import Sandfall.Proofs.Bounds
import Sandfall.Proofs.Claims
import Sandfall.Proofs.Conservation
import Sandfall.Proofs.Traced
import Sandfall.Proofs.Upkeep
import Sandfall.Proofs.Immobile
import Sandfall.Proofs.Awake
import Sandfall.Proofs.Plain
import Sandfall.Proofs.Lockstep
import Sandfall.Proofs.Bonds
import Sandfall.Proofs.Codec
import Sandfall.Proofs.Resume
import Sandfall.Proofs.Erase
import Sandfall.Proofs.Grammar
import Sandfall.Proofs.RoundTrip
import Sandfall.Proofs.Lasting
import Sandfall.Proofs.Tiling
import Sandfall.Proofs.Brush
import Sandfall.Proofs.Changes
import Sandfall.Proofs.Reckon
import Sandfall.Proofs.Frozen
import Sandfall.Proofs.Rects
import Sandfall.Proofs.Redraw
import Sandfall.Proofs.Ambiguity
import Sandfall.Proofs.Defined
import Sandfall.Proofs.Load
import Sandfall.Proofs.Observing
import Sandfall.Proofs.Landing
import Sandfall.Proofs.Queue
import Sandfall.Proofs.Tallies
import Sandfall.Proofs.Emission
import Sandfall.Proofs.Drowsing
import Sandfall.Proofs.Slumber
import Sandfall.Proofs.Samplers
import Sandfall.Proofs.Verdict
import Sandfall.Proofs.Numerals
import Sandfall.Proofs.Tokens
import Sandfall.Proofs.Documents
import Sandfall.Proofs.Decoding
import Sandfall.Proofs.RuleText
import Sandfall.Proofs.Balance
import Sandfall.Proofs.Merging
import Sandfall.Proofs.Painting
import Sandfall.Proofs.Reconciled
import Sandfall.Proofs.Deferring
import Sandfall.Proofs.Courses
import Sandfall.Proofs.OwnCell
import Sandfall.Proofs.Spreading
import Sandfall.Proofs.Naming
import Sandfall.Proofs.Bundles
import Sandfall.Proofs.Checksums
import Sandfall.Proofs.Mosaic
import Sandfall.Proofs.Stamping
import Sandfall.Proofs.Counters
import Sandfall.Proofs.Values
import Sandfall.Proofs.Draws
import Sandfall.Proofs.Period
import Sandfall.Proofs.Repeats
import Sandfall.Proofs.Laps
