import SketchForm.Session.Consoles
import SketchForm.Session.Drawings
import SketchForm.Proofs.Agreement
import SketchForm.Proofs.Occurrence
import SketchForm.Proofs.Upkeep
import SketchForm.Proofs.Decoding
import SketchForm.Proofs.Repetition
import SketchForm.Proofs.Reuse
import SketchForm.Proofs.Completion
import SketchForm.Proofs.Flattening
import SketchForm.Proofs.FirstMode
import SketchForm.Proofs.Coverage
import SketchForm.Proofs.Obstruction
import SketchForm.Proofs.Interruption
import SketchForm.Proofs.Likeness
import SketchForm.Proofs.Partition
import SketchForm.Proofs.Footprint
import SketchForm.Proofs.Logging
import SketchForm.Proofs.Exactness
import SketchForm.Proofs.Replacement
import SketchForm.Proofs.Composition
import SketchForm.Proofs.Appending
import SketchForm.Proofs.Skipping
import SketchForm.Proofs.Grouping
import SketchForm.Proofs.Adjoining
import SketchForm.Proofs.Recovery
import SketchForm.Proofs.Malformed
import SketchForm.Proofs.Accounting
import SketchForm.Proofs.Untagged
import SketchForm.Proofs.Interning
import SketchForm.Proofs.SixNumbers
