import PaneGrid.Container
import PaneGrid.Files.Disk
import PaneGrid.Main
import PaneGrid.Proofs.Agreement
import PaneGrid.Proofs.Blocks
import PaneGrid.Proofs.Bounds
import PaneGrid.Proofs.Coverage
import PaneGrid.Proofs.Diagnosis
import PaneGrid.Proofs.Endings
import PaneGrid.Proofs.Freshness
import PaneGrid.Proofs.Grammar
import PaneGrid.Proofs.Independence
import PaneGrid.Proofs.Iteration
import PaneGrid.Proofs.Labelling
import PaneGrid.Proofs.Outline
import PaneGrid.Proofs.Printing
import PaneGrid.Proofs.Refusals
import PaneGrid.Proofs.Registrations
import PaneGrid.Proofs.Removals
import PaneGrid.Proofs.Reversal
import PaneGrid.Proofs.Sides
import PaneGrid.Proofs.Stretching
import PaneGrid.Proofs.Tampering
import PaneGrid.Proofs.Termination
import PaneGrid.Proofs.Tiling
import PaneGrid.Proofs.Tracks
import PaneGrid.Proofs.Transposition
