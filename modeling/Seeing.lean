import Seeing.Main
import Seeing.Proofs.Atmosphere.Document
import Seeing.Proofs.Atmosphere.Session
import Seeing.Proofs.Atmosphere.Streams
import Seeing.Proofs.Comparison.Independence
import Seeing.Proofs.Cutoff
import Seeing.Proofs.Exposure.LookUps
import Seeing.Proofs.Figure.Saving
import Seeing.Proofs.Fourier.Frequencies
import Seeing.Proofs.Fourier.Inversion
import Seeing.Proofs.Image.Accumulation
import Seeing.Proofs.Image.Flux
import Seeing.Proofs.Image.Rejection
import Seeing.Proofs.Image.Spacing
import Seeing.Proofs.Kick.Symmetry
import Seeing.Proofs.Moments.Budget
import Seeing.Proofs.Moments.Mirror
import Seeing.Proofs.Moments.Shape
import Seeing.Proofs.Moments.Symmetry
import Seeing.Proofs.PhaseScreen.Continuity
import Seeing.Proofs.PhaseScreen.Power
import Seeing.Proofs.PhaseScreen.Strength
import Seeing.Proofs.Pupil.Lattice
import Seeing.Proofs.Turbulence.Interpolation
import Seeing.Proofs.Turbulence.Lookup
import Seeing.Proofs.Turbulence.Wind
