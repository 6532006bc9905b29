import RangeFold.Number.Arithmetic
import RangeFold.Tensor.ElementType
import RangeFold.Tensor.Axis
import RangeFold.Tensor.Basic
import RangeFold.Attempt
import RangeFold.Graph.Typing
import RangeFold.Graph.Rewiring
import RangeFold.Graph.Pruning
import RangeFold.Graph.OrderMemory
import RangeFold.Graph.Soundness
import RangeFold.Graph.Equality
import RangeFold.Pattern.Matching
import RangeFold.Pattern.Description
import RangeFold.Pass.BoundFusion
import RangeFold.Pass.ConstantFolding
import RangeFold.Pass.Scripted
import RangeFold.Pipeline.Run
import RangeFold.Pipeline.Settings
import RangeFold.Proofs.Steps
import RangeFold.Proofs.Readiness
import RangeFold.Proofs.Graph.Places
import RangeFold.Proofs.Typing.Labels
import RangeFold.Proofs.Graph.Sound
import RangeFold.Proofs.Graph.Links
import RangeFold.Proofs.Graph.Redirection
import RangeFold.Proofs.Graph.Paths
import RangeFold.Proofs.Graph.Acyclic
import RangeFold.Proofs.Graph.Order
import RangeFold.Proofs.Graph.Propagation
import RangeFold.Proofs.Graph.Retyping
import RangeFold.Proofs.Graph.Attachment
import RangeFold.Proofs.Graph.Removal
import RangeFold.Proofs.Graph.Rewiring
import RangeFold.Proofs.Graph.Inference
import RangeFold.Proofs.Pipeline.Runs
import RangeFold.Proofs.Pass.Provided
import RangeFold.Proofs.Session
import RangeFold.Proofs.Refusal
import RangeFold.Proofs.Restoration
import RangeFold.Proofs.Meaning.Evaluation
import RangeFold.Proofs.Meaning.Edits
import RangeFold.Proofs.Meaning.Interface
import RangeFold.Proofs.Meaning.Chains
import RangeFold.Proofs.Meaning.Folding
import RangeFold.Proofs.Graph.Checks
import RangeFold.Proofs.Graph.Clearing
import RangeFold.Proofs.Graph.Substitution
import RangeFold.Proofs.Graph.Succession
import RangeFold.Proofs.Typing.Layout
import RangeFold.Proofs.Pass.Verdicts
import RangeFold.Proofs.Pass.BoundFusion
import RangeFold.Proofs.Pass.ConstantFolding
import RangeFold.Proofs.Pipeline.Schedules
import RangeFold.Proofs.Pass.Builtin
import RangeFold.Proofs.Pipeline.Advances
import RangeFold.Proofs.Convergence
import RangeFold.Proofs.Pass.Parts
import RangeFold.Proofs.Idempotence
import RangeFold.Proofs.Pipeline.Hints
import RangeFold.Proofs.Scheduling
import RangeFold.Proofs.Pipeline.Log
import RangeFold.Proofs.Pipeline.Applications
import RangeFold.Proofs.Bookkeeping
import RangeFold.Proofs.Tensor.Broadcast
import RangeFold.Proofs.Quantization.Snapping
import RangeFold.Proofs.Meaning.Elementwise
import RangeFold.Proofs.Fusion
import RangeFold.Proofs.Reports
import RangeFold.Proofs.Breakdown
import RangeFold.Proofs.Quantization.Validity
import RangeFold.Proofs.FoldingOutcome
import RangeFold.Proofs.FusionOutcome
import RangeFold.Proofs.Typing.Faults
import RangeFold.Proofs.Cycles
import RangeFold.Proofs.Effects
import RangeFold.Proofs.Graph.OrderMemory
import RangeFold.Proofs.Ordering
import RangeFold.Proofs.Pruning
import RangeFold.Proofs.Matching
import RangeFold.Proofs.Broadcasting
import RangeFold.Proofs.Rearrangement
import RangeFold.Proofs.PerTensor
import RangeFold.Proofs.Fitting
import RangeFold.Proofs.Resolution
import RangeFold.Proofs.Reordering
import RangeFold.Proofs.Squeezing
import RangeFold.Proofs.Number.Nearest
import RangeFold.Proofs.Quantization.Levels
import RangeFold.Proofs.Number.Rank
import RangeFold.Proofs.Number.Rounding
import RangeFold.Proofs.Quantization.Overflow
import RangeFold.Proofs.Bridging
import RangeFold.Proofs.Collapse
import RangeFold.Proofs.Naming
import RangeFold.Proofs.Graph.Turns
import RangeFold.Proofs.Assembly
import RangeFold.Proofs.Settlement
