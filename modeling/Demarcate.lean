import Demarcate.Completion
import Demarcate.Fresh
import Demarcate.Name.Codec
import Demarcate.Script.Play
import Demarcate.Script.Workspace
import Demarcate.Proofs.Memory.History
import Demarcate.Proofs.Git.Rows
import Demarcate.Proofs.Git.Branches
import Demarcate.Proofs.Git.Names
import Demarcate.Proofs.Git.Effects
import Demarcate.Proofs.Git.Layout
import Demarcate.Proofs.Git.Ancestry
import Demarcate.Proofs.Git.Chronicle
import Demarcate.Proofs.Git.ThreeWay
import Demarcate.Proofs.Git.Merging
import Demarcate.Proofs.Reachable
import Demarcate.Proofs.Frames
import Demarcate.Proofs.Work
import Demarcate.Proofs.Course
import Demarcate.Proofs.Contents
import Demarcate.Proofs.Places
import Demarcate.Proofs.Steps
import Demarcate.Proofs.Balance
import Demarcate.Proofs.Nesting
import Demarcate.Proofs.Pending
import Demarcate.Proofs.Atomicity
import Demarcate.Proofs.Git.Reading
import Demarcate.Proofs.Views
import Demarcate.Proofs.Traffic
import Demarcate.Proofs.Upkeep
import Demarcate.Proofs.Snapshot
import Demarcate.Proofs.Git.Renumbering
import Demarcate.Proofs.Alongside
import Demarcate.Proofs.Erasure
import Demarcate.Proofs.Json.Tokens
import Demarcate.Proofs.Json.Spelling
import Demarcate.Proofs.Json.Values
import Demarcate.Proofs.Codec
import Demarcate.Proofs.Git.Legibility
import Demarcate.Proofs.Memory.Overlay
import Demarcate.Proofs.Exercise
import Demarcate.Proofs.Undated
import Demarcate.Proofs.Git.BranchNames
import Demarcate.Proofs.Git.Solo
import Demarcate.Proofs.Agreement
import Demarcate.Proofs.Git.Drafts
import Demarcate.Proofs.Drafting
import Demarcate.Proofs.Commuting
import Demarcate.Proofs.Fate
import Demarcate.Proofs.Git.Shape
import Demarcate.Proofs.Custody
import Demarcate.Proofs.Trimming
import Demarcate.Proofs.Opening
import Demarcate.Proofs.Manning
import Demarcate.Proofs.Sweeping
import Demarcate.Proofs.Conflicts
import Demarcate.Proofs.Refusals
import Demarcate.Proofs.Founding
import Demarcate.Proofs.Invocation
import Demarcate.Proofs.Kinds
import Demarcate.Proofs.Memory.Keeping
import Demarcate.Proofs.Scanning
import Demarcate.Proofs.Serialization
import Demarcate.Proofs.Heading
import Demarcate.Proofs.Lineage
import Demarcate.Proofs.Memory.Lineages
import Demarcate.Proofs.Git.Lineages
import Demarcate.Proofs.Descent
import Demarcate.Proofs.Coverage
import Demarcate.Proofs.Grammar
import Demarcate.Proofs.RowPaths
import Demarcate.Proofs.Admission
import Demarcate.Proofs.Bookkeeping
