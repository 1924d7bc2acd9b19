import MarkupIds.Config.File
import MarkupIds.Engine
import MarkupIds.Logging
import MarkupIds.Proofs.Naming.Alphabet
import MarkupIds.Proofs.Naming.Shape
import MarkupIds.Proofs.Plan.Account
import MarkupIds.Proofs.Plan.Renaming
import MarkupIds.Proofs.Sfc.Rendering
import MarkupIds.Proofs.Sfc.Insertion
import MarkupIds.Proofs.Sfc.FullName
import MarkupIds.Proofs.Sfc.Layout
import MarkupIds.Proofs.Sfc.Growth
import MarkupIds.Proofs.Sfc.Revision
import MarkupIds.Proofs.Sfc.Section
import MarkupIds.Proofs.Sfc.Planned
import MarkupIds.Proofs.Engine
import MarkupIds.Proofs.Sfc.Roundtrip
import MarkupIds.Proofs.Collision
import MarkupIds.Proofs.Atomicity
import MarkupIds.Proofs.Splice
import MarkupIds.Proofs.Splice.Forward
import MarkupIds.Proofs.Sfc.Locality
import MarkupIds.Proofs.Sfc.Parts
import MarkupIds.Proofs.Script.Spans
import MarkupIds.Proofs.Script.Additions
import MarkupIds.Proofs.Sfc.Update
import MarkupIds.Proofs.Sfc.Apart
import MarkupIds.Proofs.Sfc.Agreement
import MarkupIds.Proofs.Sfc.Site
import MarkupIds.Proofs.Sfc.Overwrite
import MarkupIds.Proofs.Script.Overwrite
import MarkupIds.Proofs.ReadBack
import MarkupIds.Proofs.Sfc.Stretch
import MarkupIds.Proofs.Sfc.Faithful
import MarkupIds.Proofs.Naming.NormalForm
import MarkupIds.Proofs.Plan.Generation
import MarkupIds.Proofs.Script.Tag
import MarkupIds.Proofs.Script.Removal
import MarkupIds.Proofs.Script.Report
import MarkupIds.Proofs.Position
import MarkupIds.Proofs.Sfc.Region
import MarkupIds.Proofs.Sfc.Partition
import MarkupIds.Proofs.Placement
import MarkupIds.Proofs.Selector.Compound
import MarkupIds.Proofs.Selector.Rendering
import MarkupIds.Proofs.Naming.Choice
import MarkupIds.Proofs.Naming.Candidates
import MarkupIds.Proofs.Diff.Roundtrip
import MarkupIds.Proofs.Naming.Words
import MarkupIds.Proofs.Config.Restatement
