import FingerprintLab.Base.Str
import FingerprintLab.Base.Runes
import FingerprintLab.Base.Columns
import FingerprintLab.Base.Loops
import FingerprintLab.Base.Paths
import FingerprintLab.Base.Digest
import FingerprintLab.Base.Slice
import FingerprintLab.Base.Ranking
import FingerprintLab.Base.Runs
import FingerprintLab.Base.Interleave
import FingerprintLab.Base.Records
import FingerprintLab.Base.Writes
import FingerprintLab.Base.Checks
import FingerprintLab.Base.Lines
import FingerprintLab.Base.Buckets
import FingerprintLab.Base.Py
import FingerprintLab.Base.Json
import FingerprintLab.Base.Numeral
import FingerprintLab.Base.Returns
import FingerprintLab.Lab.Files
import FingerprintLab.Capture.Analyze
import FingerprintLab.Capture.Hello
import FingerprintLab.Capture.Decode
import FingerprintLab.Capture.Identity
import FingerprintLab.Capture.Grammar
import FingerprintLab.Capture.Grease
import FingerprintLab.Capture.Promote
import FingerprintLab.Capture.Reference
import FingerprintLab.Capture.Bounds
import FingerprintLab.Capture.Complete
import FingerprintLab.Capture.Peek
import FingerprintLab.Capture.Rejected
import FingerprintLab.Capture.Routing
import FingerprintLab.Capture.Whole
import FingerprintLab.Capture.Replay
import FingerprintLab.Labctl.Export
import FingerprintLab.Labctl.Rank
import FingerprintLab.Labctl.Naming
import FingerprintLab.Labctl.Outcome
import FingerprintLab.Labctl.Catalog
import FingerprintLab.Labctl.Stamp
import FingerprintLab.Labctl.Failure
import FingerprintLab.Labctl.Names
import FingerprintLab.Labctl.Extend
import FingerprintLab.Labctl.Archive
import FingerprintLab.Labctl.Words
import FingerprintLab.Labctl.ArchiveRun
import FingerprintLab.Labctl.Recapture
import FingerprintLab.Labctl.Merge
import FingerprintLab.Labctl.Attempt
import FingerprintLab.Labctl.Drift
import FingerprintLab.Labctl.Versions
import FingerprintLab.Labctl.Register
import FingerprintLab.Labctl.NormalForm
import FingerprintLab.Labctl.Truthful
import FingerprintLab.Labctl.Verify
import FingerprintLab.Labctl.Retain
import FingerprintLab.Labctl.Session
import FingerprintLab.Labctl.Slots
import FingerprintLab.Labctl.Compose
import FingerprintLab.Labctl.Runner
import FingerprintLab.Quic.Gather
import FingerprintLab.Quic.GatherRun
import FingerprintLab.Quic.Files
import FingerprintLab.Quic.Promote
import FingerprintLab.Quic.Observe
import FingerprintLab.Quic.History
import FingerprintLab.Quic.Recover
import FingerprintLab.Quic.Match
import FingerprintLab.Quic.Spelling
import FingerprintLab.Quic.Declared
import FingerprintLab.Quic.Templates
import FingerprintLab.Quic.ExportDist
import FingerprintLab.Quic.Draft
import FingerprintLab.Quic.Structural
import FingerprintLab.Quic.Sync
import FingerprintLab.Quic.Experiment
import FingerprintLab.Quic.Gate
import FingerprintLab.Quic.Confined
import FingerprintLab.Quic.Recognize
import FingerprintLab.Quic.Emit
