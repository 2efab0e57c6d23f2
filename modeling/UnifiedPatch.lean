import UnifiedPatch.Main
import UnifiedPatch.Settings.Reading
import UnifiedPatch.Proofs.SpliceHunks
import UnifiedPatch.Proofs.SectionHunkless
import UnifiedPatch.Proofs.TreeInvariant
import UnifiedPatch.Proofs.PatchText
import UnifiedPatch.Proofs.SpliceSection
import UnifiedPatch.Proofs.SectionRun
import UnifiedPatch.Proofs.NameAnchors
import UnifiedPatch.Proofs.PatchAppend
import UnifiedPatch.Proofs.SpliceMerge
import UnifiedPatch.Proofs.SpliceReverse
import UnifiedPatch.Proofs.SectionForward
import UnifiedPatch.Proofs.HunkCount
import UnifiedPatch.Proofs.SectionStray
import UnifiedPatch.Proofs.SpliceMirror
import UnifiedPatch.Proofs.SpliceAgain
import UnifiedPatch.Proofs.DryRun
import UnifiedPatch.Proofs.SpliceCursors
import UnifiedPatch.Proofs.SectionBackup
import UnifiedPatch.Proofs.RunFailures
import UnifiedPatch.Proofs.PatchHandedOn
import UnifiedPatch.Proofs.PatchCommute
import UnifiedPatch.Proofs.RunProgress
import UnifiedPatch.Proofs.SpliceDone
import UnifiedPatch.Proofs.SpliceDiff
import UnifiedPatch.Proofs.TargetOpening
import UnifiedPatch.Proofs.LineJoining
import UnifiedPatch.Proofs.LineCursor
import UnifiedPatch.Proofs.WrittenLines
import UnifiedPatch.Proofs.MarkerNames
import UnifiedPatch.Proofs.SectionSearch
import UnifiedPatch.Proofs.HeaderForm
import UnifiedPatch.Proofs.RunReports
