import BackupSync.Maps
import BackupSync.Interruptible
import BackupSync.Checks
import BackupSync.RelativePath
import BackupSync.ContentHash
import BackupSync.Manifest
import BackupSync.ScanSnapshot
import BackupSync.UnreadablePaths
import BackupSync.ReadableScan
import BackupSync.Framing
import BackupSync.BlobCodec
import BackupSync.VersionStore
import BackupSync.Retention
import BackupSync.SafetyBaseline
import BackupSync.GarbageCollection
import BackupSync.BackupFolder
import BackupSync.HistoryRemoval
import BackupSync.StoreInvariant
import BackupSync.StoreCompleteness
import BackupSync.BackupOutcome
import BackupSync.VersionOrder
import BackupSync.ManifestAcceptance
import BackupSync.BlobInvariant
import BackupSync.Configuration
import BackupSync.RestoreVersion
import BackupSync.RestoredTree
import BackupSync.BackupRestore
import BackupSync.Replication
import BackupSync.ReplicaContents
import BackupSync.BackupCycle
import BackupSync.ReplicatedVersions
import BackupSync.DaemonState
import BackupSync.DaemonCycle
import BackupSync.ScanObligations
import BackupSync.OrderedWrites
import BackupSync.DaemonInterleaving
import BackupSync.InterleavedCycles
import BackupSync.ReplicaInterruption
import BackupSync.RestoredManifest
import BackupSync.RestoreTransaction
import BackupSync.FileTree
import BackupSync.RestoreFiles
import BackupSync.ConfinedRestore
import BackupSync.ByteSource
import BackupSync.BlobStreams
import BackupSync.BlobReaders
import BackupSync.BlobRoundTrip
import BackupSync.SafetyScans
import BackupSync.SafetyVerdicts
import BackupSync.SafetyMachine
import BackupSync.LargeDeletions
import BackupSync.BackupPreview
import BackupSync.PreviewAgreement
import BackupSync.Scrub
import BackupSync.ScrubReport
import BackupSync.OrderedLocks
import BackupSync.LinkedPaths
import BackupSync.StoreLeases
import BackupSync.LeaseSafety
import BackupSync.ReadableView
import BackupSync.ViewFolder
import BackupSync.ViewSync
import BackupSync.ViewStates
import BackupSync.SpaceReclaim
import BackupSync.SourceViews
import BackupSync.SourceRemoval
import BackupSync.ExcludedPaths
import BackupSync.IncrementalScan
import BackupSync.VersionListing
import BackupSync.StoreCopy
import BackupSync.Relocation
import BackupSync.KeptVersions
import BackupSync.Promotion
import BackupSync.StorageMove
import BackupSync.PreviewCounts
import BackupSync.IpcRequest
import BackupSync.LossyText
import BackupSync.LogTail
import BackupSync.EnvOverrides
import BackupSync.CivilTime
import BackupSync.CopyEngine
import BackupSync.CopyHistory
import BackupSync.WebEngine
import BackupSync.WebVaults
import BackupSync.WebVersions
import BackupSync.WebRestore
import BackupSync.WebSteps
import BackupSync.WebPromotion
import BackupSync.WebRejection
import BackupSync.UnchangedSources
import BackupSync.OwnOutput
import BackupSync.IpcEndpoint
import BackupSync.IoPolicy
import BackupSync.DurableFile
import BackupSync.StateFile
import BackupSync.VerifySchedule
import BackupSync.StoreHistory
import BackupSync.DaemonRestart
