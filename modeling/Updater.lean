import Updater.Utils.Text
import Updater.ApplyPatch.Command
import Updater.ApplyPatch.TransferManager
import Updater.ApplyPatch.RetryResumption
import Updater.ApplyPatch.PartitionRecord
import Updater.Base.BoundedQueue
import Updater.Common.RingBuffer
import Updater.Common.RingBufferProperties
import Updater.Package.FlowDataStream
import Updater.FlowUpdate.BinProcess
import Updater.Base.Traced
import Updater.Base.TurnLoop
import Updater.Base.Records
import Updater.DiffPatch.BlocksPatch
import Updater.DiffPatch.BlocksPatchSafety
import Updater.DiffPatch.BlocksDiff
import Updater.DiffPatch.BlocksTiling
import Updater.DiffPatch.BlocksRoundTrip
import Updater.DiffPatch.ImageDiff
import Updater.DiffPatch.ImagePatch
import Updater.DiffPatch.ImageLayout
import Updater.DiffPatch.ImageRoundTrip
import Updater.DiffPatch.ZipImageDiff
import Updater.DiffPatch.ZipImageLayout
import Updater.DiffPatch.ZipImageBlocks
import Updater.DiffPatch.ZipImageRoundTrip
import Updater.Package.ShmDataStream
import Updater.Package.ShmDataStreamProperties
import Updater.Package.UpgradePkgFile
import Updater.Package.UpgradePkgCoverage
import Updater.Package.UpgradePkgLayout
import Updater.FlowUpdate.BinFlowUpdate
import Updater.FlowUpdate.BinFlowSlices
import Updater.ApplyPatch.BlockWriter
import Updater.ApplyPatch.NewDataHandshake
import Updater.ApplyPatch.NewDataDelivery
import Updater.UpdaterBinary.UpdateImagePatch
import Updater.FsManager.Partitions
import Updater.FsManager.PartitionChanges
import Updater.UpdaterBinary.UpdatePartitions
import Updater.Base.SparseFile
import Updater.Package.UpgradePkgPack
import Updater.Package.UpgradePkgRoundTrip
import Updater.Package.ZipPkgFile
import Updater.Package.ZipPkgLayout
import Updater.Package.PkgVerifyUtil
import Updater.Package.SignedZip
import Updater.Package.ZipPkgPack
import Updater.Package.ZipPkgRoundTrip
import Updater.Package.PkgSign
import Updater.Package.ZipPkgUnpack
import Updater.Package.ZipPkgIntact
import Updater.Utils.MiscMessage
import Updater.Utils.MiscArguments
import Updater.Script.ThreadPool
import Updater.Base.Machine
import Updater.Script.Values
import Updater.Script.Interpreter
import Updater.Script.InterpreterFailures
import Updater.Script.InterpreterScopes
import Updater.Script.ThreadPoolProperties
import Updater.Base.Memory
import Updater.PtableParse.Gpt
import Updater.Base.CrcRegister
import Updater.PtableParse.GptCrc
import Updater.PtableParse.UfsPtable
import Updater.PtableParse.BackupTable
import Updater.PtableParse.BackupTableAgreement
import Updater.Flashd.Commander
import Updater.Flashd.DaemonUpdater
import Updater.Flashd.DaemonSessions
import Updater.Flashd.FlashSession
import Updater.Base.Durability
import Updater.FactoryReset.SecureErase
import Updater.FactoryReset.SecureEraseRestarts
import Updater.StreamUpdate.TlvReaders
import Updater.StreamUpdate.BinChunkUpdate
import Updater.StreamUpdate.StreamSafety
import Updater.StreamUpdate.StreamTermination
import Updater.UpdaterBinary.UpdateProcessorStream
import Updater.Package.PkgManagerLoad
import Updater.Package.PkgManagerTruth
import Updater.PtableParse.PartitionTable
import Updater.PtableParse.EmmcPtable
import Updater.PtableParse.EmmcEdit
import Updater.PtableParse.PatchedHeader
import Updater.UpdaterKits.InstallRequest
import Updater.UpdaterKits.RequestSurvives
import Updater.Package.DosTime
import Updater.Package.Zip64Entry
import Updater.Package.GZipPkgFile
import Updater.Package.GZipRoundTrip
import Updater.ApplyPatch.BlockSetParse
import Updater.ApplyPatch.BlockSetIO
import Updater.ApplyPatch.StreamNewCommand
import Updater.ApplyPatch.MoveBlock
import Updater.Base.MemoryMove
import Updater.Base.CheckedMove
import Updater.ApplyPatch.CommandBuffers
import Updater.HashSignedData.ImgHashCheck
import Updater.HashSignedData.ImgHashTable
import Updater.HashSignedData.ImgHashSafety
import Updater.StreamUpdate.StreamAccounting
import Updater.ApplyPatch.CommandBufferSafety
import Updater.ApplyPatch.CommandEffects
import Updater.ApplyPatch.CrashSafety
import Updater.UpdaterMain.Options
import Updater.UpdaterMain.InstallPackages
import Updater.Base.History
import Updater.UpdaterMain.PackageProgress
import Updater.Package.CentralDirBounds
import Updater.DiffPatch.ImagePatchSafety
import Updater.Package.PkgStream
import Updater.Package.PkgAlgorithm
import Updater.Package.VerifiedUnpack
import Updater.Package.CopyTermination
import Updater.Package.PkgAlgoDeflate
import Updater.Package.InflateTermination
import Updater.Package.DeflateCompletion
import Updater.Package.PkgAlgoLz4
import Updater.Package.Lz4Records
import Updater.Package.Lz4PkgFile
import Updater.Package.Lz4RoundTrip
import Updater.Base.OutputFile
import Updater.DiffPatch.PatchShared
import Updater.Base.Bisection
import Updater.Base.CommonPrefix
import Updater.DiffPatch.MatchSearch
import Updater.Base.KeyedBlocks
import Updater.PtableParse.PartitionIndices
import Updater.PtableParse.ChangeGpt
import Updater.PtableParse.ImageBounds
import Updater.Base.StepRuns
import Updater.Package.StreamRegistry
import Updater.Base.ConsecutiveBlocks
import Updater.DiffPatch.Lz4Adapter
import Updater.DiffPatch.Lz4Blocks
import Updater.Base.Base64
import Updater.HashSignedData.Hsd
import Updater.HashSignedData.HsdLookup
import Updater.Base.Precedence
import Updater.Script.ExpressionGrammar
import Updater.Script.ExpressionMeaning
import Updater.Base.Rearrangement
import Updater.Base.SuffixOrder
import Updater.DiffPatch.SuffixCells
import Updater.Base.ThreeWay
import Updater.DiffPatch.SuffixPartition
import Updater.DiffPatch.SuffixBlocks
import Updater.DiffPatch.SuffixSplit
import Updater.DiffPatch.SuffixRounds
import Updater.DiffPatch.SuffixBuckets
import Updater.DiffPatch.SuffixSorted
import Updater.DiffPatch.BlocksTotal
import Updater.ApplyPatch.ListInstalled
import Updater.Base.LinkedCells
import Updater.Base.TextLines
import Updater.PtableParse.PackageTable
import Updater.SdcardUpdate.ChainMeaning
import Updater.UpdaterMain.ChildMessages
import Updater.UpdaterMain.RetryReboots
import Updater.UpdaterMain.RequestInstalled
