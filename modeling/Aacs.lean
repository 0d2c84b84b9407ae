import Aacs.Outcome
import Aacs.Bytes
import Aacs.Cursor
import Aacs.Bitmap
import Aacs.Usize
import Aacs.Limbs
import Aacs.Ladder
import Aacs.WordMask
import Aacs.Pratt
import Aacs.ShortCurve
import Aacs.CurveEval
import Aacs.EcGroup
import Aacs.Ec
import Aacs.EcField
import Aacs.Residues
import Aacs.EcPoint
import Aacs.PointGroup
import Aacs.PointEncoding
import Aacs.Aes
import Aacs.AesCipher
import Aacs.AesInverse
import Aacs.BinaryField
import Aacs.Cmac
import Aacs.Sha1
import Aacs.HashPadding
import Aacs.Ecdsa
import Aacs.Interact
import Aacs.Proc
import Aacs.Error
import Aacs.WideProduct
import Aacs.Mmc
import Aacs.Ake
import Aacs.AkeSoundness
import Aacs.SectorExtents
import Aacs.SectorRules
import Aacs.MockDrive
import Aacs.MockDriveRuns
import Aacs.SectorStore
import Aacs.DataKeys
import Aacs.GetConfiguration
import Aacs.Packs
import Aacs.CprmPacks
import Aacs.AkeAgreement
import Aacs.AkeStatus
import Aacs.DriveAuth
import Aacs.RecordStream
import Aacs.Mkb
import Aacs.MkbPayload
import Aacs.MkbStream
import Aacs.MkbReturns
import Aacs.MkbContent
import Aacs.MkbRecords
import Aacs.MkbWalk
import Aacs.MkbOffsets
import Aacs.MkbRevocation
import Aacs.ContentCertificate
import Aacs.ContentAuthoring
import Aacs.CertificateOffsets
import Aacs.CertificateSection
import Aacs.ContentHashTable
import Aacs.Crl
import Aacs.CrlWire
import Aacs.CrlOffsets
import Aacs.Triples
import Aacs.CrlSegmentation
import Aacs.CrlExact
import Aacs.CrlIssue
import Aacs.Text
import Aacs.TextLines
import Aacs.TextFields
import Aacs.KeyDb
import Aacs.KeyDbRecords
import Aacs.KeyDbSafety
import Aacs.KeyDbRows
import Aacs.KeyDbRun
import Aacs.KeyDbSkips
import Aacs.KeyDbScope
import Aacs.KeyDbFormat
import Aacs.KeyDbLegacyHex
import Aacs.KeyDbRoundTrip
import Aacs.KeyDbLabels
import Aacs.KeyDbTitles
import Aacs.KeyTree
import Aacs.Subdiff
import Aacs.MediaKey
import Aacs.UnitKey
import Aacs.UnitKeyLayout
import Aacs.UnitKeyOffsets
import Aacs.UnitKeyRegions
import Aacs.UsageFile
import Aacs.UsageFileBytes
import Aacs.CciBlocks
import Aacs.CciRoundTrip
import Aacs.UsageFileExact
import Aacs.CciStability
import Aacs.ParserBounds
import Aacs.Chaining
import Aacs.Content
import Aacs.AlignedUnit
import Aacs.Volume
import Aacs.SubdiffWalk
import Aacs.VolumeKeys
import Aacs.SubdiffPaths
import Aacs.SubdiffMasks
import Aacs.TitleKeys
import Aacs.EcdsaExact
import Aacs.Among
import Aacs.Codec
import Aacs.HashChain
import Aacs.HashCollisions
import Aacs.Online
import Aacs.ContentHash
import Aacs.KeyDbLookup
import Aacs.SubtreeKeys
import Aacs.Broadcast
import Aacs.Playback
import Aacs.DriveSession
import Aacs.ProtectedReads
import Aacs.SharedDrive
import Aacs.UnitDamage
import Aacs.CommandCodecs
import Aacs.FeatureCodec
import Aacs.DriveRequests
import Aacs.PayloadFormats
import Aacs.MkbIssue
