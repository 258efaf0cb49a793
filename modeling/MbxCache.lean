import MbxCache.Server.Integrity
import MbxCache.Server.WriteOnce
import MbxCache.Client.ManifestLoop
import MbxCache.Pack.Chunking
import MbxCache.Pack.Assembly
import MbxCache.Metadata.Interchange
import MbxCache.Concurrent.Solo
import MbxCache.Auth.KeyCache
import MbxCache.Server.Restore
import MbxCache.Server.Authority
import MbxCache.Server.ReadPaths
import MbxCache.Metadata.Postgres
import MbxCache.Server.Router
import MbxCache.Server.PackBatch
import MbxCache.Server.PackRoundTrip
import MbxCache.Server.PackCounting
import MbxCache.Server.SpoolMatches
import MbxCache.Server.LoneUpload
import MbxCache.Descriptors
import MbxCache.Auth.Algorithms
import MbxCache.Server.StrayEvents
import MbxCache.Server.BatchLookup
import MbxCache.Metadata.Sweep
import MbxCache.Server.RowAges
import MbxCache.Storage.FilesystemRuns
import MbxCache.Storage.GcsRuns
import MbxCache.Server.CanonicalJson
import MbxCache.Server.Healing
import MbxCache.Server.Neighbours
import MbxCache.Server.AccessRuns
import MbxCache.Server.Workflow
import MbxCache.Server.PackPolls
import MbxCache.Storage.S3Runs
import MbxCache.Storage.AzureService
import MbxCache.Storage.AzureCopies
import MbxCache.Server.OnDisk
import MbxCache.Server.Storing
import MbxCache.Server.Crashes
import MbxCache.Auth.Service
