import Rxs.Core.LTS
import Rxs.Core.Bytes
import Rxs.Core.JsonText
import Rxs.Core.Ledger
import Rxs.Core.Scanner
import Rxs.Core.HashTree
import Rxs.Core.Relate
import Rxs.Core.Chunked
import Rxs.Core.BackJump
import Rxs.Core.Masks
import Rxs.L1Encoding.BlobReader
import Rxs.L1Encoding.BlockTemplate
import Rxs.L1Encoding.ParseForward
import Rxs.L1Encoding.MerkleTree
import Rxs.L1Encoding.ParseHistory
import Rxs.L1Encoding.Header
import Rxs.L1Encoding.WalletAddress
import Rxs.L1Encoding.CanonicalAddress
import Rxs.L1Encoding.Reparse
import Rxs.L1Encoding.Cvt
import Rxs.L1Encoding.LineReader
import Rxs.L1Encoding.Resync
import Rxs.L1Encoding.Json
import Rxs.L1Encoding.JsonAccess
import Rxs.L2Machine.Job
import Rxs.L2Machine.JobText
import Rxs.L2Machine.RxQueue
import Rxs.L2Machine.Nonce
import Rxs.L2Machine.CpuWorker
import Rxs.L2Machine.RandomX
import Rxs.L2Machine.BytecodeMachine
import Rxs.L2Machine.Cbranch
import Rxs.L3Protocol.Accesses
import Rxs.L3Protocol.Client
import Rxs.L3Protocol.Socks5
import Rxs.L3Protocol.OneSocket
import Rxs.L3Protocol.Lined
import Rxs.L3Protocol.Silence
import Rxs.L3Protocol.Failover
import Rxs.L3Protocol.SelfSelect
import Rxs.L3Protocol.Daemon
import Rxs.L3Protocol.DaemonReject
import Rxs.L3Protocol.DaemonSubmit
import Rxs.L3Protocol.SendBuffer
import Rxs.L3Protocol.Session
import Rxs.L3Protocol.LoginAnswer
import Rxs.L3Protocol.ShareAccount
import Rxs.L3Protocol.DnsUvBackend
import Rxs.L3Protocol.HttpClient
import Rxs.L3Protocol.HttpContext
import Rxs.L3Protocol.Zmq
import Rxs.L3Protocol.ZmqChunks
import Rxs.L3Protocol.ZmqFraming
import Rxs.L3Protocol.DaemonLife
import Rxs.L3Protocol.ZmqLife
import Rxs.L3Protocol.Disconnect
import Rxs.L3Protocol.Tls
import Rxs.L3Protocol.NoDowngrade
import Rxs.L4App.ApiRequest
import Rxs.L4App.Miner
import Rxs.L4App.Pools
import Rxs.L4App.ProxyConnect
import Rxs.L4App.UrlGrammar
import Rxs.L5Concurrency.SeedAgreement
import Rxs.L5Concurrency.NonceReset
import Rxs.L5Concurrency.NonceUnique
import Rxs.L5Concurrency.ConfigAgreement
import Rxs.L5Concurrency.DatasetWait
import Rxs.L5Concurrency.PauseFlag
import Rxs.L5Concurrency.StopDrains
import Rxs.L5Concurrency.ResultIntegrity
import Rxs.L5Concurrency.TemplateAgreement
import Rxs.L5Concurrency.OriginSubmission
import Rxs.Core.X86
import Rxs.L2Machine.JitCompilerX86
import Rxs.L2Machine.JitBlock
import Rxs.L2Machine.JitLayout
import Rxs.L2Machine.JitControl
import Rxs.L2Machine.CfroundElimination
import Rxs.L2Machine.JitAssembly
import Rxs.L2Machine.JitInteger
import Rxs.L2Machine.InterpretedVm
import Rxs.L2Machine.DatasetSlices
import Rxs.Core.Outcome
import Rxs.L2Machine.Superscalar
import Rxs.L2Machine.SuperscalarSafety
import Rxs.L4App.AutoPause
import Rxs.Core.Region
import Rxs.L2Machine.MemoryPool
import Rxs.L2Machine.VmPool
import Rxs.L4App.ApiAccess
import Rxs.L4App.PoolEdit
import Rxs.L4App.ConfigReject
import Rxs.Core.Binary64
import Rxs.L4App.HwlocCpuInfo
import Rxs.L2Machine.RxNUMAStorage
import Rxs.Core.Fusion
import Rxs.L2Machine.AesHash
import Rxs.L2Machine.Pipeline
import Rxs.L5Concurrency.Benchmark
import Rxs.Core.Steady
import Rxs.Core.Yields
import Rxs.L1Encoding.Base58
import Rxs.L1Encoding.AddressState
import Rxs.L1Encoding.HashTable
import Rxs.L1Encoding.Varint
import Rxs.L2Machine.HashingBlob
import Rxs.L2Machine.Signatures
import Rxs.L3Protocol.Difficulty
import Rxs.L5Concurrency.NonceRange
import Rxs.Core.Avx2
import Rxs.Core.Avx2Logic
import Rxs.Core.HalfProducts
import Rxs.L2Machine.DatasetFragments
import Rxs.L2Machine.DatasetLanes
import Rxs.Core.Memory
import Rxs.L2Machine.DatasetItem
import Rxs.L2Machine.SuperscalarCode
import Rxs.L2Machine.SuperscalarAssembly
import Rxs.L2Machine.SuperscalarLanes
import Rxs.L2Machine.Reciprocal
import Rxs.L2Machine.JitStatic
import Rxs.L2Machine.SuperscalarHash
import Rxs.L2Machine.DatasetInit
import Rxs.Core.BinarySearch
import Rxs.L4App.AlgorithmName
import Rxs.Core.RingBuffer
import Rxs.L2Machine.HashrateWindow
import Rxs.Core.SortedMap
import Rxs.L2Machine.CString
import Rxs.L4App.ThreadProfiles
import Rxs.L4App.CpuConfigGen
import Rxs.Core.Substitution
import Rxs.L4App.EnvExpand
import Rxs.L4App.PoolRoundTrip
import Rxs.L2Machine.MsrItem
import Rxs.L4App.RxConfig
import Rxs.Core.Buffer
import Rxs.L1Encoding.DmiReader
import Rxs.L1Encoding.DmiWalk
import Rxs.Core.Registers
import Rxs.L2Machine.RxMsr
import Rxs.L2Machine.SuperscalarSlots
import Rxs.L2Machine.SuperscalarCodeSize
import Rxs.Core.Largest
import Rxs.L3Protocol.BestShares
import Rxs.Core.Arena
import Rxs.L2Machine.MemPool
import Rxs.Core.Escapes
import Rxs.L2Machine.Log
import Rxs.Core.Channel
import Rxs.L5Concurrency.JobResults
import Rxs.L2Machine.LightVm
import Rxs.Core.Gf256
import Rxs.Core.Aes
import Rxs.L2Machine.SoftAes
import Rxs.Core.BlockStream
import Rxs.Core.Blake2b
import Rxs.L1Encoding.Blake2b
import Rxs.L1Encoding.Blake2bSimd
import Rxs.L1Encoding.Blake2bAvx2
import Rxs.L2Machine.RandomXHash
import Rxs.Core.Unwritten
import Rxs.Core.Blamka
import Rxs.L1Encoding.Blake2bLong
import Rxs.L2Machine.Argon2
import Rxs.L2Machine.Argon2Round
import Rxs.L2Machine.Argon2Simd
import Rxs.L2Machine.Scalars
import Rxs.L2Machine.InitCache
