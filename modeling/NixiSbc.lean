import NixiSbc.ByteWords
import NixiSbc.SlidingWindow
import NixiSbc.SrtpStream
import NixiSbc.Diagnostics
import NixiSbc.SrtpKeys
import NixiSbc.SrtpContext
import NixiSbc.SrtpTable
import NixiSbc.SrtpKeystream
import NixiSbc.SrtpPacket
import NixiSbc.SrtpRoundTrip
import NixiSbc.SrtpIsolation
import NixiSbc.SrtpRollover
import NixiSbc.Srtcp
import NixiSbc.Custody
import NixiSbc.PortAllocator
import NixiSbc.PortSystem
import NixiSbc.PortOwnership
import NixiSbc.SipFraming
import NixiSbc.SipStream
import NixiSbc.RawSip
import NixiSbc.SipReader
import NixiSbc.Stun
import NixiSbc.StunRoundTrip
import NixiSbc.StunIntegrity
import NixiSbc.Destinations
import NixiSbc.NumberPlan
import NixiSbc.SipBuilder
import NixiSbc.NetAddr
import NixiSbc.B2bua
import NixiSbc.CallLookup
import NixiSbc.InviteAttempts
import NixiSbc.ClientTx
import NixiSbc.ClientTxSchedule
import NixiSbc.InviteTx
import NixiSbc.InviteTxMemory
import NixiSbc.TrunkAccounting
import NixiSbc.CallSequence
import NixiSbc.SessionRefresh
import NixiSbc.SipRender
import NixiSbc.SipEdit
import NixiSbc.Topology
import NixiSbc.TimeQueue
import NixiSbc.UserLimits
import NixiSbc.Bans
import NixiSbc.BanHistory
import NixiSbc.BanRace
import NixiSbc.DosProtection
import NixiSbc.Eviction
import NixiSbc.Registrar
import NixiSbc.RegistrarCaps
import NixiSbc.RegisterOrder
import NixiSbc.Digest
import NixiSbc.DigestReplay
import NixiSbc.DigestRoundTrip
import NixiSbc.TextWords
import NixiSbc.Sdp
import NixiSbc.SdpRewrite
import NixiSbc.PortBooks
import NixiSbc.MediaSessions
import NixiSbc.CallManager
import NixiSbc.CallPorts
import NixiSbc.CallSetup
import NixiSbc.CallStates
import NixiSbc.FailoverClock
import NixiSbc.AckRelay
import NixiSbc.DialledNumber
import NixiSbc.InviteRetries
import NixiSbc.Teardown
import NixiSbc.CallHandlers
import NixiSbc.AttemptBound
import NixiSbc.CredentialLines
import NixiSbc.OutboundInvite
import NixiSbc.TrunkCredentials
import NixiSbc.CallLedger
import NixiSbc.Billing
import NixiSbc.AnsweredCalls
import NixiSbc.AttemptRecords
import NixiSbc.LateAnswers
import NixiSbc.Endpoints
import NixiSbc.RtpRelay
import NixiSbc.RelayLoop
import NixiSbc.Transcoding
import NixiSbc.SrtpSetup
import NixiSbc.WebRtcEndpoints
import NixiSbc.EndpointLearning
import NixiSbc.Acl
import NixiSbc.Hydration
import NixiSbc.HydrationParts
import NixiSbc.HydratedTrunks
import NixiSbc.HydrationFailures
import NixiSbc.HydrationAgreement
import NixiSbc.AddressTexts
import NixiSbc.Identity
import NixiSbc.CallerIdentity
import NixiSbc.Fingerprints
import NixiSbc.InDialogRequests
import NixiSbc.CallFrames
import NixiSbc.RelayedOrder
import NixiSbc.BuiltRequests
import NixiSbc.RefreshFlight
import NixiSbc.Blocks
import NixiSbc.PaddedText
import NixiSbc.Rfc3339
import NixiSbc.AddressParser
import NixiSbc.BanRows
import NixiSbc.BanStore
import NixiSbc.MediaAccounting
import NixiSbc.SdpFormats
import NixiSbc.PortExhaustion
import NixiSbc.PortGauge
import NixiSbc.Extensions
import NixiSbc.RequestRewrites
import NixiSbc.RateLimit
import NixiSbc.ReflectedCrc
import NixiSbc.StunResponse
import NixiSbc.BanEscalation
import NixiSbc.ReadModifyWrite
import NixiSbc.TrunkApi
import NixiSbc.TrunkEdits
import NixiSbc.TrunkApplications
import NixiSbc.TrunkConvergence
import NixiSbc.TrunkTasks
import NixiSbc.TrunkTaskSync
import NixiSbc.TrunkRegister
import NixiSbc.TrunkTransactions
import NixiSbc.RegisterLoops
import NixiSbc.AclText
import NixiSbc.RegisterContract
import NixiSbc.TrunkRouting
import NixiSbc.TextSearch
import NixiSbc.ViaReadings
import NixiSbc.InviteCopies
import NixiSbc.TransactionKeys
import NixiSbc.ContactGrammar
import NixiSbc.ViaParams
import NixiSbc.RenewedInvites
import NixiSbc.RenewedLines
import NixiSbc.CdrQueue
import NixiSbc.MediaClocks
import NixiSbc.HiddenBranches
import NixiSbc.DidResolution
import NixiSbc.AorForms
import NixiSbc.SdpRoundTrip
import NixiSbc.RepeatedAnswers
import NixiSbc.AckNumbers
import NixiSbc.FailedFailovers
import NixiSbc.TimerHeaders
import NixiSbc.CallerResponses
import NixiSbc.TextOrder
import NixiSbc.CdrQuery
import NixiSbc.KeysetPaging
import NixiSbc.CdrPaging
import NixiSbc.TrunkPatches
import NixiSbc.SocketParser
import NixiSbc.IceCandidates
import NixiSbc.Base64
import NixiSbc.SdesKeys
import NixiSbc.TranscoderSetup
import NixiSbc.DtmfRelay
import NixiSbc.OrderedMaps
import NixiSbc.ObjectTrees
import NixiSbc.ReloadKeys
import NixiSbc.ConfigOverlay
import NixiSbc.Reloads
import NixiSbc.KeyedRows
import NixiSbc.StoreImport
import NixiSbc.StoreRuns
import NixiSbc.StoreRestore
import NixiSbc.TrunkHealth
import NixiSbc.HealthEvents
