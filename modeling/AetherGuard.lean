import AetherGuard.Lib.Machine
import AetherGuard.Lib.Window
import AetherGuard.Lib.Queue
import AetherGuard.Lib.Threads
import AetherGuard.Wire
import AetherGuard.RelayRing
import AetherGuard.Proofs.RelayRing
import AetherGuard.RelayControl
import AetherGuard.Proofs.RelayControl
import AetherGuard.Lib.Framing
import AetherGuard.Proofs.WavHandles
import AetherGuard.Proofs.Wire
import AetherGuard.IqPool
import AetherGuard.Proofs.IqPool
import AetherGuard.PcmPool
import AetherGuard.Proofs.PcmPool
import AetherGuard.Proofs.SlotIndex
import AetherGuard.Control
import AetherGuard.Proofs.Control
import AetherGuard.Proofs.ScanExclusive
import AetherGuard.Proofs.Configured
import AetherGuard.Proofs.LastFreq
import AetherGuard.Proofs.RecordedFreq
import AetherGuard.Proofs.IqStream
import AetherGuard.ScanLink
import AetherGuard.Proofs.ScanLink
import AetherGuard.DataClients
import AetherGuard.Proofs.DataClients
import AetherGuard.Client
import AetherGuard.Proofs.Client
import AetherGuard.Pipeline
import AetherGuard.Proofs.Pipeline
import AetherGuard.SharedAudio
import AetherGuard.Proofs.SharedAudio
import AetherGuard.Gateway
import AetherGuard.LiveClients
import AetherGuard.Proofs.LiveClients
import AetherGuard.Waiters
import AetherGuard.Proofs.Waiters
import AetherGuard.LogStore
import AetherGuard.Proofs.LogStore
import AetherGuard.LogSearch
import AetherGuard.Proofs.LogSearch
import AetherGuard.Resampler
import AetherGuard.Proofs.Resampler
import AetherGuard.Lib.Blocks
import AetherGuard.Rechunk
import AetherGuard.Proofs.Rechunk
import AetherGuard.StationScan
import AetherGuard.Proofs.StationScan
import AetherGuard.PowerReading
import AetherGuard.Proofs.PowerReading
import AetherGuard.CtrlSocket
import AetherGuard.Proofs.CtrlSocket
import AetherGuard.Lib.Lines
import AetherGuard.Lib.Json
import AetherGuard.Messages
import AetherGuard.Proofs.Messages
import AetherGuard.OpenAi
import AetherGuard.Proofs.OpenAi
import AetherGuard.ControlLines
import AetherGuard.Proofs.ControlLines
import AetherGuard.MockSdr
import AetherGuard.Proofs.MockSdr
import AetherGuard.Summary
import AetherGuard.Proofs.Summary
import AetherGuard.Lib.Riff
import AetherGuard.WavReader
import AetherGuard.Proofs.WavReader
import AetherGuard.Proofs.WavFormat
import AetherGuard.Lib.Handles
import AetherGuard.Database
import AetherGuard.Proofs.DatabaseHandles
import AetherGuard.Proofs.DatabaseEffects
import AetherGuard.Lib.Strtod
import AetherGuard.SearchDispatch
import AetherGuard.Proofs.SearchDispatch
import AetherGuard.AgentChat
import AetherGuard.Proofs.AgentChat
import AetherGuard.IqLink
import AetherGuard.Proofs.IqCarried
import AetherGuard.Proofs.FrameParts
import AetherGuard.Proofs.IqDelivery
import AetherGuard.Proofs.IqLink
import AetherGuard.Lib.Recurrence
import AetherGuard.Lib.FloatRound
import AetherGuard.FmDemod
import AetherGuard.Proofs.Biquad
import AetherGuard.Proofs.FmDemod
import AetherGuard.Proofs.Carrier
import AetherGuard.CrowJson
import AetherGuard.Proofs.CrowText
import AetherGuard.Proofs.CrowFuel
import AetherGuard.Proofs.CrowJson
import AetherGuard.Bus
import AetherGuard.Proofs.Bus
import AetherGuard.Lib.Shadow
import AetherGuard.LiveAudio
import AetherGuard.LogsApi
import AetherGuard.Proofs.LiveAudio
import AetherGuard.Proofs.PcmRound
import AetherGuard.Proofs.LivePlayback
import AetherGuard.Proofs.LogsApi
import AetherGuard.Proofs.Recording
import AetherGuard.Proofs.RelayDevice
import AetherGuard.AgentPage
import AetherGuard.Proofs.AgentPage
