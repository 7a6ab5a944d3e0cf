import Acva.Core.Runs
import Acva.Core.Places
import Acva.Core.Slots
import Acva.Core.Ledger
import Acva.Core.Tiling
import Acva.Core.TrailingRun
import Acva.Event.BoundedFifo
import Acva.Event.Bus
import Acva.Event.SelfDelivery
import Acva.Event.Shutdown
import Acva.Audio.LiveSink
import Acva.Audio.Lifecycle
import Acva.Dialogue.BargeIn
import Acva.Dialogue.Fsm.StaleReply
import Acva.Dialogue.Fsm.Accounting
import Acva.Dialogue.Fsm.ReplyOrder
import Acva.Dialogue.Fsm.BargeInUtterance
import Acva.Dialogue.SentenceSplitter
import Acva.Dialogue.SentenceEnds
import Acva.Dialogue.SentenceCover
import Acva.Dialogue.CodeFence
import Acva.Dialogue.Manager.Machine
import Acva.Dialogue.Manager.Reply
import Acva.Dialogue.Manager.LateSentence
import Acva.Dialogue.Manager.SentenceCap
import Acva.Dialogue.Manager.Cancellation
import Acva.Dialogue.Manager.Interleaving
import Acva.Dialogue.TurnWriter.Machine
import Acva.Dialogue.TurnWriter.Calculus
import Acva.Dialogue.TurnWriter.Heard
import Acva.Dialogue.TurnWriter.AnyOrder
import Acva.Dialogue.TtsBridge.Calculus
import Acva.Dialogue.TtsBridge.Accounting
import Acva.Memory.Repository
import Acva.Memory.Shutdown
import Acva.Memory.SummaryRanges
import Acva.Llm.SseParser
import Acva.Llm.SseLineEndings
import Acva.Llm.Submission
import Acva.Stt.Transcripts
import Acva.Stt.Envelope
import Acva.Playback.Conservation
import Acva.Playback.Drain
import Acva.Playback.Rendering
import Acva.Playback.Reference
import Acva.Supervisor.Outage
import Acva.Orchestrator.DialogueStack
import Acva.Orchestrator.TurnIds
import Acva.Orchestrator.Wiring
import Acva.Orchestrator.ReplyPersistence
import Acva.Orchestrator.ExchangePrompt
import Acva.Orchestrator.MemoryRejection
import Acva.Orchestrator.BargeInSilence
import Acva.Orchestrator.StreamedAudio
import Acva.Orchestrator.CancelledTurn
import Acva.Orchestrator.OwnTurn
import Acva.Audio.LoopbackHistory
import Acva.Llm.PromptWindow
import Acva.Audio.Wav
import Acva.Audio.WavWalk
import Acva.Dialogue.TtsBridge.Tokens
import Acva.Core.KeyedRows
import Acva.Core.Transactions
import Acva.Memory.Database
import Acva.Memory.Recovery
import Acva.Memory.RecoveryFailure
import Acva.Memory.Facts
import Acva.Memory.SourceWindow
import Acva.Core.Records
import Acva.Memory.SourceText
import Acva.Memory.TriggerCount
import Acva.Core.Stretches
import Acva.Dialogue.TtsBridge.SentenceRuns
import Acva.Audio.WavCopy
import Acva.Audio.WavRoundTrip
import Acva.Audio.UtteranceSlices
import Acva.Audio.EchoBlocks
import Acva.Audio.EndpointerTiming
import Acva.Audio.UtteranceStart
import Acva.Tts.OpenAiTtsClient
import Acva.Audio.Clock
import Acva.Audio.Capture
import Acva.Audio.HalfDuplexGate
import Acva.Dialogue.BargeInOnce
import Acva.Supervisor.ServiceHistory
import Acva.Audio.SpscInterleaving
import Acva.Core.Maps
import Acva.Config.Config
import Acva.Config.Aliases
import Acva.Config.Validate
import Acva.Tts.VoiceRoute
import Acva.Core.JsonString
import Acva.Core.Json
import Acva.Log.JsonEscape
import Acva.Tts.RequestBody
import Acva.Core.JsonText
import Acva.Stt.RealtimeWire
import Acva.Stt.RealtimeAudio
import Acva.Log.JsonSink
import Acva.Pipeline.DriverTurns
import Acva.Dialogue.Fsm.StateEdges
import Acva.Orchestrator.CaptureStack
import Acva.Orchestrator.HalfDuplex
import Acva.Core.Mailboxes
import Acva.Event.PublisherOrder
import Acva.Audio.Vad
import Acva.Playback.Conveyance
import Acva.Orchestrator.SpokenTurns
import Acva.Core.Stopwatch
import Acva.Metrics.Registry
import Acva.Core.Handoff
import Acva.Playback.LatencyTimer
import Acva.Stt.BringUp
import Acva.Stt.Handshake
import Acva.Tts.Submission
import Acva.Orchestrator.Synthesis
import Acva.Stt.OpenAiSttClient
import Acva.Orchestrator.RequestStt
import Acva.Core.Substring
import Acva.Orchestrator.SystemAec
import Acva.Orchestrator.SharedCanceller
