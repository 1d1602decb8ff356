import Codex.Anthropic.RoleAlternation
import Codex.Anthropic.ThinkingReplay
import Codex.Anthropic.ToolAdjacency
import Codex.ApplyPatch.ExactDelta
import Codex.ApplyPatch.ParserAgreement
import Codex.ApplyPatch.Verification
import Codex.Context.HistoryRewrites
import Codex.Context.StableCompaction
import Codex.Copilot.Mapping
import Codex.ExecPolicy.Loading
import Codex.FileTools.DeniedReads
import Codex.FileTools.IndentedBlocks
import Codex.Gemini.CallNames
import Codex.Gemini.RoundTrip
import Codex.Gemini.SanitizedSchemas
import Codex.Mcp.UniqueNames
import Codex.RemoteControl.Delivery
import Codex.RemoteControl.OutboundSegments
import Codex.Rollout.AcknowledgedWrites
import Codex.Sandbox.EntryOrder
import Codex.Sandbox.FurtherDenials
import Codex.Sandbox.PermissionIntersection
import Codex.Sandbox.SignatureAccess
import Codex.Sandbox.WritableRootProjection
import Codex.Session.MessageHistory
import Codex.Session.RollbackSync
import Codex.Session.RollbackUndo
import Codex.Session.RolloutPositions
import Codex.ShellCommand.SafeCommands
import Codex.Sse.StreamEnd
import Codex.Sse.StreamingAgreement
import Codex.State.ThreadGoals
import Codex.StreamParser.ChunkIndependence
import Codex.Tools.Registry
import Codex.Turn.LoopBreak
import Codex.Turn.ToolAnswers
import Codex.Turn.TurnEnd
import Codex.UnifiedExec.OutputBuffer
import Codex.VectorSearch.InflightBuilds
