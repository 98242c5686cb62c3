import VllmEcho.Echo.Accounting
import VllmEcho.Eplb.Exchange
import VllmEcho.Eplb.Placement
import VllmEcho.Eplb.PolicyTheorems
import VllmEcho.KVCache.CapacityTheorems
import VllmEcho.KVCache.HitTheftTheorems
import VllmEcho.KvPool.LayerTransfer
import VllmEcho.Layerwise.MambaTransfer
import VllmEcho.Multimodal.MirroredCaches
import VllmEcho.Pcp.MetadataTheorems
import VllmEcho.Recompute.ScheduledTokens
import VllmEcho.Request.Incremental
import VllmEcho.Sampling.BlockVerifyAgreement
import VllmEcho.Sampling.Lossless
import VllmEcho.Sampling.VectorSample
import VllmEcho.Sched.EncoderNeeds
import VllmEcho.StructuredOutput.BitmaskTheorems
import VllmEcho.StructuredOutput.ReasoningTheorems
import VllmEcho.Worker.BatchProjection
import VllmEcho.Worker.LogitsTheorems
import VllmEcho.Worker.SpecMetadata
import VllmEcho.Worker.SwapStates
