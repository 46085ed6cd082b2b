import Huatuo.Retransmit.CorrelationProof
import Huatuo.PcapFilter.RetargetProof
import Huatuo.Node.ManagerProof
import Huatuo.Job.Deadline
import Huatuo.Profiling.PipelineProof
import Huatuo.SchedBlame.WireProof
import Huatuo.Native.PhysicalUsageProof
import Huatuo.Pod.ContainerEventsProof
import Huatuo.Toolstream.Ownership
import Huatuo.IoControl.Conservation
import Huatuo.PcapFilter.BoundJumps
import Huatuo.Retransmit.Sequence
import Huatuo.PcapFilter.PatchLoadsProof
import Huatuo.Job.RecoverProof
import Huatuo.Storage.ElasticsearchProof
import Huatuo.Symbol.Budget
import Huatuo.Symbol.LoadAddress
import Huatuo.Symbol.Transparency
import Huatuo.SchedBlame.Attribution
import Huatuo.SchedBlame.Targets
import Huatuo.Kernel.Ratelimit
import Huatuo.Kernel.Reference
import Huatuo.IoControl.ResidenceProof
import Huatuo.IoLatency.CompletionProof
import Huatuo.IoTracing.SourceProof
import Huatuo.IrqTracing.SoftirqProof
import Huatuo.Native.OffCpuProof
import Huatuo.Profiling.Batch
import Huatuo.Profiling.PprofProof
import Huatuo.Profiling.Flamegraph
