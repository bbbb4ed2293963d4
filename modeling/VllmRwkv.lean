import VllmRwkv.Batch.Refresh
import VllmRwkv.Broadcast.Views
import VllmRwkv.Cache.Admission
import VllmRwkv.Cache.Announce
import VllmRwkv.Cache.Longest
import VllmRwkv.Engine.Detokenizer
import VllmRwkv.Hash.BlockHash
import VllmRwkv.Multimodal.MirroredCache
import VllmRwkv.Offload.Protocol
import VllmRwkv.Plan.Division
import VllmRwkv.Plan.ModelLen
import VllmRwkv.Pool.Replay
import VllmRwkv.Sched.InvalidBlocks
import VllmRwkv.Sched.LateOutputs
import VllmRwkv.Tool.RwkvParser
import VllmRwkv.Wave.InProc
import VllmRwkv.Worker.RwkvMetadata
import VllmRwkv.Worker.Sampler
import VllmRwkv.Worker.SlotMapping
