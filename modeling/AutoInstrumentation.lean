import AutoInstrumentation.ShutdownAdmissionSound
import AutoInstrumentation.StackWalkGuardSound
import AutoInstrumentation.RuntimeSamplerSound
import AutoInstrumentation.Signature.ParseSound
import AutoInstrumentation.ThreadSamples.RoundTrip
import AutoInstrumentation.ReflectionName.ParserSound
import AutoInstrumentation.IL.RoundTrip
import AutoInstrumentation.SampleDelivery
import AutoInstrumentation.IntegrationRegistrySound
import AutoInstrumentation.NgenInlinersSound
import AutoInstrumentation.Redirection.MetadataSound
import AutoInstrumentation.Continuations.Sound
import AutoInstrumentation.NoCode.TypeNamesSound
import AutoInstrumentation.Cel.RoundTrip
import AutoInstrumentation.CallTarget.Emission
import AutoInstrumentation.Configurations.OtlpHeadersSound
import AutoInstrumentation.AssemblyBinding.ProbeDirectoriesSound
import AutoInstrumentation.NpgsqlTraceContextSound
import AutoInstrumentation.OpAmp.FullState
import AutoInstrumentation.OpAmp.LoaderSound
import AutoInstrumentation.DuckTyping.ProxyTypesSound
import AutoInstrumentation.DuckTyping.Bodies
import AutoInstrumentation.Lib.OrderedMap
import AutoInstrumentation.Lib.Table
import AutoInstrumentation.NetFxRuntimeCapture
import AutoInstrumentation.NetFxRuntimeCaptureSound
import AutoInstrumentation.ThreadStacksBuffer
import AutoInstrumentation.ThreadStacksBufferSound
import AutoInstrumentation.Enumerator
import AutoInstrumentation.RejitPreprocessor
import AutoInstrumentation.RejitPreprocessorSound
import AutoInstrumentation.Redirection.AttributeBlob
import AutoInstrumentation.Signature.Locals
import AutoInstrumentation.Signature.ModifyLocalSig
import AutoInstrumentation.Signature.ModifyLocalSigSizes
import AutoInstrumentation.Signature.ModifyLocalSigSound
import AutoInstrumentation.IL.MaxStack
import AutoInstrumentation.IL.MaxStackSound
import AutoInstrumentation.NativeWalk.ContinuationSound
import AutoInstrumentation.Signature.TypeNames
import AutoInstrumentation.Signature.TypeNamesSound
import AutoInstrumentation.AllocationSubSampler
import AutoInstrumentation.AllocationSubSamplerSound
import AutoInstrumentation.Cel.Evaluation
import AutoInstrumentation.Cel.IntegerExpressions
import AutoInstrumentation.Cel.IntegerExpressionsSound
import AutoInstrumentation.Cel.Lexemes
import AutoInstrumentation.Cel.RelationSound
import AutoInstrumentation.Cel.TokenizeSound
import AutoInstrumentation.Lib.History
import AutoInstrumentation.NamingHelper
import AutoInstrumentation.NamingHelperSound
import AutoInstrumentation.SamplingCadence
import AutoInstrumentation.SamplingCadenceSound
import AutoInstrumentation.SelectiveSampling
import AutoInstrumentation.SelectiveSamplingSound
import AutoInstrumentation.CallTarget.Around
import AutoInstrumentation.CallTarget.Clauses
import AutoInstrumentation.CallTarget.ClausesKept
import AutoInstrumentation.AssemblyBinding.Candidates
import AutoInstrumentation.AssemblyBinding.ConfigDocument
import AutoInstrumentation.CallTarget.Blocks
import AutoInstrumentation.CallTarget.EndMethodOnce
import AutoInstrumentation.CallTarget.OriginalRuns
import AutoInstrumentation.Lib.Locks
import AutoInstrumentation.Lib.Progress
import AutoInstrumentation.RejitQueue.Calls
import AutoInstrumentation.RejitQueue.Completion
import AutoInstrumentation.Lib.Splices
import AutoInstrumentation.Redirection.Trees
import AutoInstrumentation.Redirection.TreesSound
import AutoInstrumentation.Lib.Monitored
import AutoInstrumentation.StackCapture
import AutoInstrumentation.StackCaptureSound
import AutoInstrumentation.StackCaptureProgress
