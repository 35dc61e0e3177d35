import LogxControll.Lib.Run
import LogxControll.Core.ArrayRefinement
import LogxControll.Core.Queues
import LogxControll.Core.Prototype
import LogxControll.Wiring.WireIndex
import LogxControll.Usecases.LineSplitting
import LogxControll.Core.PortLookups
import LogxControll.Execution.FunctionalWrapper
import LogxControll.Execution.RingOscillator
import LogxControll.Execution.BoolFunctions
import LogxControll.Execution.BoolNetwork
import LogxControll.Execution.HookEvents
import LogxControll.Core.RefConservation
import LogxControll.Core.DebugHooks
import LogxControll.Core.DeferredCalls
import LogxControll.Core.ValueClone
import LogxControll.Core.SystemEvents
import LogxControll.Execution.TokenNetwork
import LogxControll.Threads.Lifecycle
import LogxControll.Threads.PoolExit
import LogxControll.Threads.PoolThreads
import LogxControll.Wiring.Destruction
import LogxControll.Wiring.Drivers
import LogxControll.Wiring.BoolWiring
import LogxControll.Wiring.Release
import LogxControll.Core.LibraryLookup
import LogxControll.Core.LibraryLoad
import LogxControll.Wiring.LabelEnumerations
import LogxControll.Wiring.Republishing
import LogxControll.Posix.SocketaddressCreate
import LogxControll.Core.Designators
import LogxControll.Core.Conversions
import LogxControll.Core.StructTypes
import LogxControll.Execution.SortNetwork
import LogxControll.Usecases.ConstGate
import LogxControll.Core.CircuitMaps
import LogxControll.Execution.HandlerAgreement
import LogxControll.Execution.DrivesPerPath
import LogxControll.Execution.FunctionNetwork
import LogxControll.Threads.PoolDrain
import LogxControll.Posix.BringUpBounds
import LogxControll.Core.SlotArrays
