import AmbaPci.H2dOneCard
import AmbaPci.HotplugEvents
import AmbaPci.ImageWindows
import AmbaPci.RingAccesses
import AmbaPci.RingRetry
import AmbaPci.ImageDelivery
import AmbaPci.BlockBounds
import AmbaPci.ImageArithmetic
import AmbaPci.RingLayout
import AmbaPci.XferOutcome
import AmbaPci.BootTimeouts
import AmbaPci.DeviceRefs
import AmbaPci.SlotCollisions
import AmbaPci.BoardInfoCache
import AmbaPci.DriverCalls
import AmbaPci.InteractionPool
import AmbaPci.ProcDeadlocks
import AmbaPci.RemovalWindows
import AmbaPci.H2dBounds
import AmbaPci.H2dDelivery
import AmbaPci.RebootGrammar
import AmbaPci.PollTimeouts
import AmbaPci.IoctlErrnos
import AmbaPci.BootMappings
import AmbaPci.MappingRuns
import AmbaPci.RingFlow
import AmbaPci.PostPoints
import AmbaPci.FlowControl
import AmbaPci.DevInfoText
import AmbaPci.AccessRules
import AmbaPci.TextFormat
import AmbaPci.ProcText
import AmbaPci.ReadSnapshots
import AmbaPci.ModuleRuns
import AmbaPci.DriverLenders
import AmbaPci.BlockReuse
