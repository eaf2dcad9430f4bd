import Reiny.Link.Delivery
import Reiny.Jobs.Outcome
import Reiny.Process.Resolution
import Reiny.Link.Answers
import Reiny.Process.Correlation
import Reiny.Engine.Bridge
import Reiny.Managed.Readiness
import Reiny.Step.Order
import Reiny.Step.Faults
import Reiny.Link.Correlation
import Reiny.Link.DataNumbers
import Reiny.Link.ErrorText
import Reiny.Link.Timeouts
import Reiny.Link.Declarations
import Reiny.Schema.Closure
import Reiny.Link.Presence
import Reiny.Pubsub.Latched
import Reiny.Process.Connection
import Reiny.Engine.SharedMemory
import Reiny.Link.Reception
import Reiny.Cli.Replay
import Reiny.Launch.Staging
import Reiny.Launch.Routes
import Reiny.Component.Lanes
import Reiny.Cli.Calendar
import Reiny.Launch.Acquire
import Reiny.Launch.RuntimeLibraries
import Reiny.Schema.Depends
import Reiny.Launch.Preparation
