import Ntfw.Host.Exhausted
import Ntfw.Host.Churn
import Ntfw.Host.Map
import Ntfw.Host.Eviction
import Ntfw.Host.Interleaving
import Ntfw.Host.Locking
import Ntfw.Engine.DefaultDeny
import Ntfw.Engine.Directions
import Ntfw.Engine.Conversation
import Ntfw.Engine.RemoteAuth
import Ntfw.Engine.Validator
import Ntfw.Engine.Restart
import Ntfw.Engine.ClockSkew
import Ntfw.Engine.Ethertype
import Ntfw.Engine.Indices
import Ntfw.Engine.Meters
import Ntfw.Engine.RuleTable
import Ntfw.Engine.Message
import Ntfw.Engine.Charging
import Ntfw.Engine.Contention
import Ntfw.Driver.Quiescence
import Ntfw.Driver.Segregation
import Ntfw.Driver.Completion
import Ntfw.Driver.Attach
import Ntfw.Driver.Request
import Ntfw.Image.Saved
import Ntfw.Image.Typed
import Ntfw.Image.RoundTrip
import Ntfw.Image.Search
import Ntfw.Engine.Parsing
import Ntfw.Verification.Equation
