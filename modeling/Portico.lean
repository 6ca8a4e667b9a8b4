import Portico.Ws.Unmask
import Portico.Ws.Unicode
import Portico.Ws.FrameSize
import Portico.Ws.Backlog
import Portico.Ws.Feed
import Portico.Ws.Delivery
import Portico.Mpsc.Wakeup
import Portico.Loop.NewConnection
import Portico.Loop.Controls
import Portico.Loop.Lives
import Portico.Loop.Lookup
import Portico.Loop.Callbacks
import Portico.Loop.Fragments
import Portico.Loop.StreamLives
import Portico.Loop.Shutdown
import Portico.Http.Idle
import Portico.Http.Conditional
import Portico.Http.Precompressed
import Portico.Http.Redirect
import Portico.Http.Vhosts
import Portico.Http.Strtok
import Portico.Http.PartialContent
import Portico.Http.HeaderLimit
import Portico.Tls.Swap
import Portico.Aio.Progress
import Portico.Aio.Reaping
import Portico.Acme.Obtain
import Portico.Acme.Manager
import Portico.Ws.WriteBuffer
import Portico.Mpsc.Expand
