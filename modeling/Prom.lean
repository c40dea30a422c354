import Prom.C.Heap
import Prom.Dga.SizeArithmetic
import Prom.Errm.Alignment
import Prom.Errm.Api
import Prom.Errm.Discipline
import Prom.Errm.Draining
import Prom.Errm.SavedArguments
import Prom.Errm.Survival
import Prom.Modules.AbsPath
import Prom.Modules.Contents
import Prom.Modules.Inits
import Prom.Modules.Removals
import Prom.Modules.RoundTrip
import Prom.Modules.SameDirectory
import Prom.Shell.Drain
import Prom.Shell.Keys
import Prom.Shell.Output
import Prom.Tracer.Ptrace
import Prom.Tracer.ReadString
import Prom.Tracer.ReadTrace
import Prom.Tracer.Handlers
import Prom.Tracer.OpenPolicy
import Prom.Tracer.SyscallCallback
import Prom.Tracer.SingleTracee
import Prom.Tracer.Interleaving
import Prom.Tracer.Descendants
import Prom.Tracer.Signals
import Prom.Tracer.Sandbox
import Prom.Tracer.Clients
import Prom.Shell.Resizing
import Prom.Modules.Catalogue
import Prom.Shell.Startup
