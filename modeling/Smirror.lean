import Smirror.Base
import Smirror.Config.Resources
import Smirror.Config.Reload
import Smirror.Cron.Candidates
import Smirror.Cron.NotifyAll
import Smirror.Cron.Pool
import Smirror.Cron.Fanout
import Smirror.Cron.Dispatch
import Smirror.Cron.Tick
import Smirror.Contract.Response
import Smirror.Job.Actions
