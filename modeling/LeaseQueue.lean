import LeaseQueue.Codec.Forms
import LeaseQueue.Location.Schema
import LeaseQueue.Scenario.Lifecycle
import LeaseQueue.Scenario.Signal
import LeaseQueue.Settings.Form
import LeaseQueue.Settings.Variables
import LeaseQueue.Task.Form
import LeaseQueue.Proofs.DelayFormulas
import LeaseQueue.Proofs.LeaseExclusivity
import LeaseQueue.Proofs.FailedOperations
import LeaseQueue.Proofs.OutcomeWrites
import LeaseQueue.Proofs.CommittedHistory
import LeaseQueue.Proofs.QueueDraining
import LeaseQueue.Proofs.PickSelection
import LeaseQueue.Proofs.RowWaiting
import LeaseQueue.Proofs.OutcomeRequests
import LeaseQueue.Proofs.EngineRuns
import LeaseQueue.Proofs.TaskRetention
import LeaseQueue.Proofs.NoTaskLost
import LeaseQueue.Proofs.RegistrationGate
import LeaseQueue.Proofs.DeadlockFreedom
import LeaseQueue.Proofs.PollAbandonment
import LeaseQueue.Proofs.VerdictEffects
import LeaseQueue.Proofs.BoundaryAgreement
import LeaseQueue.Proofs.TaskFailures
import LeaseQueue.Proofs.PoolPlans
import LeaseQueue.Proofs.ServiceRuns
import LeaseQueue.Proofs.StopStages
import LeaseQueue.Proofs.LoopRounds
import LeaseQueue.Proofs.ServiceAccounts
import LeaseQueue.Proofs.StopControl
import LeaseQueue.Proofs.PoolLifeCycle
import LeaseQueue.Proofs.LoopPlacement
import LeaseQueue.Proofs.ConfigurationGate
import LeaseQueue.Proofs.EndedLoops
import LeaseQueue.Proofs.PoolSettlement
import LeaseQueue.Proofs.PoolShutdown
import LeaseQueue.Proofs.ServiceTurns
import LeaseQueue.Proofs.LoopLives
import LeaseQueue.Proofs.TaskCourses
import LeaseQueue.Proofs.LoopHistories
import LeaseQueue.Proofs.ExecutorSlots
import LeaseQueue.Proofs.ExecutorTurns
import LeaseQueue.Proofs.ExecutorAdmission
import LeaseQueue.Proofs.ConsumerCalls
import LeaseQueue.Proofs.RowSources
import LeaseQueue.Proofs.ProducerBooks
import LeaseQueue.Proofs.Markets
import LeaseQueue.Proofs.Deliveries
import LeaseQueue.Proofs.TextForms
import LeaseQueue.Proofs.WrittenDurations
import LeaseQueue.Proofs.PrintedDurations
import LeaseQueue.Proofs.SettingsVariables
import LeaseQueue.Proofs.SchemaSafety
import LeaseQueue.Proofs.ConfigurationForms
import LeaseQueue.Proofs.WatchedSigns
import LeaseQueue.Proofs.ShutdownEnds
