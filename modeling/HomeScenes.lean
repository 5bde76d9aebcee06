import HomeScenes.Config
import HomeScenes.Demo
import HomeScenes.Engine.Hub
import HomeScenes.Engine.Upkeep
import HomeScenes.Wire.Device
import HomeScenes.Wire.Scene
import HomeScenes.Wire.TaskRecord
import HomeScenes.Proofs.DueQueue.Refinement
import HomeScenes.Proofs.DueQueue.Draining
import HomeScenes.Proofs.Dispatch.QuietPeriod
import HomeScenes.Proofs.Dispatch.Promptness
import HomeScenes.Proofs.Dispatch.Ticks
import HomeScenes.Proofs.Dispatch.Touches
import HomeScenes.Proofs.Dispatch.Sessions
import HomeScenes.Proofs.Engine.Coverage
import HomeScenes.Proofs.Engine.Duplicates
import HomeScenes.Proofs.Engine.Index
import HomeScenes.Proofs.Engine.Chain
import HomeScenes.Proofs.Engine.Lineage
import HomeScenes.Proofs.Engine.Quiescence
import HomeScenes.Proofs.Engine.RepeatDays
import HomeScenes.Proofs.Engine.Edits
import HomeScenes.Proofs.Engine.Firing
import HomeScenes.Proofs.Journal.Families
import HomeScenes.Proofs.Virtual.Replay
import HomeScenes.Proofs.Engine.Journaling
import HomeScenes.Proofs.Engine.Isolation
import HomeScenes.Proofs.Engine.Plans
import HomeScenes.Proofs.Wire.RoundTrip
import HomeScenes.Proofs.Engine.Refusal
import HomeScenes.Proofs.Engine.Renewal
import HomeScenes.Proofs.Engine.FanOut
import HomeScenes.Proofs.Engine.Batch
import HomeScenes.Proofs.Engine.Changes
import HomeScenes.Proofs.Calendar.LeapSeconds
import HomeScenes.Proofs.Journal.Retention
import HomeScenes.Proofs.SceneStore.Histories
import HomeScenes.Proofs.SceneStore.Names
import HomeScenes.Proofs.Calendar.DayShift
import HomeScenes.Proofs.Attribute
import HomeScenes.Proofs.Window
import HomeScenes.Proofs.Task
import HomeScenes.Proofs.Config.Loading
