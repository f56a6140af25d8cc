import AbilityLite.CString
import AbilityLite.Run
import AbilityLite.Store
import AbilityLite.Slite.Record
import AbilityLite.Slite.AbilityList
import AbilityLite.Slite.Manager
import AbilityLite.Slite.SingleTask
import AbilityLite.Slite.MultiTasks
import AbilityLite.Slite.Service
import AbilityLite.Slite.Scheduling
import AbilityLite.Slite.Invariant
import AbilityLite.Slite.SingleTaskRuns
import AbilityLite.Slite.SingleTaskOverlap
import AbilityLite.Slite.MultiTasksRuns
import AbilityLite.Slite.MultiTasksThreads
import AbilityLite.Slite.MultiTasksRecovery
import AbilityLite.Slite.MultiTasksPermanent
import AbilityLite.Slite.MultiTasksRefusals
import AbilityLite.Slite.MultiTasksSavedData
import AbilityLite.Slite.Deferral
import AbilityLite.Ams.Record
import AbilityLite.Ams.PageAbility
import AbilityLite.Ams.StackManager
import AbilityLite.Ams.Tasks
import AbilityLite.Ams.AbilityThread
import AbilityLite.Ams.System
import AbilityLite.Ams.Effects
import AbilityLite.Ams.Steps
import AbilityLite.Ams.Shape
import AbilityLite.Ams.Stacks
import AbilityLite.Ams.Navigation
import AbilityLite.Ams.TaskCases
import AbilityLite.Ams.Turns
import AbilityLite.Ams.Runs
import AbilityLite.Ams.FailedStart
import AbilityLite.Ams.Links
import AbilityLite.Ams.ServiceClients
import AbilityLite.Ams.Clearing
import AbilityLite.Ams.Stopping
import AbilityLite.Ams.Foreground
import AbilityLite.Ams.AsPages
import AbilityLite.Ams.Missions
import AbilityLite.App.SliceScheduler
import AbilityLite.App.SliceNavigation
import AbilityLite.Ipc.Buffer
import AbilityLite.Ipc.Want
import AbilityLite.Ipc.AbilityThreadClient
import AbilityLite.Ipc.WantStream
import AbilityLite.Ipc.AbilityMsClient
import AbilityLite.App.Connections
import AbilityLite.WantLite.Uri
import AbilityLite.WantLite.Params
import AbilityLite.Slite.Tokens
import AbilityLite.Ams.Notices
import AbilityLite.Slite.Draining
import AbilityLite.Slite.ListCalls
import AbilityLite.Ams.ListReads
import AbilityLite.Ams.HandOver
import AbilityLite.Ams.PageWants
import AbilityLite.Mailbox
import AbilityLite.App.Process
import AbilityLite.Ams.Arrivals
import AbilityLite.Ams.Moves
import AbilityLite.Ams.Processes
import AbilityLite.Ams.Launches
import AbilityLite.Slite.Messages
import AbilityLite.Slite.Client
import AbilityLite.Ams.Ownership
import AbilityLite.Ams.Retired
import AbilityLite.Ams.Agreement
