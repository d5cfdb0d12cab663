import StaleStore.Settings.Document
import StaleStore.Settings.Environment
import StaleStore.Settings.Json
import StaleStore.Simulation.Harness
import StaleStore.Store.Faulty
import StaleStore.Proofs.KeyOrder
import StaleStore.Proofs.Store.Groups
import StaleStore.Proofs.Store.Entries
import StaleStore.Proofs.Store.WholeListing
import StaleStore.Proofs.Store.Calls
import StaleStore.Proofs.Store.Effects
import StaleStore.Proofs.Store.Paging
import StaleStore.Proofs.Stale.Parts
import StaleStore.Proofs.Stale.Checks
import StaleStore.Proofs.Runs
import StaleStore.Proofs.Stale.Transparency
import StaleStore.Proofs.Stale.Overlay
import StaleStore.Proofs.Windows
import StaleStore.Proofs.Stale.History
import StaleStore.Proofs.Draws
import StaleStore.Proofs.Paths
import StaleStore.Proofs.Simulation.Lockstep
import StaleStore.Proofs.Stale.Failures
import StaleStore.Proofs.Stale.Budget
import StaleStore.Proofs.Stale.Queries
import StaleStore.Proofs.Stale.Pages
import StaleStore.Proofs.Directories
import StaleStore.Proofs.Stale.DirectoryListing
import StaleStore.Proofs.Stale.TidyRuns
import StaleStore.Proofs.Stale.UnseenDeletes
import StaleStore.Proofs.Stale.RepeatedDeletes
import StaleStore.Proofs.Prefixes
import StaleStore.Proofs.Stale.UnderPrefix
import StaleStore.Proofs.Stale.RestoreOrder
import StaleStore.Proofs.Stale.DirectoryWalk
import StaleStore.Proofs.Stale.Quiescence
import StaleStore.Proofs.Stale.Alike
import StaleStore.Proofs.Stale.SilentReads
import StaleStore.Proofs.Stale.UndelayedWrites
import StaleStore.Proofs.Store.LastWrites
import StaleStore.Proofs.Store.Atomicity
import StaleStore.Proofs.Store.Uploads
import StaleStore.Proofs.Stale.OtherKeys
import StaleStore.Proofs.Stale.Captures
import StaleStore.Proofs.Stale.BatchDeletes
import StaleStore.Proofs.Store.PageContents
import StaleStore.Proofs.Groupings
import StaleStore.Proofs.WayUp
import StaleStore.Proofs.Stale.LoneDelete
import StaleStore.Proofs.Stale.Resuming
import StaleStore.Proofs.Stale.LastVisible
import StaleStore.Proofs.Stale.Accounts
import StaleStore.Proofs.Stale.DelayAnswers
import StaleStore.Proofs.Simulation.Abreast
import StaleStore.Proofs.Probabilities
import StaleStore.Proofs.Stale.Tosses
import StaleStore.Proofs.PathNames
import StaleStore.Proofs.Store.SummaryText
