import FactoryFloor.ArtifactStores
import FactoryFloor.Base64
import FactoryFloor.BoundedLogs
import FactoryFloor.CancelledTrees
import FactoryFloor.CanonicalJson
import FactoryFloor.CodePoints
import FactoryFloor.CommandRaces
import FactoryFloor.ConfinedSessions
import FactoryFloor.Confinement
import FactoryFloor.Declarations
import FactoryFloor.DelegatedBudgets
import FactoryFloor.DeletedResults
import FactoryFloor.DraftPullRequests
import FactoryFloor.EventBatches
import FactoryFloor.EventStreams
import FactoryFloor.ExternalRecovery
import FactoryFloor.FanIn
import FactoryFloor.GraphReplay
import FactoryFloor.HandedOut
import FactoryFloor.InitialStates
import FactoryFloor.Knowledge
import FactoryFloor.Leaks
import FactoryFloor.LiveFeed
import FactoryFloor.ModuleRecipe
import FactoryFloor.Ownership
import FactoryFloor.PatchFidelity
import FactoryFloor.PoisonedGroups
import FactoryFloor.Proposals
import FactoryFloor.PythonJson
import FactoryFloor.RecipePlans
import FactoryFloor.RecipeReruns
import FactoryFloor.RecoveryBatches
import FactoryFloor.RegisteredOnce
import FactoryFloor.Registrations
import FactoryFloor.RenderedModules
import FactoryFloor.RenderedTests
import FactoryFloor.Replacements
import FactoryFloor.ReplaySafety
import FactoryFloor.RoutedOnce
import FactoryFloor.RunAlerts
import FactoryFloor.RunEvents
import FactoryFloor.RunIsolation
import FactoryFloor.RunStatus
import FactoryFloor.SafeBatches
import FactoryFloor.SafeIntegers
import FactoryFloor.StableSorts
import FactoryFloor.StagedPages
import FactoryFloor.StagedPublication
import FactoryFloor.StateHistory
import FactoryFloor.StateVersions
import FactoryFloor.StoreAgreement
import FactoryFloor.TemplateCalls
import FactoryFloor.TemplateParameters
import FactoryFloor.TextFrames
import FactoryFloor.TypeScriptLiterals
import FactoryFloor.TypeScriptText
import FactoryFloor.ValidationCaches
import FactoryFloor.WorkerEncoders
import FactoryFloor.WorkerFleet
import FactoryFloor.WorkerRunner
