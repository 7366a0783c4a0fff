import LevelCheck.Main
import LevelCheck.LogFilter
import LevelCheck.Syntax.Builder
import LevelCheck.ToolReport
import LevelCheck.Proofs.Table
import LevelCheck.Proofs.Growth
import LevelCheck.Proofs.Inspection
import LevelCheck.Proofs.Run
import LevelCheck.Proofs.WalkRun
import LevelCheck.Proofs.Settling
import LevelCheck.Proofs.Forest
import LevelCheck.Proofs.ForestGrowth
import LevelCheck.Proofs.Ownership
import LevelCheck.Proofs.RunHistory
import LevelCheck.Proofs.References
import LevelCheck.Proofs.TableRelations
import LevelCheck.Proofs.TypeUses
import LevelCheck.Proofs.MetReferences
import LevelCheck.Proofs.ReferenceFates
import LevelCheck.Proofs.ResolutionOrder
import LevelCheck.Proofs.FinalityAndLevels
import LevelCheck.Proofs.Lockstep
import LevelCheck.Proofs.WalkLockstep
import LevelCheck.Proofs.Levels
import LevelCheck.Proofs.DuplicateScopes
import LevelCheck.Proofs.ScopeChains
import LevelCheck.Proofs.OnwardNodes
import LevelCheck.Proofs.WalkTrail
import LevelCheck.Proofs.Records
import LevelCheck.Proofs.Nesting
import LevelCheck.Proofs.Coverage
import LevelCheck.Proofs.PreOrder
import LevelCheck.Proofs.SourceOrder
import LevelCheck.Proofs.Placeholders
import LevelCheck.Proofs.Lifecycle
import LevelCheck.Proofs.OpenClasses
import LevelCheck.Proofs.TreeFormat
import LevelCheck.Proofs.Independence
import LevelCheck.Proofs.ExpressionReading
import LevelCheck.Proofs.Repeats
import LevelCheck.Proofs.MirroredSource
import LevelCheck.Proofs.Supertypes
import LevelCheck.Proofs.DepthLimit
import LevelCheck.Proofs.Slots
import LevelCheck.Proofs.WrittenTypes
import LevelCheck.Proofs.LandedTypes
import LevelCheck.Proofs.Landings
import LevelCheck.Proofs.Pruning
import LevelCheck.Proofs.Attribution
import LevelCheck.Proofs.Surroundings
import LevelCheck.Proofs.TableCalls
import LevelCheck.Proofs.Visits
import LevelCheck.Proofs.VisitInduction
import LevelCheck.Proofs.Refusals
import LevelCheck.Proofs.ClassNames
import LevelCheck.Proofs.Naming
import LevelCheck.Proofs.Declared
import LevelCheck.Proofs.NameClashes
import LevelCheck.Proofs.ConstructorNames
import LevelCheck.Proofs.ReachableNodes
import LevelCheck.Proofs.Redefinitions
import LevelCheck.Proofs.HandedOut
import LevelCheck.Proofs.RequestOrder
import LevelCheck.Proofs.VariableDeclarations
import LevelCheck.Proofs.SimpleNames
import LevelCheck.Proofs.AfterVisits
import LevelCheck.Proofs.WithinClass
import LevelCheck.Proofs.Visibility
import LevelCheck.Proofs.Messages
import LevelCheck.Proofs.DeclaredRecords
import LevelCheck.Proofs.Finality
import LevelCheck.Proofs.Ancestors
import LevelCheck.Proofs.ObjectReferences
import LevelCheck.Proofs.OfferPlaces
import LevelCheck.Proofs.DottedNames
import LevelCheck.Proofs.MemberClasses
import LevelCheck.Proofs.Scanning
import LevelCheck.Proofs.IntegerArithmetic
import LevelCheck.Proofs.PrintedValues
import LevelCheck.Proofs.FailedLines
import LevelCheck.Proofs.Traversal
import LevelCheck.Proofs.Presentation
import LevelCheck.Proofs.Positions
