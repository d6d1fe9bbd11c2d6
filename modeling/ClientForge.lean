import ClientForge.Api.Endpoint
import ClientForge.Api.Model
import ClientForge.Api.Schema
import ClientForge.Api.Status
import ClientForge.Command
import ClientForge.Command.Arguments
import ClientForge.Config
import ClientForge.Config.Parse
import ClientForge.Decimal.Binary64
import ClientForge.Decimal.Shortest
import ClientForge.Document.Basic
import ClientForge.Document.Fault
import ClientForge.Document.Pointer
import ClientForge.Document.Read
import ClientForge.Document.Record
import ClientForge.Document.Schema
import ClientForge.Failure
import ClientForge.FileTree
import ClientForge.Ident.Basic
import ClientForge.Ident.Method
import ClientForge.Ident.Scope
import ClientForge.Ident.Words
import ClientForge.Main
import ClientForge.Plan.Build
import ClientForge.Plan.Declaration
import ClientForge.Plan.Method
import ClientForge.Plan.Model
import ClientForge.Plan.Reach
import ClientForge.Resolve.Model
import ClientForge.Resolve.Operation
import ClientForge.Resolve.Registry
import ClientForge.Resolve.Schema
import ClientForge.Resolve.Shape
import ClientForge.Run
import ClientForge.Settings
import ClientForge.Source.Basic
import ClientForge.Source.Client
import ClientForge.Source.Config
import ClientForge.Source.Dispatch
import ClientForge.Source.File
import ClientForge.Source.Model
import ClientForge.Source.Url
import ClientForge.Table
import ClientForge.Text.Quoted
import ClientForge.Text.Replace
import ClientForge.Text.Shown
import ClientForge.Text.Split
import ClientForge.Text.Uppercase
import ClientForge.Text.Utf8
import ClientForge.TypeRef
import ClientForge.Value.Basic
import ClientForge.Value.Compact
import ClientForge.Yaml.Cursor
import ClientForge.Yaml.Load
import ClientForge.Yaml.Node
import ClientForge.Yaml.Plain
import ClientForge.Yaml.Token.Basic
import ClientForge.Yaml.Token.Block
import ClientForge.Yaml.Token.Gap
import ClientForge.Yaml.Token.Name
import ClientForge.Yaml.Token.Plain
import ClientForge.Yaml.Token.Quoted
import ClientForge.Yaml.Token.Stream
import ClientForge.Proofs.Numbering
import ClientForge.Proofs.ScopeAllocation
import ClientForge.Proofs.MethodNaming
import ClientForge.Proofs.DeclarationNames
import ClientForge.Proofs.PlanCollisions
import ClientForge.Proofs.TableEntries
import ClientForge.Proofs.OperationGroups
import ClientForge.Proofs.SchemaReading
import ClientForge.Proofs.ResolverRuns
import ClientForge.Proofs.Translation
import ClientForge.Proofs.NameChoice
import ClientForge.Proofs.ResolverGrowth
import ClientForge.Proofs.OperationRuns
import ClientForge.Proofs.ResolverTranslation
import ClientForge.Proofs.OperationParameters
import ClientForge.Proofs.ResolverSessions
import ClientForge.Proofs.DocumentTranslation
import ClientForge.Proofs.DocumentOperations
import ClientForge.Proofs.DocumentParameters
import ClientForge.Proofs.Reachability
import ClientForge.Proofs.ModelNames
import ClientForge.Proofs.TypePlaces
import ClientForge.Proofs.PlanTypes
import ClientForge.Proofs.PlanWellFounded
import ClientForge.Proofs.ValueEquality
import ClientForge.Proofs.DefinitionReading
import ClientForge.Proofs.SchemaKeys
import ClientForge.Proofs.DocumentKeys
import ClientForge.Proofs.ResolverRules
import ClientForge.Proofs.ResolverEnds
import ClientForge.Proofs.NameAnswers
import ClientForge.Proofs.SchemaClosure
import ClientForge.Proofs.ComponentPointers
import ClientForge.Proofs.NeededReferences
import ClientForge.Proofs.ResolverFaults
import ClientForge.Proofs.DispatchReading
import ClientForge.Proofs.DispatchChoice
import ClientForge.Proofs.IdentifierGrammar
import ClientForge.Proofs.VariantNames
import ClientForge.Proofs.PlanIdentifiers
import ClientForge.Proofs.PathNames
import ClientForge.Proofs.PlanCorrespondence
import ClientForge.Proofs.ModuleTree
import ClientForge.Proofs.FilePaths
import ClientForge.Proofs.FileTreeWriting
import ClientForge.Proofs.RunOutcome
import ClientForge.Proofs.DiscoveryOrder
import ClientForge.Proofs.UsedSchemas
import ClientForge.Proofs.CommentLines
import ClientForge.Proofs.DescribedSource
import ClientForge.Proofs.LabelledSource
import ClientForge.Proofs.RecursionBreaking
import ClientForge.Proofs.SettledAnswers
import ClientForge.Proofs.ReadSessions
import ClientForge.Proofs.LiteralReading
import ClientForge.Proofs.UrlEvaluation
import ClientForge.Proofs.SingleMember
import ClientForge.Proofs.SourceNames
import ClientForge.Proofs.ShadowedNames
import ClientForge.Proofs.StatusKeys
import ClientForge.Proofs.ReferenceChains
import ClientForge.Proofs.ServerUrls
import ClientForge.Proofs.JoinedNames
import ClientForge.Proofs.MethodsOfPath
import ClientForge.Proofs.ScopeHistories
import ClientForge.Proofs.FinalNames
import ClientForge.Proofs.EnumerationReading
import ClientForge.Proofs.UnknownFallback
import ClientForge.Proofs.PercentEncoding
import ClientForge.Proofs.PointerSegments
