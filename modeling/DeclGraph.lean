import DeclGraph.Artifact.File
import DeclGraph.Artifact.Reader
import DeclGraph.Card
import DeclGraph.Command.Run
import DeclGraph.Main
import DeclGraph.Model.Editing
import DeclGraph.Session
import DeclGraph.TypeScript.Grammar
import DeclGraph.Proofs.Passes
import DeclGraph.Proofs.TypeParts
import DeclGraph.Proofs.Resolution
import DeclGraph.Proofs.Groups
import DeclGraph.Proofs.LinkedGraph
import DeclGraph.Proofs.EdgeDiscovery
import DeclGraph.Proofs.ArtifactRoundTrip
import DeclGraph.Proofs.LinkedNames
import DeclGraph.Proofs.Constructs
import DeclGraph.Proofs.NodeParts
import DeclGraph.Proofs.Outcomes
import DeclGraph.Proofs.DeclarationOrder
import DeclGraph.Proofs.MentionedNames
import DeclGraph.Proofs.ShadowedNames
import DeclGraph.Proofs.NodeMaps
import DeclGraph.Proofs.Comments
import DeclGraph.Proofs.Stripping
import DeclGraph.Proofs.AskedNames
import DeclGraph.Proofs.HeritageEdges
import DeclGraph.Proofs.UnrelatedDeclarations
import DeclGraph.Proofs.SessionCache
import DeclGraph.Proofs.ArtifactReading
import DeclGraph.Proofs.NestingDepth
import DeclGraph.Proofs.Merging
import DeclGraph.Proofs.ScopedTypes
import DeclGraph.Proofs.DiskWrites
import DeclGraph.Proofs.TextFiles
import DeclGraph.Proofs.Commands
import DeclGraph.Proofs.ObjectTypes
import DeclGraph.Proofs.SurfaceForms
import DeclGraph.Proofs.Labels
import DeclGraph.Proofs.Respelling
import DeclGraph.Proofs.KindConflicts
import DeclGraph.Proofs.UnlinkedReferences
import DeclGraph.Proofs.Wrappers
import DeclGraph.Proofs.ArrayLabels
import DeclGraph.Proofs.FirstFault
import DeclGraph.Proofs.QuotedNames
import DeclGraph.Proofs.ConfigFiles
