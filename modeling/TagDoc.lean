import TagDoc.Text
import TagDoc.Assoc
import TagDoc.Decimal.Shortest
import TagDoc.Json.Draft
import TagDoc.Json.Printer
import TagDoc.ParamTree
import TagDoc.DocComment
import TagDoc.FileSystem
import TagDoc.ParamSchema
import TagDoc.Route
import TagDoc.TableSchema
import TagDoc.ResolvedType
import TagDoc.Page
import TagDoc.Config
import TagDoc.Page.Route
import TagDoc.Page.Table
import TagDoc.Page.Index
import TagDoc.Store.Memory
import TagDoc.Store.Disk
import TagDoc.Pass.Api
import TagDoc.Pass.Database
import TagDoc.Toml.Document
import TagDoc.Main
import TagDoc.Proofs.Annotations
import TagDoc.Proofs.FindingForms
import TagDoc.Proofs.Reconciliation
import TagDoc.Proofs.RouteRuns
import TagDoc.Proofs.RouteAccounting
import TagDoc.Proofs.FileSystem
import TagDoc.Proofs.Directories
import TagDoc.Proofs.FilePath
import TagDoc.Proofs.JsonReading
import TagDoc.Proofs.PageIndexFile
import TagDoc.Proofs.StoreRuns
import TagDoc.Proofs.TableLinks
import TagDoc.Proofs.Stores
import TagDoc.Proofs.LastingLinks
import TagDoc.Proofs.CalmRuns
import TagDoc.Proofs.Overwriting
import TagDoc.Proofs.CalmRoutes
import TagDoc.Proofs.MemoryRuns
import TagDoc.Proofs.Units
import TagDoc.Proofs.DryRuns
import TagDoc.Proofs.Rebuilding
import TagDoc.Proofs.OwnPages
import TagDoc.Proofs.DiskSaves
import TagDoc.Proofs.Mirroring
import TagDoc.Proofs.DiskStore
import TagDoc.Proofs.Isolation
import TagDoc.Proofs.TableAccounting
import TagDoc.Proofs.FailedSaves
import TagDoc.Proofs.SaveAtomicity
import TagDoc.Proofs.TextLines
import TagDoc.Proofs.PathGrammar
import TagDoc.Proofs.TypeOutlines
import TagDoc.Proofs.DeclaredNames
import TagDoc.Proofs.DetailNames
import TagDoc.Proofs.TagLines
import TagDoc.Proofs.CommentPrinting
import TagDoc.Proofs.MarkdownTables
import TagDoc.Proofs.PageTables
import TagDoc.Proofs.TypeStructure
import TagDoc.Proofs.IndexFindings
import TagDoc.Proofs.IndexTables
import TagDoc.Proofs.BlockPlaces
import TagDoc.Proofs.CommentLayout
import TagDoc.Proofs.TagSections
import TagDoc.Proofs.TypesAndDefaults
import TagDoc.Proofs.EmptyComments
import TagDoc.Proofs.TagKinds
import TagDoc.Proofs.WrittenSchemas
import TagDoc.Proofs.PageLayout
import TagDoc.Proofs.ParameterSections
import TagDoc.Proofs.ShownAccess
import TagDoc.Proofs.ReturnSections
import TagDoc.Proofs.CollectorRuns
import TagDoc.Proofs.TouchedPages
import TagDoc.Proofs.PageKeys
