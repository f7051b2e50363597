import SchemaClient.Main
import SchemaClient.Schema.Encode
import SchemaClient.Proofs.Cycle
import SchemaClient.Proofs.TypeExpr
import SchemaClient.Proofs.Lexeme
import SchemaClient.Proofs.DeclarationReader
import SchemaClient.Store.Tree
import SchemaClient.Proofs.Decoder
import SchemaClient.Proofs.SchemaRoundTrip
import SchemaClient.Proofs.ModuleText
import SchemaClient.Proofs.TypeCycle
import SchemaClient.Proofs.ConcurrentLoading
import SchemaClient.Proofs.CommandFrame
import SchemaClient.Proofs.RouteUrl
import SchemaClient.Proofs.EnumDeclarations
import SchemaClient.Proofs.Indifference
import SchemaClient.Proofs.Interleaving
import SchemaClient.Proofs.Account
import SchemaClient.Proofs.Location
import SchemaClient.Proofs.RouteLink
import SchemaClient.Proofs.FirstCycle
import SchemaClient.Proofs.Stage
import SchemaClient.Proofs.CutDocument
import SchemaClient.Proofs.SchemaChange
import SchemaClient.Proofs.NullNormal
import SchemaClient.Proofs.Alternatives
import SchemaClient.Proofs.LinkedText
import SchemaClient.Proofs.CommentBlock
import SchemaClient.Proofs.RoutePath
import SchemaClient.Proofs.RouteParameters
import SchemaClient.Proofs.ScreamingCase
import SchemaClient.Proofs.ConfigText
import SchemaClient.Proofs.BracketDepth
import SchemaClient.Proofs.PrettyLayout
import SchemaClient.Proofs.Colours
import SchemaClient.Proofs.JsonLayout
