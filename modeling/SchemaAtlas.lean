import SchemaAtlas.Main
import SchemaAtlas.Proofs.Migration.HeadText
import SchemaAtlas.Proofs.Scan.Segment
import SchemaAtlas.Proofs.Migration.Guarded
import SchemaAtlas.Proofs.Migration.Body
import SchemaAtlas.Proofs.Migration.TableCalls
import SchemaAtlas.Proofs.Migration.Splice
import SchemaAtlas.Proofs.Migration.WriteBack
import SchemaAtlas.Proofs.Migration.Draft
import SchemaAtlas.Proofs.Migration.Requests
import SchemaAtlas.Proofs.Schema.Table
import SchemaAtlas.Proofs.Migration.Stated
import SchemaAtlas.Proofs.Migration.Settled
import SchemaAtlas.Proofs.Migration.Bundle
import SchemaAtlas.Proofs.Catalog
import SchemaAtlas.Proofs.Export.Order
import SchemaAtlas.Proofs.Export.Migrations
import SchemaAtlas.Proofs.Migration.Extracted
import SchemaAtlas.Proofs.Migration.Rewritten
import SchemaAtlas.Proofs.Schema.History
import SchemaAtlas.Proofs.Session.Generated
import SchemaAtlas.Proofs.Session.ColumnEdit
import SchemaAtlas.Proofs.Migration.Alteration
import SchemaAtlas.Proofs.Migration.Written
import SchemaAtlas.Proofs.Schema.Record
import SchemaAtlas.Proofs.Relation.Selection
import SchemaAtlas.Proofs.Relation.Target
import SchemaAtlas.Proofs.Migration.Reread
import SchemaAtlas.Proofs.Session.Rewrite
import SchemaAtlas.Proofs.Session.InEffect
import SchemaAtlas.Proofs.Migration.Replay
import SchemaAtlas.Proofs.Session.Untouched
import SchemaAtlas.Proofs.Migration.Apart
import SchemaAtlas.Proofs.Schema.Flags
import SchemaAtlas.Proofs.Export.ForeignKeys
import SchemaAtlas.Proofs.Disk.Basic
import SchemaAtlas.Proofs.Text.Utf8
import SchemaAtlas.Proofs.Disk.Project
import SchemaAtlas.Proofs.Session.Save
import SchemaAtlas.Proofs.Session.InSync
import SchemaAtlas.Proofs.Session.Spliced
import SchemaAtlas.Proofs.Disk.Sound
import SchemaAtlas.Proofs.Source.Order
import SchemaAtlas.Proofs.Calendar.Stamp
import SchemaAtlas.Proofs.Migration.Names
import SchemaAtlas.Proofs.Suggestion.Read
import SchemaAtlas.Proofs.Suggestion.Outcome
import SchemaAtlas.Proofs.Suggestion.Boundary
import SchemaAtlas.Proofs.Export.Shell
import SchemaAtlas.Proofs.Export.Script
import SchemaAtlas.Proofs.Migration.WriteTwice
import SchemaAtlas.Proofs.Session.Direction
import SchemaAtlas.Proofs.Console.Command
import SchemaAtlas.Proofs.Disk.Unreadable
import SchemaAtlas.Proofs.Web.Api
import SchemaAtlas.Proofs.Export.Precedence
import SchemaAtlas.Proofs.Migration.Effect
import SchemaAtlas.Proofs.Export.Ddl
import SchemaAtlas.Proofs.Model.Source
import SchemaAtlas.Proofs.Json.Number
import SchemaAtlas.Proofs.Json.Reader
import SchemaAtlas.Proofs.Suggestion.Payload
import SchemaAtlas.Proofs.Disk.Landing
import SchemaAtlas.Proofs.Suggestion.Shelter
import SchemaAtlas.Proofs.Export.Paths
import SchemaAtlas.Proofs.Calendar.Count
import SchemaAtlas.Proofs.Migration.Batch
import SchemaAtlas.Proofs.Schema.Keys
import SchemaAtlas.Proofs.Scan.Comments
import SchemaAtlas.Proofs.Scan.Fence
import SchemaAtlas.Proofs.Migration.Chain
import SchemaAtlas.Proofs.Migration.Rearranged
import SchemaAtlas.Proofs.Migration.Interchange
import SchemaAtlas.Proofs.Migration.LoneColumn
import SchemaAtlas.Proofs.Schema.Exchange
import SchemaAtlas.Proofs.Naming.Singular
import SchemaAtlas.Proofs.Naming.Class
import SchemaAtlas.Proofs.Scan.Balance
import SchemaAtlas.Proofs.Migration.Braces
