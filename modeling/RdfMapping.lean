import RdfMapping.Mapping.Record
import RdfMapping.Run.Materialize
import RdfMapping.Source.Clients
import RdfMapping.Statement.Document
import RdfMapping.Proofs.Outcome
import RdfMapping.Proofs.Names
import RdfMapping.Proofs.Table.Cells
import RdfMapping.Proofs.Statement.RowMeaning
import RdfMapping.Proofs.Statement.Buffers
import RdfMapping.Proofs.Run.Chunks
import RdfMapping.Proofs.Source.Matching
import RdfMapping.Proofs.Source.Answer
import RdfMapping.Proofs.Run.RuleMeaning
import RdfMapping.Proofs.Run.PlainRule
import RdfMapping.Proofs.Run.JoinRule
import RdfMapping.Proofs.Mapping.Parents
import RdfMapping.Proofs.Run.Partitions
import RdfMapping.Proofs.Run.Sequence
import RdfMapping.Proofs.Run.Publication
import RdfMapping.Proofs.Run.Workers
import RdfMapping.Proofs.Run.Ends
import RdfMapping.Proofs.Run.Invariance
import RdfMapping.Proofs.Statement.Grammar
import RdfMapping.Proofs.Statement.ReadBack
import RdfMapping.Proofs.Mapping.TemplateGrammar
import RdfMapping.Proofs.Run.AnyOrder
import RdfMapping.Proofs.Run.Connections
import RdfMapping.Proofs.Run.Accounts
import RdfMapping.Proofs.Table.Layout
import RdfMapping.Proofs.Table.NameLookup
import RdfMapping.Proofs.Table.Operations
import RdfMapping.Proofs.Json.Lexemes
import RdfMapping.Proofs.Json.Values
import RdfMapping.Proofs.Mapping.RecordText
import RdfMapping.Proofs.Json.Records
import RdfMapping.Proofs.Mapping.Spellings
import RdfMapping.Proofs.Mapping.Acceptance
import RdfMapping.Proofs.Run.Histories
import RdfMapping.Proofs.Statement.RowWise
import RdfMapping.Proofs.Source.HashJoin
import RdfMapping.Proofs.Source.Sharing
import RdfMapping.Proofs.Source.Snapshots
import RdfMapping.Proofs.Run.Moments
import RdfMapping.Proofs.Run.VirtualTime
import RdfMapping.Proofs.Run.TimeLimit
import RdfMapping.Proofs.Statement.EncodedCells
import RdfMapping.Proofs.Statement.TemplateKeys
import RdfMapping.Proofs.Number.Numerals
import RdfMapping.Proofs.Calendar.DateTexts
import RdfMapping.Proofs.Source.KeyValues
import RdfMapping.Proofs.Run.AskedColumns
import RdfMapping.Proofs.Number.Words
import RdfMapping.Proofs.Number.DecimalTexts
import RdfMapping.Proofs.Calendar.CivilDays
import RdfMapping.Proofs.Calendar.CalendarCells
import RdfMapping.Proofs.Run.DecimalDelivery
import RdfMapping.Proofs.Run.RowNumbers
import RdfMapping.Proofs.Statement.FullIris
import RdfMapping.Proofs.Table.ChunkedRows
import RdfMapping.Proofs.Text.ByteOrder
import RdfMapping.Proofs.Text.SetHistories
import RdfMapping.Proofs.Toml.DistinctNames
import RdfMapping.Proofs.Toml.Records
import RdfMapping.Proofs.Run.SettingsLayouts
