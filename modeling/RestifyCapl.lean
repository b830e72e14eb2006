import RestifyCapl.Ci.Changelog
import RestifyCapl.Ci.Commits
import RestifyCapl.Ci.Generate
import RestifyCapl.Ci.Json
import RestifyCapl.Ci.Level
import RestifyCapl.Ci.Notes
import RestifyCapl.Ci.PrBody
import RestifyCapl.Ci.PrData
import RestifyCapl.Ci.Proofs.AbandonedCut
import RestifyCapl.Ci.Proofs.AlongMain
import RestifyCapl.Ci.Proofs.ChangelogLines
import RestifyCapl.Ci.Proofs.Entries
import RestifyCapl.Ci.Proofs.FetchedMessages
import RestifyCapl.Ci.Proofs.GuardDecides
import RestifyCapl.Ci.Proofs.HighestTag
import RestifyCapl.Ci.Proofs.Inserted
import RestifyCapl.Ci.Proofs.Levels
import RestifyCapl.Ci.Proofs.PendingCut
import RestifyCapl.Ci.Proofs.PrDataFile
import RestifyCapl.Ci.Proofs.PrNumbers
import RestifyCapl.Ci.Proofs.Printed
import RestifyCapl.Ci.Proofs.PublicVerified
import RestifyCapl.Ci.Proofs.Published
import RestifyCapl.Ci.Proofs.Relabel
import RestifyCapl.Ci.Proofs.ReleaseRecovers
import RestifyCapl.Ci.Proofs.ReleasedOnce
import RestifyCapl.Ci.Proofs.Sections
import RestifyCapl.Ci.Proofs.TagsHaveNotes
import RestifyCapl.Ci.Proofs.Untagged
import RestifyCapl.Ci.Proofs.Versions
import RestifyCapl.Ci.Publish
import RestifyCapl.Ci.Release
import RestifyCapl.Ci.Repository
import RestifyCapl.Ci.TagRelease
import RestifyCapl.Ci.Tagging
import RestifyCapl.Ci.Tags
import RestifyCapl.Ci.Text
import RestifyCapl.Ci.Validate
import RestifyCapl.Core.CharConv
import RestifyCapl.Core.JsonParser
import RestifyCapl.Core.JsonPath
import RestifyCapl.Core.JsonString
import RestifyCapl.Core.JsonValue
import RestifyCapl.Core.ParseDouble
import RestifyCapl.Core.ParseLong
import RestifyCapl.Core.Proofs.Collapse
import RestifyCapl.Core.Proofs.ParseDouble
import RestifyCapl.Core.Proofs.ParseLong
import RestifyCapl.Core.Proofs.Pointer
import RestifyCapl.Core.Proofs.Resolve
import RestifyCapl.Core.Status
import RestifyCapl.Core.Text
import RestifyCapl.Core.TypeConversion
import RestifyCapl.Export.Check
import RestifyCapl.Export.Fields
import RestifyCapl.Export.Functions
import RestifyCapl.Export.Markdown
import RestifyCapl.Export.Proofs.MarkdownLines
import RestifyCapl.Export.Proofs.Rows
import RestifyCapl.Export.Proofs.Signatures
import RestifyCapl.Export.Proofs.TableSound
import RestifyCapl.Export.Tokens
import RestifyCapl.Http.AsyncOperations
import RestifyCapl.Http.AsyncSystem
import RestifyCapl.Http.AsyncTextApi
import RestifyCapl.Http.CurlOptions
import RestifyCapl.Http.CurlTransport
import RestifyCapl.Http.HttpClient
import RestifyCapl.Http.Proofs.Cancellation
import RestifyCapl.Http.Proofs.CurlTold
import RestifyCapl.Http.Proofs.Effect
import RestifyCapl.Http.Proofs.FailedDispatch
import RestifyCapl.Http.Proofs.FailedTransfer
import RestifyCapl.Http.Proofs.Freshness
import RestifyCapl.Http.Proofs.FrontEnds
import RestifyCapl.Http.Proofs.HeaderBlock
import RestifyCapl.Http.Proofs.Integrity
import RestifyCapl.Http.Proofs.Leak
import RestifyCapl.Http.Proofs.Lifecycle
import RestifyCapl.Http.Proofs.ModuleReferences
import RestifyCapl.Http.Proofs.Ownership
import RestifyCapl.Http.Proofs.ResponseCap
import RestifyCapl.Http.Proofs.SameOutcome
import RestifyCapl.Http.Proofs.Served
import RestifyCapl.Http.Proofs.Stranded
import RestifyCapl.Http.Proofs.Wakeup
import RestifyCapl.Http.Proofs.WindDown
import RestifyCapl.Http.Proofs.Workers
import RestifyCapl.Http.Proofs.WriteOrdering
import RestifyCapl.Http.SyncOperations
import RestifyCapl.Http.SyncTextApi
import RestifyCapl.Lib.Assoc
import RestifyCapl.Lib.Decimal
import RestifyCapl.Lib.Fold
import RestifyCapl.Lib.Greatest
import RestifyCapl.Lib.Grouping
import RestifyCapl.Lib.History
import RestifyCapl.Lib.Machine
import RestifyCapl.Lib.Mint
import RestifyCapl.Lib.Minting
import RestifyCapl.Lib.Occurrences
import RestifyCapl.Lib.Quota
import RestifyCapl.Lib.Ranking
import RestifyCapl.Lib.Rose
import RestifyCapl.Lib.Rounding
import RestifyCapl.Lib.SizeArith
import RestifyCapl.Lib.Split
import RestifyCapl.Lib.Table
import RestifyCapl.Lib.Trim
import RestifyCapl.Mapping.JsonAccessors
import RestifyCapl.Mapping.JsonCalls
import RestifyCapl.Mapping.JsonDocumentStore
import RestifyCapl.Mapping.JsonDump
import RestifyCapl.Mapping.JsonFlatten
import RestifyCapl.Mapping.JsonQuotes
import RestifyCapl.Mapping.JsonTextApi
import RestifyCapl.Mapping.Notations
import RestifyCapl.Mapping.Proofs.Correspondence
import RestifyCapl.Mapping.Proofs.DocumentMap
import RestifyCapl.Mapping.Proofs.DumpListing
import RestifyCapl.Mapping.Proofs.FailureDiscipline
import RestifyCapl.Mapping.Proofs.Ledger
import RestifyCapl.Mapping.Proofs.Limits
import RestifyCapl.Mapping.Proofs.NoWrap
import RestifyCapl.Mapping.Proofs.Normalize
import RestifyCapl.Mapping.Proofs.Notation
import RestifyCapl.Mapping.Proofs.PointerGrammar
import RestifyCapl.Mapping.Proofs.Quotes
import RestifyCapl.Mapping.Proofs.Reading
import RestifyCapl.Mapping.Proofs.ReadsAgree
import RestifyCapl.Mapping.Proofs.Recursion
import RestifyCapl.Mapping.Proofs.Reissue
import RestifyCapl.Mapping.Proofs.RoundTrip
import RestifyCapl.Mapping.Proofs.Scan
import RestifyCapl.Mapping.Proofs.TextReads
import RestifyCapl.Mapping.Proofs.Traversal
import RestifyCapl.Mapping.Proofs.Violations
