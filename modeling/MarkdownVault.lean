import MarkdownVault.Log
import MarkdownVault.Main
import MarkdownVault.Proofs.Filter.Parsing
import MarkdownVault.Proofs.Graph.Freshness
import MarkdownVault.Proofs.Vault.Completion
import MarkdownVault.Proofs.Base.Query
import MarkdownVault.Proofs.Filter.Compilation
import MarkdownVault.Proofs.Base.RoundTrip
import MarkdownVault.Proofs.Base.Change
import MarkdownVault.Proofs.Vault.Writing
import MarkdownVault.Proofs.Yaml.LineEnds
import MarkdownVault.Proofs.Base.Writing
import MarkdownVault.Proofs.Vault.Steadiness
import MarkdownVault.Proofs.Vault.Skipping
import MarkdownVault.Proofs.Graph.Reordering
import MarkdownVault.Proofs.Vault.Confinement
import MarkdownVault.Proofs.Number.Rounding
import MarkdownVault.Proofs.Vault.Listings
import MarkdownVault.Proofs.Filter.Verdict
import MarkdownVault.Proofs.Graph.Neighborhood
import MarkdownVault.Proofs.Graph.PathSearch
import MarkdownVault.Proofs.Session.Isolation
import MarkdownVault.Proofs.Graph.Naming
import MarkdownVault.Proofs.Graph.Accounting
import MarkdownVault.Proofs.Base.Order
import MarkdownVault.Proofs.Note.Body
import MarkdownVault.Proofs.Text.Cutting
import MarkdownVault.Proofs.Note.Tag
import MarkdownVault.Proofs.Note.LineBreaks
import MarkdownVault.Proofs.Filter.Numeral
import MarkdownVault.Proofs.Base.Template
import MarkdownVault.Proofs.Graph.Statistics
import MarkdownVault.Proofs.Conversation.Search
import MarkdownVault.Proofs.Conversation.Detection
import MarkdownVault.Proofs.Conversation.Export
import MarkdownVault.Proofs.Conversation.Rules
import MarkdownVault.Proofs.Note.Link
import MarkdownVault.Proofs.Formula
import MarkdownVault.Proofs.Filter.Normal
import MarkdownVault.Proofs.Vault.Contents
import MarkdownVault.Proofs.Vault.Atomicity
import MarkdownVault.Proofs.Discovery
import MarkdownVault.Proofs.Filter.Scanning
import MarkdownVault.Proofs.Conversation.Census
import MarkdownVault.Proofs.Command.Table
import MarkdownVault.Proofs.Conversation.Callout
import MarkdownVault.Proofs.Filter.Pieces
import MarkdownVault.Proofs.Conversation.Block
