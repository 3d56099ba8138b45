import ImpliedKeys.Main
import ImpliedKeys.Session
import ImpliedKeys.Entries
import ImpliedKeys.Multimap
import ImpliedKeys.Proofs.Analysis.Index
import ImpliedKeys.Proofs.Analysis.Candidate
import ImpliedKeys.Proofs.Analysis.Proposal
import ImpliedKeys.Proofs.Analysis.Findings
import ImpliedKeys.Proofs.Analysis.Attachment
import ImpliedKeys.Proofs.Session.History
import ImpliedKeys.Proofs.Analysis.Direction
import ImpliedKeys.Proofs.Analysis.Switches
import ImpliedKeys.Proofs.Analysis.Widening
import ImpliedKeys.Proofs.Analysis.Resemblance
import ImpliedKeys.Proofs.Analysis.Meaning
import ImpliedKeys.Proofs.Session.Declaring
import ImpliedKeys.Proofs.Schema.SharedLeads
import ImpliedKeys.Proofs.Schema.Resolution
import ImpliedKeys.Proofs.Analysis.Correspondence
import ImpliedKeys.Proofs.Analysis.NewTable
import ImpliedKeys.Proofs.Session.NewColumn
import ImpliedKeys.Proofs.Analysis.Namespace
import ImpliedKeys.Proofs.Analysis.Convention
import ImpliedKeys.Proofs.Analysis.Repetition
import ImpliedKeys.Proofs.Schema.Demand
import ImpliedKeys.Proofs.Analysis.Precondition
import ImpliedKeys.Proofs.Schema.Encoding
import ImpliedKeys.Proofs.Files.Listing
import ImpliedKeys.Proofs.Schema.Merging
import ImpliedKeys.Proofs.Schema.Directory
import ImpliedKeys.Proofs.Schema.Loading
import ImpliedKeys.Proofs.Analysis.Endpoint
import ImpliedKeys.Proofs.Schema.Ranking
import ImpliedKeys.Proofs.Identifier.Splitting
import ImpliedKeys.Proofs.Identifier.Singular
import ImpliedKeys.Proofs.Identifier.Plural
import ImpliedKeys.Proofs.Identifier.Spelling
import ImpliedKeys.Proofs.Identifier.Segmentation
import ImpliedKeys.Proofs.Analysis.Declaration
import ImpliedKeys.Proofs.Analysis.Discovery
import ImpliedKeys.Proofs.Analysis.Validation
import ImpliedKeys.Proofs.Analysis.Selection
import ImpliedKeys.Proofs.Analysis.Naming
import ImpliedKeys.Proofs.Command.OwnSettings
import ImpliedKeys.Proofs.Analysis.Canonical
import ImpliedKeys.Proofs.Analysis.Matching
import ImpliedKeys.Proofs.Identifier.NormalForm
