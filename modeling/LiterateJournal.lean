import LiterateJournal.Encoding.Document
import LiterateJournal.Json.Parser
import LiterateJournal.Main
import LiterateJournal.Proofs.Images.Fetching
import LiterateJournal.Proofs.Images.Lifetime
import LiterateJournal.Proofs.Markdown.Conservation
import LiterateJournal.Proofs.Markdown.LinkTargets
import LiterateJournal.Proofs.Output.HtmlText
import LiterateJournal.Proofs.Output.LatexNumbers
import LiterateJournal.Proofs.Script.Chunks
import LiterateJournal.Proofs.Site.Account
import LiterateJournal.Proofs.Site.Entry
import LiterateJournal.Proofs.Site.FullBuild
import LiterateJournal.Proofs.Site.History
import LiterateJournal.Proofs.Site.Independence
import LiterateJournal.Proofs.Site.Marks
import LiterateJournal.Proofs.Site.Rebuild
import LiterateJournal.Proofs.Site.Restriction
import LiterateJournal.Proofs.Site.SavedImages
import LiterateJournal.Proofs.Site.Targets
import LiterateJournal.Proofs.Document.Relocated
import LiterateJournal.Proofs.Output.RelocatedBody
import LiterateJournal.Proofs.Images.Relocation
import LiterateJournal.Proofs.Output.LatexMarks
import LiterateJournal.Proofs.Output.LatexOptions
import LiterateJournal.Proofs.Evaluation.Asking
import LiterateJournal.Proofs.Evaluation.Fences
import LiterateJournal.Proofs.Evaluation.Scripts
import LiterateJournal.Proofs.Document.Titles
import LiterateJournal.Proofs.Document.Visits
import LiterateJournal.Proofs.Files.Lexical
import LiterateJournal.Proofs.Markdown.Translation
import LiterateJournal.Proofs.Site.CopiedAssets
import LiterateJournal.Proofs.Images.Locality
import LiterateJournal.Proofs.Site.Skipped
import LiterateJournal.Proofs.Site.WholePages
import LiterateJournal.Proofs.Site.NestedAssets
import LiterateJournal.Proofs.Document.LinkTables
import LiterateJournal.Proofs.Site.Discovery
import LiterateJournal.Proofs.Encoding.RoundTrip
import LiterateJournal.Proofs.Markdown.SourceText
