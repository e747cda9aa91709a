import MarkupTemplate.Main
import MarkupTemplate.Renderer
import MarkupTemplate.Value.Convert
import MarkupTemplate.Proofs.Attributes
import MarkupTemplate.Proofs.Text
import MarkupTemplate.Proofs.Text.Bytes
import MarkupTemplate.Proofs.Value.Order
import MarkupTemplate.Proofs.Value.Record
import MarkupTemplate.Proofs.Placeholder.Grammar
import MarkupTemplate.Proofs.Placeholder.Decomposition
import MarkupTemplate.Proofs.Placeholder.Written
import MarkupTemplate.Proofs.Document.Place
import MarkupTemplate.Proofs.Document.WellFormed
import MarkupTemplate.Proofs.Document.Reachable
import MarkupTemplate.Proofs.Document.Ancestry
import MarkupTemplate.Proofs.Document.Exchange
import MarkupTemplate.Proofs.Document.Extension
import MarkupTemplate.Proofs.Document.Operation
import MarkupTemplate.Proofs.Document.Addressing
import MarkupTemplate.Proofs.Document.Copy
import MarkupTemplate.Proofs.Document.Relocation
import MarkupTemplate.Proofs.Document.Append
import MarkupTemplate.Proofs.Document.Replacement
import MarkupTemplate.Proofs.Document.Retouch
import MarkupTemplate.Proofs.Document.Lifetime
import MarkupTemplate.Proofs.Document.Order
import MarkupTemplate.Proofs.Markup.Reading
import MarkupTemplate.Proofs.Markup.Printable
import MarkupTemplate.Proofs.Markup.Merge
import MarkupTemplate.Proofs.Markup.RoundTrip
import MarkupTemplate.Proofs.Markup.Grammar
import MarkupTemplate.Proofs.Markup.Derivation
import MarkupTemplate.Proofs.Template.Fill
import MarkupTemplate.Proofs.Template.Fit
import MarkupTemplate.Proofs.Template.Substitute
import MarkupTemplate.Proofs.Template.Overwrite
import MarkupTemplate.Proofs.Template.Binding
import MarkupTemplate.Proofs.Template.Outline
import MarkupTemplate.Proofs.Template.Injection
import MarkupTemplate.Proofs.Template.Rendering
import MarkupTemplate.Proofs.Template.Isolation
import MarkupTemplate.Proofs.Template.Slots
import MarkupTemplate.Proofs.Template.Settled
import MarkupTemplate.Proofs.CallSite.Markers
import MarkupTemplate.Proofs.CallSite.Sketch
import MarkupTemplate.Proofs.CallSite.Pieces
import MarkupTemplate.Proofs.CallSite.Drawing
import MarkupTemplate.Proofs.CallSite.Alike
import MarkupTemplate.Proofs.CallSite.Gaps
import MarkupTemplate.Proofs.CallSite.Occupancy
import MarkupTemplate.Proofs.CallSite.InPlace
import MarkupTemplate.Proofs.CallSite.Agreement
import MarkupTemplate.Proofs.CallSite.LookAlike
import MarkupTemplate.Proofs.CallSite.Cache
import MarkupTemplate.Proofs.CallSite.Recency
import MarkupTemplate.Proofs.Renderer.Container
import MarkupTemplate.Proofs.Renderer.Session
import MarkupTemplate.Proofs.Renderer.Eviction
import MarkupTemplate.Proofs.Renderer.SideTable
import MarkupTemplate.Proofs.Renderer.Placement
import MarkupTemplate.Proofs.Yaml.Keys
import MarkupTemplate.Proofs.Yaml.Conversion
