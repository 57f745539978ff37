import DocCatalog.Main
import DocCatalog.Proofs.Manifest.Meaning
import DocCatalog.Proofs.Catalog.Membership
import DocCatalog.Proofs.Catalog.Ledger
import DocCatalog.Proofs.Registry.Notes
import DocCatalog.Proofs.Manifest.Acceptance
import DocCatalog.Proofs.Manifest.Noted
import DocCatalog.Proofs.Export.Alike
import DocCatalog.Proofs.Manifest.Fresh
import DocCatalog.Proofs.Manifest.Reordering
import DocCatalog.Proofs.Manifest.Increments
import DocCatalog.Proofs.Export.Restating
import DocCatalog.Proofs.Export.RoundTrip
import DocCatalog.Proofs.Catalog.Ending
import DocCatalog.Proofs.Manifest.Upholding
import DocCatalog.Proofs.Registry.EmptyPath
import DocCatalog.Proofs.Manifest.Refusal
import DocCatalog.Proofs.Manifest.Bindings
import DocCatalog.Proofs.Manifest.Accessors
import DocCatalog.Proofs.Manifest.Aliases
import DocCatalog.Proofs.Catalog.Refusing
import DocCatalog.Proofs.Export.Faithful
import DocCatalog.Proofs.Export.SameAnswers
import DocCatalog.Proofs.Manifest.Agreement
import DocCatalog.Proofs.Manifest.Renewal
import DocCatalog.Proofs.Registry.Commuting
import DocCatalog.Proofs.Registry.Confinement
import DocCatalog.Proofs.Registry.Abreast
import DocCatalog.Proofs.Registry.Isolation
import DocCatalog.Proofs.Manifest.Walking
import DocCatalog.Proofs.Registry.AuditTrail
import DocCatalog.Proofs.Manifest.Counterparts
import DocCatalog.Proofs.Registry.Itinerary
import DocCatalog.Proofs.Registry.Belonging
import DocCatalog.Proofs.Log.Routing
import DocCatalog.Proofs.Config.Layering
import DocCatalog.Proofs.Registry.Places
import DocCatalog.Proofs.Registry.Enclosing
import DocCatalog.Proofs.Registry.Arrival
import DocCatalog.Proofs.Registry.ByLists
import DocCatalog.Proofs.Manifest.Blame
import DocCatalog.Proofs.Path.Siblings
import DocCatalog.Proofs.Registry.Scoping
import DocCatalog.Proofs.Registry.Namesakes
import DocCatalog.Proofs.Config.Reporting
import DocCatalog.Proofs.Export.Declaring
import DocCatalog.Proofs.Manifest.Showing
import DocCatalog.Proofs.Command.Endings
import DocCatalog.Proofs.Access.Reading
