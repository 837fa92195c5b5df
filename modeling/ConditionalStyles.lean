import ConditionalStyles.Condition.Query
import ConditionalStyles.Main
import ConditionalStyles.Outline
import ConditionalStyles.Proofs.Cascade.Reference
import ConditionalStyles.Session
import ConditionalStyles.Proofs.Cascade.Environment
import ConditionalStyles.Proofs.Cascade.Truth
import ConditionalStyles.Proofs.Cascade.SheetText
import ConditionalStyles.Proofs.Cascade.SheetTruth
import ConditionalStyles.Proofs.Condition.Replacement
import ConditionalStyles.Proofs.Style.Overrides
import ConditionalStyles.Proofs.Style.Writes
import ConditionalStyles.Proofs.Cascade.WiringTruth
import ConditionalStyles.Proofs.Cascade.Choice
import ConditionalStyles.Proofs.Style.LastWrite
import ConditionalStyles.Proofs.Registry.Element
import ConditionalStyles.Proofs.Condition.NormalForm
import ConditionalStyles.Proofs.Style.ValueLaw
import ConditionalStyles.Proofs.Style.OverrideTruth
import ConditionalStyles.Proofs.Cascade.Mention
import ConditionalStyles.Proofs.Style.LocalToggles
import ConditionalStyles.Proofs.Json.RoundTrip
import ConditionalStyles.Proofs.Json.Nesting
import ConditionalStyles.Proofs.Condition.Encoding
import ConditionalStyles.Proofs.Identifier.Decoding
import ConditionalStyles.Proofs.Registry.Apart
import ConditionalStyles.Proofs.Condition.Decoding
import ConditionalStyles.Proofs.Registry.Spacing
import ConditionalStyles.Proofs.Sheet.Folding
import ConditionalStyles.Proofs.Configuration.Loading
import ConditionalStyles.Proofs.Condition.Congruence
import ConditionalStyles.Proofs.Registry.Layout
import ConditionalStyles.Proofs.Registry.References
import ConditionalStyles.Proofs.OrderedMap
import ConditionalStyles.Proofs.Style.Order
import ConditionalStyles.Proofs.Identifier.Polynomial
import ConditionalStyles.Proofs.Configuration.Parsed
import ConditionalStyles.Proofs.Session.Scopes
import ConditionalStyles.Proofs.Sheet.GroupRules
import ConditionalStyles.Proofs.Session.Registries
