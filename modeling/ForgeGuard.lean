import ForgeGuard.AppendRuns
import ForgeGuard.CacheProvenance
import ForgeGuard.CompiledNames
import ForgeGuard.ControlPlane
import ForgeGuard.CorsResponses
import ForgeGuard.CredentialForms
import ForgeGuard.DeletionRuns
import ForgeGuard.EmbeddedQueries
import ForgeGuard.MemoryHistory
import ForgeGuard.FgrnText
import ForgeGuard.Features
import ForgeGuard.FreshPages
import ForgeGuard.GrantRows
import ForgeGuard.GroupIdentifiers
import ForgeGuard.KeyLifecycle
import ForgeGuard.OwnedResources
import ForgeGuard.PolicyMeaning
import ForgeGuard.PromotionRuns
import ForgeGuard.RevisionHeaders
import ForgeGuard.RoleInheritance
import ForgeGuard.RouteChecks
import ForgeGuard.Selectors
import ForgeGuard.SignedEvents
import ForgeGuard.SortKeys
import ForgeGuard.StoredAnchors
import ForgeGuard.UserSchema
import ForgeGuard.VpFgrn
import ForgeGuard.Replicas
import ForgeGuard.Enforcement
import ForgeGuard.KeyProvenance
import ForgeGuard.RowScopes
