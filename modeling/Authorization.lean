import Authorization.Abac.Abac
import Authorization.Abac.Alike
import Authorization.Abac.Condition
import Authorization.Abac.Cost
import Authorization.Abac.DepthCheck
import Authorization.Abac.Document
import Authorization.Abac.Meaning
import Authorization.Abac.Network
import Authorization.Abac.ReadBack
import Authorization.Abac.Reordering
import Authorization.Abac.Safety
import Authorization.Abac.StringSets
import Authorization.Abac.Table
import Authorization.Abac.Validation
import Authorization.Abac.Withheld
import Authorization.Acl.Acl
import Authorization.Acl.Document
import Authorization.Acl.Listing
import Authorization.Acl.Scan
import Authorization.Core.Decision
import Authorization.Core.Diagnostics
import Authorization.Core.Document
import Authorization.Core.Engine
import Authorization.Core.Error
import Authorization.Core.Instrumentation
import Authorization.Core.Law
import Authorization.Core.Match
import Authorization.Core.PolicyOrder
import Authorization.Core.Replacement
import Authorization.Core.Request
import Authorization.Core.Service
import Authorization.Core.ShortCircuit
import Authorization.Core.Snapshot
import Authorization.Core.StringSets
import Authorization.Core.Tightening
import Authorization.Core.Value
import Authorization.DocumentLaws
import Authorization.DocumentRoundTrip
import Authorization.FailClosed
import Authorization.Foundation.Base64
import Authorization.Foundation.BinarySearch
import Authorization.Foundation.Bytes
import Authorization.Foundation.Closure
import Authorization.Foundation.Decimal
import Authorization.Foundation.DepthFirst
import Authorization.Foundation.Difference
import Authorization.Foundation.Framing
import Authorization.Foundation.GoMap
import Authorization.Foundation.Json.ByValue
import Authorization.Foundation.Json.Codec
import Authorization.Foundation.Json.Layout
import Authorization.Foundation.Json.Parse
import Authorization.Foundation.Json.Strings
import Authorization.Foundation.Json.Struct
import Authorization.Foundation.Json.Syntax
import Authorization.Foundation.Metered
import Authorization.Foundation.Netip
import Authorization.Foundation.Periodic
import Authorization.Foundation.Rfc3339
import Authorization.Foundation.RowLock
import Authorization.Foundation.SortedMap
import Authorization.Foundation.Time
import Authorization.Foundation.Transition
import Authorization.Foundation.Utf8
import Authorization.Foundation.Worklist
import Authorization.Gates
import Authorization.Laws
import Authorization.Policy.Codec
import Authorization.Policy.Compilation
import Authorization.Policy.Compiler
import Authorization.Policy.Diff
import Authorization.Policy.Explanation
import Authorization.Policy.Manifest
import Authorization.Policy.Meaning
import Authorization.Policy.Polling
import Authorization.Policy.Reload
import Authorization.Policy.ReloadStep
import Authorization.Policy.Staleness
import Authorization.Policy.Synchronizer
import Authorization.Policy.Tightening
import Authorization.Postgres.Authority
import Authorization.Postgres.Fleet
import Authorization.Postgres.ScopeKey
import Authorization.Postgres.Store
import Authorization.Propagation
import Authorization.Rbac.Accountability
import Authorization.Rbac.Document
import Authorization.Rbac.Effective
import Authorization.Rbac.Inheritance
import Authorization.Rbac.Manager
import Authorization.Rbac.Rbac
import Authorization.Stricter
import Authorization.TenantIsolation
import Authorization.Valkey.Invalidator
