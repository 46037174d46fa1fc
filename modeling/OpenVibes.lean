import OpenVibes.Console.RoleEditor
import OpenVibes.Console.RuleDrafts
import OpenVibes.Console.SsoFacts
import OpenVibes.Console.Escalation
import OpenVibes.Console.GroupReach
import OpenVibes.Netlog.EventCounts
import OpenVibes.Store.AlarmDecisions
import OpenVibes.Store.BulkTriage
import OpenVibes.Store.CaseInvariants
import OpenVibes.Store.Enroll
import OpenVibes.Store.FindingVersions
import OpenVibes.Store.Findings
import OpenVibes.Store.FleetSummary
import OpenVibes.Store.GroupMembership
import OpenVibes.Store.HostGlobs
import OpenVibes.Store.LastAdministrator
import OpenVibes.Store.LoginThrottle
import OpenVibes.Store.OldPasswords
import OpenVibes.Store.RuleHistory
import OpenVibes.Store.SamlSignIn
import OpenVibes.Store.SuppressionApproval
import OpenVibes.Store.SuppressionCloses
import OpenVibes.Store.VersionOrder
import OpenVibes.Vulns.FeedContents
import OpenVibes.Vulns.Marker
import OpenVibes.Vulns.NoFix
import OpenVibes.Vulns.NvdSlim
import OpenVibes.Feed.Published
import OpenVibes.Signer.NeverTwice
import OpenVibes.Store.ChangeLog
import OpenVibes.Vulns.Reports
import OpenVibes.Vulns.Updateinfo
