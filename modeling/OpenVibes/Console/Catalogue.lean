import OpenVibes.Rust.Bytes

/-!
# The permission catalogue

`permission.rs` and `catalogue.rs` of `crates/openvibes-console/src/access/`, without the area and the column of the
matrix; no check reads them.
-/

namespace OpenVibes.Console

/-- `Scope`: where a permission applies. -/
inductive Scope where
  | host
  | platform
deriving DecidableEq

inductive Permission where
  | alarmsRead
  | alarmsSuppressionsRead
  | alarmsTriage
  | alarmsSuppress
  | alarmsExport
  | alarmsSuppressionsApprove
  | complianceRead
  | complianceTriage
  | complianceExport
  | vulnerabilitiesRead
  | vulnerabilitiesTriage
  | vulnerabilitiesExport
  | hostsRead
  | hostsLabel
  | hostsRevoke
  | hostsExport
  | casesRead
  | casesWrite
  | casesAssign
  | rulesRead
  | rulesAssignmentRead
  | rulesCoverageRead
  | rulesContentsRead
  | rulesAssignmentWrite
  | rulesPublish
  | siteRulesRead
  | siteRulesWrite
  | siteRulesTest
  | siteRulesPublish
  | dashboardsShare
  | dashboardsPublish
  | assistantUse
  | assistantAdmin
  | accessRead
  | accessUsers
  | accessRoles
  | accessGrant
  | hostGroupsManage
  | serviceAccountsRead
  | serviceAccountsManage
  | serviceAccountsTokens
  | tokensRead
  | tokensManage
  | tokensInstaller
  | auditRead
  | auditRetentionManage
  | auditExport
  | settingsManage
deriving DecidableEq

/-- `PermissionDef`: one permission's metadata. -/
structure PermissionDef where
  (id label : String)
  scope : Scope
  needs : List Permission

namespace Permission

/-- `catalogue::def`: its row of `CATALOGUE`. -/
def row : Permission → PermissionDef
  | alarmsRead => ⟨"alarms.read", "View alarms", .host, []⟩
  | alarmsSuppressionsRead => ⟨"alarms.suppressions.read", "View suppressions", .host, [.alarmsRead]⟩
  | alarmsTriage => ⟨"alarms.triage", "Triage alarms", .host, [.alarmsRead]⟩
  | alarmsSuppress => ⟨"alarms.suppress", "Suppress alarms (with a reason)", .host, [.alarmsRead,
    .alarmsSuppressionsRead]⟩
  | alarmsExport => ⟨"alarms.export", "Export alarms", .host, [.alarmsRead]⟩
  | alarmsSuppressionsApprove => ⟨"alarms.suppressions.approve", "Approve suppressions", .host,
    [.alarmsSuppressionsRead]⟩
  | complianceRead => ⟨"compliance.read", "View findings", .host, []⟩
  | complianceTriage => ⟨"compliance.triage", "Triage findings", .host, [.complianceRead]⟩
  | complianceExport => ⟨"compliance.export", "Export findings", .host, [.complianceRead]⟩
  | vulnerabilitiesRead => ⟨"vulnerabilities.read", "View vulnerabilities", .host, []⟩
  | vulnerabilitiesTriage => ⟨"vulnerabilities.triage", "Triage vulnerabilities", .host, [.vulnerabilitiesRead]⟩
  | vulnerabilitiesExport => ⟨"vulnerabilities.export", "Export vulnerabilities", .host, [.vulnerabilitiesRead]⟩
  | hostsRead => ⟨"hosts.read", "View hosts", .host, []⟩
  | hostsLabel => ⟨"hosts.label", "Label hosts", .host, [.hostsRead]⟩
  | hostsRevoke => ⟨"hosts.revoke", "Revoke a host", .host, [.hostsRead]⟩
  | hostsExport => ⟨"hosts.export", "Export host data", .host, [.hostsRead]⟩
  | casesRead => ⟨"cases.read", "View cases", .host, []⟩
  | casesWrite => ⟨"cases.write", "Create and edit cases", .host, [.casesRead]⟩
  | casesAssign => ⟨"cases.assign", "Assign cases", .host, [.casesWrite]⟩
  | rulesRead => ⟨"rules.read", "View rule sets and versions", .platform, []⟩
  | rulesAssignmentRead => ⟨"rules.assignment.read", "View where sets run", .platform, [.rulesRead]⟩
  | rulesCoverageRead => ⟨"rules.coverage.read", "View ATT&CK coverage", .platform, []⟩
  | rulesContentsRead => ⟨"rules.contents.read", "View rule contents", .platform, [.rulesRead]⟩
  | rulesAssignmentWrite => ⟨"rules.assignment.write", "Change where sets run", .platform, [.rulesAssignmentRead]⟩
  | rulesPublish => ⟨"rules.publish", "Publish a rule bundle", .platform, [.rulesRead]⟩
  | siteRulesRead => ⟨"site_rules.read", "View site rule drafts", .platform, []⟩
  | siteRulesWrite => ⟨"site_rules.write", "Edit site rule drafts", .platform, [.siteRulesRead]⟩
  | siteRulesTest => ⟨"site_rules.test", "Test a draft on a host", .platform, [.siteRulesWrite, .hostsRead]⟩
  | siteRulesPublish => ⟨"site_rules.publish", "Publish site rules", .platform, [.siteRulesWrite]⟩
  | dashboardsShare => ⟨"dashboards.share", "Share dashboards with your roles", .platform, []⟩
  | dashboardsPublish => ⟨"dashboards.publish", "Publish dashboards to everyone", .platform, [.dashboardsShare]⟩
  | assistantUse => ⟨"assistant.use", "Use the assistant", .host, []⟩
  | assistantAdmin => ⟨"assistant.admin", "Configure the assistant and internet lookups", .platform, []⟩
  | accessRead => ⟨"access.read", "View people and roles", .platform, []⟩
  | accessUsers => ⟨"access.users", "Create, edit and disable users", .platform, [.accessRead]⟩
  | accessRoles => ⟨"access.roles", "Create and edit roles", .platform, [.accessRead]⟩
  | accessGrant => ⟨"access.grant", "Give people roles", .platform, [.accessRead]⟩
  | hostGroupsManage => ⟨"host_groups.manage", "Manage host groups", .platform, [.accessRead, .hostsRead]⟩
  | serviceAccountsRead => ⟨"service_accounts.read", "View service accounts", .platform, []⟩
  | serviceAccountsManage => ⟨"service_accounts.manage", "Create and disable service accounts", .platform,
    [.serviceAccountsRead]⟩
  | serviceAccountsTokens => ⟨"service_accounts.tokens", "Issue and revoke their tokens", .platform,
    [.serviceAccountsRead]⟩
  | tokensRead => ⟨"tokens.read", "View enrollment tokens", .platform, []⟩
  | tokensManage => ⟨"tokens.manage", "Create and revoke tokens", .platform, [.tokensRead]⟩
  | tokensInstaller => ⟨"tokens.installer", "Download the agent installer", .platform, [.tokensRead]⟩
  | auditRead => ⟨"audit.read", "View the audit log", .platform, []⟩
  | auditRetentionManage => ⟨"audit.retention.manage", "Change retention", .platform, [.auditRead]⟩
  | auditExport => ⟨"audit.export", "Export the audit log", .platform, [.auditRead]⟩
  | settingsManage => ⟨"settings.manage", "Change general settings", .platform, []⟩

/-- `Permission::ALL`: every permission, in catalogue order. -/
def all : List Permission :=
  [.alarmsRead, .alarmsSuppressionsRead, .alarmsTriage, .alarmsSuppress, .alarmsExport,
    .alarmsSuppressionsApprove, .complianceRead, .complianceTriage, .complianceExport, .vulnerabilitiesRead,
    .vulnerabilitiesTriage, .vulnerabilitiesExport, .hostsRead, .hostsLabel, .hostsRevoke, .hostsExport,
    .casesRead, .casesWrite, .casesAssign, .rulesRead, .rulesAssignmentRead, .rulesCoverageRead,
    .rulesContentsRead, .rulesAssignmentWrite, .rulesPublish, .siteRulesRead, .siteRulesWrite, .siteRulesTest,
    .siteRulesPublish, .dashboardsShare, .dashboardsPublish, .assistantUse, .assistantAdmin, .accessRead,
    .accessUsers, .accessRoles, .accessGrant, .hostGroupsManage, .serviceAccountsRead, .serviceAccountsManage,
    .serviceAccountsTokens, .tokensRead, .tokensManage, .tokensInstaller, .auditRead, .auditRetentionManage,
    .auditExport, .settingsManage]

def id (p : Permission) : String := p.row.id

def scope (p : Permission) : Scope := p.row.scope

/-- `Permission::from_id`: the permission with this identifier, if any. -/
def fromId (id : String) : Option Permission := all.find? fun p => p.id = id

theorem mem_all (p : Permission) : p ∈ all := by cases p <;> decide

theorem fromId_id (p : Permission) : fromId p.id = some p := by
  have hall : ∀ p ∈ all, fromId p.id = some p := by decide +kernel
  exact hall p (mem_all p)

end Permission

end OpenVibes.Console
