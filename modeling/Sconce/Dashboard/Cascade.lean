/-
# Deletes that cascade

What `on delete cascade` and `on delete set null` do when rows of a table with dependants
go: the dependants go with them, or lose the reference, and the triggers lower the
refcounts of the blobs that deleted versions and snapshots referenced.

Each definition drops the rows of the ids selected from one table.
-/
import Sconce.Schema

namespace Sconce

/-- Lower the refcount of every digest by the number of times it is listed. -/
def releaseBlobs (blobs : Table Sha256 Blob) (released : List Sha256) : Table Sha256 Blob :=
  blobs.update fun sha b => { b with refcount := b.refcount - released.count sha }

namespace Catalog

variable (db : Catalog) (gone : Uuid → Bool)

/-- `delete from upstreams`. -/
def dropUpstreams : Catalog :=
  { db with
    upstreams := db.upstreams.delete fun id _ => gone id
    upstreamRequires := db.upstreamRequires.delete fun _ r => gone r.upstreamId
    upstreamSourcePaths := db.upstreamSourcePaths.delete fun _ p => gone p.upstreamId
    mirrorJobs := db.mirrorJobs.delete fun _ job => job.upstreamId.any gone
    packages := db.packages.update fun _ p =>
      if p.upstreamId.any gone then { p with upstreamId := none } else p
    dependencyPlan := db.dependencyPlan.update fun _ d =>
      if d.resolverUpstreamId.any gone then { d with resolverUpstreamId := none } else d }

/-- The dists of the versions of the packages selected. -/
def distsOf : List Sha256 :=
  (db.packageVersions.rows.filter fun r => gone r.1.packageId).filterMap fun r => r.2.distBlobSha256

/-- `delete from packages`. -/
def dropPackages : Catalog :=
  { db with
    packages := db.packages.delete fun id _ => gone id
    packageVersions := db.packageVersions.delete fun key _ => gone key.packageId
    blobs := releaseBlobs db.blobs (db.distsOf gone)
    packageSetMembers := db.packageSetMembers.delete fun key _ => gone key.2
    repositoryGrants := db.repositoryGrants.delete fun key _ => gone key.2
    entitlements := db.entitlements.delete fun key _ => gone key.2 }

/-- `delete from package_sets`. -/
def dropPackageSets : Catalog :=
  { db with
    packageSets := db.packageSets.delete fun id _ => gone id
    packageSetMembers := db.packageSetMembers.delete fun key _ => gone key.1
    packageSetRules := db.packageSetRules.delete fun _ r => gone r.setId
    repositoryGrantRules := db.repositoryGrantRules.delete fun _ r => gone r.setId
    licenseSetEntitlements := db.licenseSetEntitlements.delete fun key _ => gone key.2 }

/-- `delete from editions`. -/
def dropEditions : Catalog :=
  { db with
    editions := db.editions.delete fun id _ => gone id
    licenseKeys := db.licenseKeys.update fun _ key =>
      if key.editionId.any gone then { key with editionId := none } else key }

/-- `delete from license_keys`. -/
def dropLicenseKeys : Catalog :=
  { db with
    licenseKeys := db.licenseKeys.delete fun id _ => gone id
    entitlements := db.entitlements.delete fun key _ => gone key.1
    licenseSetEntitlements := db.licenseSetEntitlements.delete fun key _ => gone key.1
    licenseRenewals := db.licenseRenewals.delete fun key _ => gone key.1 }

/-- The blobs of the snapshots selected. -/
def snapshotBlobs : List Sha256 :=
  (db.snapshots.rows.filter fun r => gone r.1).map fun r => r.2.blobSha256

/-- `delete from snapshots`. -/
def dropSnapshots : Catalog :=
  { db with
    snapshots := db.snapshots.delete fun id _ => gone id
    blobs := releaseBlobs db.blobs (db.snapshotBlobs gone)
    snapshotLatest := db.snapshotLatest.delete fun _ id => gone id }

/-- `delete from upload_sessions`. -/
def dropUploadSessions : Catalog :=
  { db with
    uploadSessions := db.uploadSessions.delete fun id _ => gone id
    uploadParts := db.uploadParts.delete fun key _ => gone key.1 }

/-- The rows of `repositories` of one id and of the tables that reference it and nothing else
does. -/
def dropRepositoryRow (repo : Uuid) : Catalog :=
  { db with
    repositories := db.repositories.delete fun id _ => id = repo
    repositoryMembers := db.repositoryMembers.delete fun key _ => key.1 = repo ∨ key.2 = repo
    tokens := db.tokens.delete fun _ t => t.scope = .repo repo
    repositoryGrants := db.repositoryGrants.delete fun key _ => key.1 = repo
    repositoryGrantRules := db.repositoryGrantRules.delete fun _ r => r.targetRepoId = repo
    snapshotLatest := db.snapshotLatest.delete fun key _ => key.1 = repo
    mirrorJobs := db.mirrorJobs.delete fun _ job => job.repoId = some repo
    dependencyPlan := db.dependencyPlan.delete fun key _ => key.1 = repo
    serviceTokens := db.serviceTokens.delete fun _ t => t.repoId = repo
    publishTokens := db.publishTokens.delete fun _ t => t.repoId = repo
    ciOidcPolicies := db.ciOidcPolicies.delete fun _ p => p.repoId = repo
    orgRemotes := db.orgRemotes.update fun _ r =>
      if r.snapshotRepoId = some repo then { r with snapshotRepoId := none } else r }

/-- `delete from repositories where id = repo`: everything of the repository goes. -/
def dropRepository (repo : Uuid) : Catalog :=
  let upstreams id := (db.upstreams.get? id).any fun u => u.repoId = repo
  let packages id := (db.packages.get? id).any fun p => p.repoId = repo
  let editions id := (db.editions.get? id).any fun e => e.repoId = repo
  let licenses id := (db.licenseKeys.get? id).any fun k => k.repoId = repo
  let snapshots id := (db.snapshots.get? id).any fun s => s.repoId = repo
  let uploads id := (db.uploadSessions.get? id).any fun s => s.repoId = repo
  ((((((db.dropUpstreams upstreams).dropPackages packages).dropEditions editions).dropLicenseKeys
    licenses).dropSnapshots snapshots).dropUploadSessions uploads).dropRepositoryRow repo

end Catalog

end Sconce
