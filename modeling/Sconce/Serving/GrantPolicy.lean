/-
# The policy of a grant

A grant carries a policy of its own, which tightens what the repository and the credential
ask for.  `grant_policy` looks it up by the package's name, and `serve_p2` applies what it
finds to every row of the name.  `grant_policy_governs_iff` says when that is the policy each
row should be held to: a granted row its own grant's, a row without a grant none.
-/
import Sconce.Serving.Agreement

namespace Sconce

/-! ## What a policy asks of a version -/

/-- Neither yanked nor held, and not approved either: the policy decides. -/
structure PackageVersion.Undecided (pv : PackageVersion) : Prop where
  notYanked : pv.yankedAt = none
  notHeld : pv.heldAt = none
  notApproved : pv.approvedAt = none

/-- The policy lets an undecided version through: it asks nothing, or the cooldown is over. -/
def Lets (ses : Session) (now : Timestamp) (policy : UpdateMode × ℤ) (pv : PackageVersion) : Prop :=
  policy.1 = .auto ∨
    policy.1 = .delayed ∧ ∃ t, pv.releasedAt = some t ∧ ses.addDays t policy.2 ≤ now

/-- The gate: neither yanked nor held, and approved or let through by the policy. -/
theorem policyGate_iff (ses : Session) (now : Timestamp) (policy : UpdateMode × ℤ)
    (pv : PackageVersion) : policyGate ses now policy.1 policy.2 pv = true ↔
      pv.yankedAt = none ∧ pv.heldAt = none ∧ (pv.approvedAt ≠ none ∨ Lets ses now policy pv) := by
  unfold policyGate Lets
  simp only [Bool.and_eq_true, Bool.or_eq_true, Option.isNone_iff_eq_none, decide_eq_true_eq,
    Option.any_eq_true, Option.isSome_iff_ne_none, and_assoc, or_assoc]
  constructor
  · rintro ⟨hyanked, hheld, hauto | happroved | hdelayed⟩
    · exact ⟨hyanked, hheld, .inr (.inl hauto)⟩
    · exact ⟨hyanked, hheld, .inl happroved⟩
    · exact ⟨hyanked, hheld, .inr (.inr hdelayed)⟩
  · rintro ⟨hyanked, hheld, happroved | hauto | hdelayed⟩
    · exact ⟨hyanked, hheld, .inr (.inl happroved)⟩
    · exact ⟨hyanked, hheld, .inl hauto⟩
    · exact ⟨hyanked, hheld, .inr (.inr hdelayed)⟩

/-- One policy passes what the other does as soon as it lets the undecided versions through
that the other does. -/
theorem policyGate_imp_iff (ses : Session) (now : Timestamp) (p q : UpdateMode × ℤ)
    (pv : PackageVersion) :
    (policyGate ses now p.1 p.2 pv = true → policyGate ses now q.1 q.2 pv = true) ↔
      (pv.Undecided → Lets ses now p pv → Lets ses now q pv) := by
  rw [policyGate_iff, policyGate_iff]
  constructor
  · rintro himp ⟨hyanked, hheld, hopen⟩ hlets
    obtain ⟨-, -, happroved | hlets'⟩ := himp ⟨hyanked, hheld, .inr hlets⟩
    · exact absurd hopen happroved
    · exact hlets'
  · rintro himp ⟨hyanked, hheld, happroved | hlets⟩
    · exact ⟨hyanked, hheld, .inl happroved⟩
    · refine ⟨hyanked, hheld, ?_⟩
      by_cases hopen : pv.approvedAt = none
      · exact .inr (himp ⟨hyanked, hheld, hopen⟩ hlets)
      · exact .inl hopen

/-! ## The policy of a row -/

/-- The repository's policy tightened by the credential's override and by a grant's. -/
def Repository.tightened (r : Repository) (policy grant : PolicyOverride) : UpdateMode × ℤ :=
  let (mode, cooldownDays) := policy.effective r.updateMode r.cooldownDays
  grant.effective mode cooldownDays

/-- The override of a package row: of its explicit grant, and none without one. -/
def Catalog.ownPolicy (db : Catalog) (repo id : Uuid) : PolicyOverride :=
  (db.repositoryGrants.get? (repo, id)).getD ⟨none, none⟩

/-- The request is for the released versions of a package the credential may read. -/
def ReadsDocument (db : Catalog) (repo : Uuid) (access : Access) (rest name : String) : Prop :=
  (stripSuffix ".json" rest).map splitDev = some (name, false) ∧ access.allows db repo name = true

section Documents

variable (env : ReadEnv) (db : Catalog) (now : Timestamp) (repo : Uuid) (r : Repository)
  (access : Access) (policy : PolicyOverride) (rest name : String)

/-- The document's rows keep each grant's policy, and no owned row is missing for the policy
of another package's grant. -/
structure GrantPoliciesHold (rows : List Catalog.VersionRow) : Prop where
  granted : ∀ v ∈ rows, ∀ g, db.repositoryGrants.get? (repo, v.key.packageId) = some g →
    policyGate env.session now (r.tightened policy g).1 (r.tightened policy g).2 v.version = true
  owned : ReadsDocument db repo access rest name → ∀ v, db.Stored v → v.package.name = name →
    v.package.repoId = repo → db.admits repo v.package = true →
    PassesClause env.session (access.boundFor name) v.key v.version →
    policyGate env.session now (r.tightened policy (db.ownPolicy repo v.key.packageId)).1
      (r.tightened policy (db.ownPolicy repo v.key.packageId)).2 v.version = true → v ∈ rows

/-- What `serve_p2` may answer for one document. -/
def GrantPolicyGoverns (base : String) : Prop :=
  ∀ name rows, serveP2 env db now repo access policy base rest = .ok (.package name rows base) →
    GrantPoliciesHold env db now repo r access policy rest name rows

/-- No undecided version tells the policy looked up for the name from the policy of its row in
the harmful direction: a granted row's is not stricter, an owned row's not weaker. -/
structure GrantPoliciesFit : Prop where
  granted : ∀ v, db.Stored v → v.package.name = name →
    PassesClause env.session (access.boundFor name) v.key v.version → v.version.Undecided →
    db.admits repo v.package = true → ∀ g, db.repositoryGrants.get? (repo, v.key.packageId) = some g →
    Lets env.session now (r.tightened policy (db.grantPolicy repo name)) v.version →
    Lets env.session now (r.tightened policy g) v.version
  owned : ∀ v, db.Stored v → v.package.name = name →
    PassesClause env.session (access.boundFor name) v.key v.version → v.version.Undecided →
    db.admits repo v.package = true → v.package.repoId = repo →
    Lets env.session now (r.tightened policy (db.ownPolicy repo v.key.packageId)) v.version →
    Lets env.session now (r.tightened policy (db.grantPolicy repo name)) v.version

end Documents

/-! ## The document -/

section Answers

variable {env : ReadEnv} {db : Catalog} {now : Timestamp} {repo : Uuid} {r : Repository}
  {access : Access} {policy : PolicyOverride} {base rest name : String}
  {rows : List Catalog.VersionRow}

/-- A document is withheld and empty, or lists what the looked-up policy leaves visible. -/
theorem serveP2_document (hr : db.repositories.get? repo = some r)
    (h : serveP2 env db now repo access policy base rest = .ok (.package name rows base)) :
    ¬ ReadsDocument db repo access rest name ∧ rows = [] ∨
      ReadsDocument db repo access rest name ∧
        db.visibleVersions repo env.session env.compareNormalized now name
          (r.tightened policy (db.grantPolicy repo name)).1
          (r.tightened policy (db.grantPolicy repo name)).2 (access.boundFor name).untilUnix
          (access.boundFor name).major = .ok rows := by
  unfold ReadsDocument
  unfold serveP2 at h
  cases hstem : stripSuffix ".json" rest with
  | none =>
    rw [hstem] at h
    cases h
  | some stem =>
    rw [hstem] at h
    rcases hsplit : splitDev stem with ⟨package, isDev⟩
    rw [Option.map_some, hsplit]
    dsimp only at h
    rw [hsplit] at h
    dsimp only at h
    split_ifs at h with hwithheld
    · obtain ⟨rfl, rfl, -⟩ := ReadAnswer.package.inj (Except.ok.inj h)
      refine .inl ⟨?_, rfl⟩
      rintro ⟨hdev, hallows⟩
      obtain rfl := (Prod.mk.inj (Option.some.inj hdev)).2
      rw [hallows] at hwithheld
      cases hwithheld
    · obtain ⟨r', hr', hrest⟩ := Except.ok_of_bind h
      obtain ⟨rows', hrows, hanswer⟩ := Except.ok_of_bind hrest
      obtain ⟨rfl, rfl, -⟩ := ReadAnswer.package.inj (Except.ok.inj hanswer)
      rw [hr] at hr'
      obtain rfl := Except.ok.inj hr'
      simp only [Bool.or_eq_true, not_or, Bool.not_eq_true] at hwithheld
      obtain ⟨rfl, hallows⟩ := hwithheld
      exact .inr ⟨⟨rfl, by simpa using hallows⟩, Except.ok_of_mapError hrows⟩

/-- **Which rows a grant's policy governs.** A document keeps the policy of each granted row,
and misses no owned row for the policy of another package's grant, exactly when the policy
looked up for its name differs from the rows' own on no undecided version that matters. -/
theorem grant_policy_governs_iff (hr : db.repositories.get? repo = some r)
    (h : serveP2 env db now repo access policy base rest = .ok (.package name rows base)) :
    GrantPoliciesHold env db now repo r access policy rest name rows ↔
      (ReadsDocument db repo access rest name →
        GrantPoliciesFit env db now repo r access policy name) := by
  -- withheld: the document is empty and so says nothing of any version
  rcases serveP2_document hr h with ⟨hwithheld, rfl⟩ | ⟨hreads, hvisible⟩
  · constructor
    · exact fun _ hreads => absurd hreads hwithheld
    · intro _
      exact ⟨fun v hv => absurd hv List.not_mem_nil, fun hreads => absurd hreads hwithheld⟩
  -- a version is in the document exactly when the query admits it
  have hrows := db.mem_visibleVersions repo hvisible
  constructor
  · rintro hholds -
    constructor
    · intro v hstored hname hpasses hopen hadmits g hgrant
      refine (policyGate_imp_iff env.session now _ _ v.version).1 (fun hgate => ?_) hopen
      have hscope : db.servedScope repo v.key.packageId v.package = true := by
        unfold Catalog.servedScope Catalog.reaches
        simp [hgrant, hadmits]
      exact hholds.granted v ((hrows v).2 ⟨hstored, hname, hscope, hgate, hpasses⟩) g hgrant
    · intro v hstored hname hpasses hopen hadmits howned
      refine (policyGate_imp_iff env.session now _ _ v.version).1 (fun hgate => ?_) hopen
      have hmem := hholds.owned hreads v hstored hname howned hadmits hpasses hgate
      exact ((hrows v).1 hmem).2.2.2.1
  · intro hfits
    obtain ⟨hgranted, howned⟩ := hfits hreads
    constructor
    · intro v hmem g hgrant
      obtain ⟨hstored, hname, hscope, hgate, hpasses⟩ := (hrows v).1 hmem
      have hadmits := (Bool.and_eq_true_iff.1 hscope).2
      exact (policyGate_imp_iff env.session now _ _ v.version).2
        (fun hopen => hgranted v hstored hname hpasses hopen hadmits g hgrant) hgate
    · intro _ v hstored hname hrepo hadmits hpasses hgate
      have hscope : db.servedScope repo v.key.packageId v.package = true := by
        unfold Catalog.servedScope Catalog.reaches
        simp [hrepo, hadmits]
      refine (hrows v).2 ⟨hstored, hname, hscope, ?_, hpasses⟩
      exact (policyGate_imp_iff env.session now _ _ v.version).2
        (fun hopen => howned v hstored hname hpasses hopen hadmits hrepo) hgate

end Answers

namespace Storefront

/-- A repository that takes every release at once. -/
def main : Repository := ⟨1, "main", .auto, 0, true, false, none, none, none⟩

/-- The repository owns a package, and is granted another repository's of the same name, each
version of which is to be approved first. -/
def clash : Catalog :=
  { Catalog.empty with
    organizations := .single 1 ⟨"acme", none⟩
    repositories := ⟨[(1, main), (2, { main with slug := "shared" })], by decide⟩
    packages := ⟨[(1, package "acme/core" .private),
      (2, { package "acme/core" .private with repoId := 2 })], by decide⟩
    packageVersions := ⟨[(⟨1, "1.0.0.0"⟩, release "1.0.0" (digest 1) 0)], by decide⟩
    repositoryGrants := ⟨[((1, 2), ⟨some .manual, none⟩)], by decide⟩ }

/-- The document of the granted package is empty. -/
theorem serveP2_clash : serveP2 env clash 0 1 .full ⟨none, none⟩ "https://host/acme/main"
    "acme/core.json" = .ok (.package "acme/core" [] "https://host/acme/main") := by
  with_unfolding_all rfl

/-- The equivalence, at the clash of the two packages. -/
theorem grant_policy_governs_iff_clash :
    GrantPoliciesHold env clash 0 1 main .full ⟨none, none⟩ "acme/core.json" "acme/core" [] ↔
      (ReadsDocument clash 1 .full "acme/core.json" "acme/core" →
        GrantPoliciesFit env clash 0 1 main .full ⟨none, none⟩ "acme/core") :=
  grant_policy_governs_iff rfl serveP2_clash

/-- The repository's own release is hidden by the policy of the other package's grant. -/
theorem owned_version_hidden :
    clash.repositories.get? 1 = some main ∧
      ¬ GrantPolicyGoverns env clash 0 1 main .full ⟨none, none⟩ "acme/core.json"
        "https://host/acme/main" := by
  refine ⟨rfl, fun hgoverns => ?_⟩
  have hholds := hgoverns "acme/core" [] serveP2_clash
  have hmem := hholds.owned ⟨by decide, rfl⟩
    ⟨package "acme/core" .private, ⟨1, "1.0.0.0"⟩, release "1.0.0" (digest 1) 0⟩ ⟨rfl, rfl⟩ rfl rfl
    (by decide) (by decide) (by decide)
  exact List.not_mem_nil hmem

end Storefront

end Sconce
