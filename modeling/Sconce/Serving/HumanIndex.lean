/-
# The human index

The page a browser gets lists the packages the viewer can install, each with its newest
stable version.  It is made by one query under the repository's and the credential's policy;
a package's document is also held to the policy of its grant and to the bound of the key.
`index_matches_iff` says when the two agree.
-/
import Sconce.Serving.Anonymous
import Sconce.Serving.GrantPolicy

namespace Sconce

/-! ## The newest version -/

/-- Ahead of the other: stable where the other is not, else of a higher version. -/
def Outranks (compareNormalized : String → String → Ordering) (u v : Catalog.VersionRow) : Prop :=
  (u.version.stability = "stable" ∧ v.version.stability ≠ "stable") ∨
    (u.version.stability = "stable" ∨ v.version.stability ≠ "stable") ∧
      compareNormalized u.key.normalizedVersion v.key.normalizedVersion = .gt

/-- The newest stable version, or the newest of any stability where none is stable. -/
structure IsNewest (compareNormalized : String → String → Ordering)
    (rows : List Catalog.VersionRow) (v : Catalog.VersionRow) : Prop where
  mem : v ∈ rows
  first : ∀ u ∈ rows, ¬ Outranks compareNormalized u v

/-- `compare_normalized` keeps "the ordering total" on the versions that are stored. -/
def Catalog.VersionsOrdered (db : Catalog) (compareNormalized : String → String → Ordering) : Prop :=
  ∃ rank : String → ℕ, ∀ u v, db.Stored u → db.Stored v →
    compareNormalized u.key.normalizedVersion v.key.normalizedVersion
      = compare (rank u.key.normalizedVersion) (rank v.key.normalizedVersion)

/-- The last stable version of a list in version order is its newest. -/
theorem isNewest_of_newestOf {compareNormalized : String → String → Ordering}
    {rows : List Catalog.VersionRow}
    (hrefl : ∀ u ∈ rows,
      compareNormalized u.key.normalizedVersion u.key.normalizedVersion ≠ .gt)
    (hsorted : rows.Pairwise fun u v =>
      compareNormalized u.key.normalizedVersion v.key.normalizedVersion ≠ .gt)
    {v : Catalog.VersionRow} (h : newestOf rows = some v) : IsNewest compareNormalized rows v := by
  have hvmem := newestOf_mem h
  refine ⟨hvmem, fun u hu => ?_⟩
  have hreverse : rows.reverse.Pairwise fun u v =>
      compareNormalized v.key.normalizedVersion u.key.normalizedVersion ≠ .gt :=
    List.pairwise_reverse.2 hsorted
  have hmem : u ∈ rows.reverse := List.mem_reverse.2 hu
  unfold newestOf at h
  rcases Option.or_eq_some_iff.1 h with hfound | ⟨hnone, hlast⟩
  · -- the last stable row: what follows it is not stable, what precedes it is not higher
    obtain ⟨hstable, before, after, hsplit, hunstable⟩ := List.find?_eq_some_iff_append.1 hfound
    rw [beq_iff_eq] at hstable
    rintro (⟨-, hnot⟩ | ⟨hclass, hgt⟩)
    · exact hnot hstable
    · have hustable : u.version.stability = "stable" := hclass.resolve_right fun hnot => hnot hstable
      rw [hsplit] at hmem hreverse
      rcases List.mem_append.1 hmem with hbefore | hrest
      · have hnot := hunstable u hbefore
        simp [hustable] at hnot
      · rcases List.mem_cons.1 hrest with rfl | hafter
        · exact hrefl u hu hgt
        · have htail := (List.pairwise_append.1 hreverse).2.1
          exact (List.pairwise_cons.1 htail).1 u hafter hgt
  · -- no stable row: the last row is not below any other
    have hunstable : ∀ w ∈ rows, w.version.stability ≠ "stable" := by
      intro w hw hstable
      have hnot := List.find?_eq_none.1 hnone w (List.mem_reverse.2 hw)
      simp [hstable] at hnot
    rintro (⟨hstable, -⟩ | ⟨-, hgt⟩)
    · exact hunstable u hu hstable
    · obtain ⟨init, rfl⟩ := List.getLast?_eq_some_iff.1 hlast
      rcases List.mem_append.1 hu with hinit | hv
      · exact (List.pairwise_append.1 hsorted).2.2 u hinit v List.mem_cons_self hgt
      · rw [List.mem_singleton.1 hv] at hgt
        exact hrefl v hvmem hgt

/-- Ahead of the other in a list: stable where the other is not, else after it. -/
def AheadIn (rows : List Catalog.VersionRow) (u v : Catalog.VersionRow) : Prop :=
  (u.version.stability = "stable" ∧ v.version.stability ≠ "stable") ∨
    (u.version.stability = "stable" ∨ v.version.stability ≠ "stable") ∧ [v, u].Sublist rows

/-- What comes after a row that is there once stands behind it. -/
theorem mem_of_pair_sublist {α : Type*} {before after : List α} {v u : α}
    (hnodup : (before ++ v :: after).Nodup) (h : [v, u].Sublist (before ++ v :: after)) :
    u ∈ after := by
  have hsplit := List.nodup_append.1 hnodup
  have honce : v ∉ before := fun hv => hsplit.2.2 v hv v List.mem_cons_self rfl
  obtain ⟨l₁, l₂, heq, hl₁, hl₂⟩ := List.sublist_append_iff.1 h
  cases l₁ with
  | nil =>
    rw [List.nil_append] at heq
    rw [← heq] at hl₂
    exact List.singleton_sublist.1 (List.cons_sublist_cons.1 hl₂)
  | cons x l₁ =>
    obtain ⟨rfl, -⟩ := List.cons.inj heq
    exact absurd (hl₁.subset List.mem_cons_self) honce

/-- Of two rows of a list one comes after the other. -/
theorem pair_sublist_or {α : Type*} {rows : List α} {v u : α} (hv : v ∈ rows) (hu : u ∈ rows)
    (hne : v ≠ u) : [v, u].Sublist rows ∨ [u, v].Sublist rows := by
  obtain ⟨before, after, rfl⟩ := List.append_of_mem hv
  rcases List.mem_append.1 hu with hbefore | hrest
  · right
    exact (List.singleton_sublist.2 hbefore).append (List.singleton_sublist.2 List.mem_cons_self)
  · left
    have hafter := (List.mem_cons.1 hrest).resolve_left hne.symm
    exact ((List.singleton_sublist.2 hafter).cons_cons v).trans (List.sublist_append_right _ _)

/-- No two rows come after one another. -/
theorem not_pair_sublist {α : Type*} {rows : List α} (hnodup : rows.Nodup) {v u : α}
    (h : [v, u].Sublist rows) : ¬ [u, v].Sublist rows := by
  intro hback
  obtain ⟨before, after, rfl⟩ := List.append_of_mem (h.subset List.mem_cons_self)
  obtain ⟨between, rest, rfl⟩ := List.append_of_mem (mem_of_pair_sublist hnodup h)
  have hsplit : before ++ v :: (between ++ u :: rest) = (before ++ v :: between) ++ u :: rest := by
    rw [List.append_assoc, List.cons_append]
  rw [hsplit] at hnodup hback
  have hv := mem_of_pair_sublist hnodup hback
  exact (List.nodup_append.1 hnodup).2.2 v (List.mem_append_right _ List.mem_cons_self) v
    (List.mem_cons_of_mem u hv) rfl

/-- `summarize` shows the row of a name that no other is ahead of. -/
theorem newestOf_eq_some_iff {rows : List Catalog.VersionRow} (hnodup : rows.Nodup)
    (v : Catalog.VersionRow) :
    newestOf rows = some v ↔ v ∈ rows ∧ ∀ u ∈ rows, ¬ AheadIn rows u v := by
  have hfirst : ∀ w, newestOf rows = some w → w ∈ rows ∧ ∀ u ∈ rows, ¬ AheadIn rows u w := by
    intro w h
    refine ⟨newestOf_mem h, fun u hu => ?_⟩
    unfold newestOf at h
    rcases Option.or_eq_some_iff.1 h with hfound | ⟨hnone, hlast⟩
    · -- what stands behind the last stable row is not stable
      obtain ⟨hstable, before, after, hsplit, hunstable⟩ := List.find?_eq_some_iff_append.1 hfound
      rw [beq_iff_eq] at hstable
      have hrows : rows = after.reverse ++ w :: before.reverse := by
        rw [← List.reverse_reverse rows, hsplit]
        simp
      rintro (⟨-, hnot⟩ | ⟨hclass, hafter⟩)
      · exact hnot hstable
      · have hustable := hclass.resolve_right fun hnot => hnot hstable
        rw [hrows] at hafter hnodup
        have hmem := List.mem_reverse.1 (mem_of_pair_sublist hnodup hafter)
        simpa [hustable] using hunstable u hmem
    · -- no row is stable, and nothing stands behind the last one
      have hunstable : u.version.stability ≠ "stable" := by
        simpa using List.find?_eq_none.1 hnone u (List.mem_reverse.2 hu)
      obtain ⟨init, rfl⟩ := List.getLast?_eq_some_iff.1 hlast
      rintro (⟨hstable, -⟩ | ⟨-, hafter⟩)
      · exact hunstable hstable
      · exact absurd (mem_of_pair_sublist hnodup hafter) List.not_mem_nil
  refine ⟨hfirst v, ?_⟩
  rintro ⟨hv, hnone⟩
  obtain ⟨w, hw⟩ := newestOf_isSome (List.ne_nil_of_mem hv)
  obtain ⟨hwmem, hwnone⟩ := hfirst w hw
  rw [hw]
  by_contra hne
  have hdistinct : v ≠ w := fun heq => hne (congrArg some heq.symm)
  by_cases hclass : v.version.stability = "stable" ↔ w.version.stability = "stable"
  · rcases pair_sublist_or hv hwmem hdistinct with hafter | hafter
    · refine hnone w hwmem (.inr ⟨?_, hafter⟩)
      rw [Ne, hclass]
      exact Classical.em _
    · refine hwnone v hv (.inr ⟨?_, hafter⟩)
      rw [Ne, ← hclass]
      exact Classical.em _
  · by_cases hstable : v.version.stability = "stable"
    · exact hwnone v hv (.inl ⟨hstable, fun h => hclass (iff_of_true hstable h)⟩)
    · refine hnone w hwmem (.inl ⟨?_, hstable⟩)
      by_contra hunstable
      exact hclass (iff_of_false hstable hunstable)

/-! ## A tightened policy -/

/-- A stricter policy lets nothing more through. -/
theorem lets_of_stricter {ses : Session} (hdays : ∀ t, Monotone (ses.addDays t)) {now : Timestamp}
    {p q : UpdateMode × ℤ} {pv : PackageVersion} (hmode : p.1.rank ≤ q.1.rank) (hdelay : p.2 ≤ q.2)
    (h : Lets ses now q pv) : Lets ses now p pv := by
  obtain ⟨mode, cooldownDays⟩ := p
  rcases h with hauto | ⟨hdelayed, t, ht, hle⟩
  · rw [hauto] at hmode
    cases mode with
    | auto => exact .inl rfl
    | delayed => exact absurd hmode (by simp [UpdateMode.rank])
    | manual => exact absurd hmode (by simp [UpdateMode.rank])
  · rw [hdelayed] at hmode
    cases mode with
    | auto => exact .inl rfl
    | delayed => exact .inr ⟨rfl, t, ht, (hdays t hdelay).trans hle⟩
    | manual => exact absurd hmode (by simp [UpdateMode.rank])

/-- An override is at least as strict as what it overrides. -/
theorem PolicyOverride.effective_stricter (policy : PolicyOverride) (mode : UpdateMode)
    (cooldownDays : ℤ) : mode.rank ≤ (policy.effective mode cooldownDays).1.rank ∧
      cooldownDays ≤ (policy.effective mode cooldownDays).2 := by
  unfold PolicyOverride.effective
  refine ⟨?_, le_max_right _ _⟩
  dsimp only
  cases policy.updateMode.or (if 0 < policy.cooldownDays.getD 0 then some .delayed else none) with
  | none => exact le_rfl
  | some m =>
    dsimp only
    split_ifs with hstricter
    · exact hstricter.le
    · exact le_rfl

/-- What passes under a grant's policy passes without it. -/
theorem policyGate_of_effective {ses : Session} (hdays : ∀ t, Monotone (ses.addDays t))
    {now : Timestamp} {grant : PolicyOverride} {mode : UpdateMode} {cooldownDays : ℤ}
    {pv : PackageVersion}
    (h : policyGate ses now (grant.effective mode cooldownDays).1
      (grant.effective mode cooldownDays).2 pv = true) :
    policyGate ses now mode cooldownDays pv = true := by
  obtain ⟨hmode, hdelay⟩ := grant.effective_stricter mode cooldownDays
  obtain ⟨hyanked, hheld, hpasses⟩ := (policyGate_iff ses now _ pv).1 h
  exact (policyGate_iff ses now (mode, cooldownDays) pv).2
    ⟨hyanked, hheld, hpasses.imp_right (lets_of_stricter hdays hmode hdelay)⟩

/-! ## What the index is made from -/

namespace Catalog

variable (db : Catalog) (repo : Uuid)

/-- The versions the index is made from, sorted as it has them: what the repository serves and the
policy admits. -/
def indexed (env : ReadEnv) (now : Timestamp) (policy : UpdateMode × ℤ) : List VersionRow :=
  (db.versionRows.filter fun r => db.servedScope repo r.key.packageId r.package &&
    policyGate env.session now policy.1 policy.2 r.version).mergeSort
      (summaryLe env.compareNormalized)

/-- The versions of a name the index considers, in the order it considers them. -/
def considered (env : ReadEnv) (now : Timestamp) (policy : UpdateMode × ℤ) (name : String) :
    List VersionRow :=
  (db.indexed repo env now policy).filter fun v => v.package.name == name

variable {db repo} {env : ReadEnv} {now : Timestamp} {policy : UpdateMode × ℤ} {name : String}

/-- A version of the name that the repository serves and the policy admits. -/
def Considers (db : Catalog) (repo : Uuid) (env : ReadEnv) (now : Timestamp)
    (policy : UpdateMode × ℤ) (name : String) (v : VersionRow) : Prop :=
  db.Stored v ∧ v.package.name = name ∧ db.servedScope repo v.key.packageId v.package = true ∧
    policyGate env.session now policy.1 policy.2 v.version = true

theorem mem_considered_iff (v : VersionRow) :
    v ∈ db.considered repo env now policy name ↔ db.Considers repo env now policy name v := by
  unfold considered indexed Considers
  rw [List.mem_filter, List.mem_mergeSort, List.mem_filter, mem_versionRows, Bool.and_eq_true,
    beq_iff_eq]
  constructor
  · rintro ⟨⟨hstored, hscope, hgate⟩, hname⟩
    exact ⟨hstored, hname, hscope, hgate⟩
  · rintro ⟨hstored, hname, hscope, hgate⟩
    exact ⟨⟨hstored, hscope, hgate⟩, hname⟩

/-- A version is stored once. -/
theorem versionRows_nodup (db : Catalog) : db.versionRows.Nodup := by
  refine List.Nodup.filterMap (fun a a' row ha ha' => ?_) db.packageVersions.nodup.of_map
  obtain ⟨p, -, rfl⟩ := Option.map_eq_some_iff.1 ha
  obtain ⟨p', -, heq⟩ := Option.map_eq_some_iff.1 ha'
  obtain ⟨-, hkey, hversion⟩ := VersionRow.mk.inj heq
  exact Prod.ext hkey.symm hversion.symm

theorem indexed_nodup : (db.indexed repo env now policy).Nodup :=
  (List.mergeSort_perm _ _).nodup_iff.2 (db.versionRows_nodup.sublist List.filter_sublist)

/-- The version the index shows for a name: none of the name's that it considers is ahead of it. -/
theorem newestOf_considered_iff (v : VersionRow) :
    newestOf (db.considered repo env now policy name) = some v ↔
      v ∈ db.considered repo env now policy name ∧
        ∀ u ∈ db.considered repo env now policy name,
          ¬ AheadIn (db.indexed repo env now policy) u v := by
  have hnodup : (db.considered repo env now policy name).Nodup :=
    indexed_nodup.sublist List.filter_sublist
  rw [newestOf_eq_some_iff hnodup]
  refine and_congr_right fun hv => forall₂_congr fun u hu => not_congr ?_
  -- two rows of the name stand in the whole list as they do among those of the name
  have hsame : [v, u].filter (fun w => w.package.name == name) = [v, u] := by
    rw [List.filter_eq_self, List.forall_mem_cons, List.forall_mem_singleton]
    exact ⟨(List.mem_filter.1 hv).2, (List.mem_filter.1 hu).2⟩
  have hpair : [v, u].Sublist (db.considered repo env now policy name) ↔
      [v, u].Sublist (db.indexed repo env now policy) := by
    constructor
    · exact fun h => h.trans List.filter_sublist
    · intro h
      have hkept := h.filter fun w => w.package.name == name
      rwa [hsame] at hkept
  unfold AheadIn
  rw [hpair]

/-- By name, then by rank. -/
def summaryOrder (rank : String → ℕ) (u v : VersionRow) : Bool :=
  ((compare u.package.name v.package.name).then
    (compare (rank u.key.normalizedVersion) (rank v.key.normalizedVersion))).isLE

/-- The index sorts by name, and then by rank. -/
theorem summaryOrder_iff (rank : String → ℕ) (u v : VersionRow) :
    summaryOrder rank u v = true ↔ u.package.name < v.package.name ∨
      u.package.name = v.package.name ∧
        rank u.key.normalizedVersion ≤ rank v.key.normalizedVersion := by
  unfold summaryOrder
  rcases lt_trichotomy u.package.name v.package.name with hlt | heq | hgt
  · rw [compare_lt_iff_lt.2 hlt]
    simp [hlt]
  · rw [compare_eq_iff_eq.2 heq]
    simp [heq, Nat.isLE_compare]
  · rw [compare_gt_iff_gt.2 hgt]
    simp [hgt.not_gt, hgt.ne']

theorem summaryOrder_trans (rank : String → ℕ) (u v w : VersionRow)
    (huv : summaryOrder rank u v = true) (hvw : summaryOrder rank v w = true) :
    summaryOrder rank u w = true := by
  rw [summaryOrder_iff] at huv hvw ⊢
  rcases huv with hlt | ⟨heq, hle⟩
  · rcases hvw with hlt' | ⟨heq', -⟩
    · exact .inl (hlt.trans hlt')
    · exact .inl (heq' ▸ hlt)
  · rcases hvw with hlt' | ⟨heq', hle'⟩
    · exact .inl (heq ▸ hlt')
    · exact .inr ⟨heq.trans heq', hle.trans hle'⟩

theorem summaryOrder_total (rank : String → ℕ) (u v : VersionRow) :
    (summaryOrder rank u v || summaryOrder rank v u) = true := by
  rw [Bool.or_eq_true, summaryOrder_iff, summaryOrder_iff]
  rcases lt_trichotomy u.package.name v.package.name with hlt | heq | hgt
  · exact .inl (.inl hlt)
  · exact (le_total _ _).imp (fun h => .inr ⟨heq, h⟩) (fun h => .inr ⟨heq.symm, h⟩)
  · exact .inr (.inl hgt)

/-- Where the versions are ordered the index is sorted by name and rank. -/
theorem indexed_eq {rank : String → ℕ}
    (hrank : ∀ u v, db.Stored u → db.Stored v →
      env.compareNormalized u.key.normalizedVersion v.key.normalizedVersion
        = compare (rank u.key.normalizedVersion) (rank v.key.normalizedVersion)) :
    db.indexed repo env now policy =
      (db.versionRows.filter fun r => db.servedScope repo r.key.packageId r.package &&
        policyGate env.session now policy.1 policy.2 r.version).mergeSort (summaryOrder rank) := by
  unfold indexed
  rw [← List.map_id (List.mergeSort _ (summaryLe _)), List.map_mergeSort (s := summaryOrder rank),
    List.map_id]
  intro u hu v hv
  have hu' := (db.mem_versionRows u).1 (List.mem_filter.1 hu).1
  have hv' := (db.mem_versionRows v).1 (List.mem_filter.1 hv).1
  unfold summaryLe
  rw [hrank u v hu' hv']
  rfl

/-- The version shown is the newest of those considered. -/
theorem isNewest_considered (horder : db.VersionsOrdered env.compareNormalized) {v : VersionRow}
    (h : newestOf (db.considered repo env now policy name) = some v) :
    IsNewest env.compareNormalized (db.considered repo env now policy name) v := by
  obtain ⟨rank, hrank⟩ := horder
  have hstored : ∀ u ∈ db.considered repo env now policy name, db.Stored u :=
    fun u hu => ((mem_considered_iff u).1 hu).1
  refine isNewest_of_newestOf ?_ ?_ h
  · intro u hu
    rw [hrank u u (hstored u hu) (hstored u hu), compare_eq_iff_eq.2 rfl]
    exact nofun
  · -- sorted by name and rank, so within one name by rank
    have hindexed : (db.indexed repo env now policy).Pairwise fun u v =>
        summaryOrder rank u v = true := by
      rw [indexed_eq hrank]
      exact List.pairwise_mergeSort (summaryOrder_trans rank) (summaryOrder_total rank) _
    have hconsidered := hindexed.sublist
      (List.filter_sublist (p := fun v => v.package.name == name))
    refine List.Pairwise.imp_of_mem ?_ hconsidered
    intro u v hu hv hle
    have hsame := ((mem_considered_iff u).1 hu).2.1.trans ((mem_considered_iff v).1 hv).2.1.symm
    have hrankle := ((summaryOrder_iff rank u v).1 hle).resolve_left hsame.not_lt
    rw [hrank u v (hstored u hu) (hstored v hv)]
    exact fun hgt => hrankle.2.not_gt (compare_gt_iff_gt.1 hgt)

/-- Ahead of the other: above it, or level with it and listed after it by the database. -/
def Ahead (db : Catalog) (compareNormalized : String → String → Ordering) (u v : VersionRow) :
    Prop :=
  Outranks compareNormalized u v ∨
    ¬ Outranks compareNormalized v u ∧ [v, u].Sublist db.versionRows

/-- The index sorts two versions of a name by their ranks, and leaves level ones as they are. -/
theorem pair_sublist_indexed_iff {rank : String → ℕ}
    (hrank : ∀ u v, db.Stored u → db.Stored v →
      env.compareNormalized u.key.normalizedVersion v.key.normalizedVersion
        = compare (rank u.key.normalizedVersion) (rank v.key.normalizedVersion))
    {u v : VersionRow} (hu : db.Considers repo env now policy name u)
    (hv : db.Considers repo env now policy name v) (hne : v ≠ u) :
    [v, u].Sublist (db.indexed repo env now policy) ↔
      rank v.key.normalizedVersion < rank u.key.normalizedVersion ∨
        rank v.key.normalizedVersion = rank u.key.normalizedVersion ∧
          [v, u].Sublist db.versionRows := by
  have hmem : ∀ w, db.Considers repo env now policy name w → w ∈ db.indexed repo env now policy :=
    fun w hw => (List.mem_filter.1 ((mem_considered_iff w).2 hw)).1
  have hsame : v.package.name = u.package.name := hv.2.1.trans hu.2.1.symm
  -- what is level keeps the order of the database
  have hstable : ∀ w x, db.Considers repo env now policy name w →
      db.Considers repo env now policy name x →
      rank w.key.normalizedVersion = rank x.key.normalizedVersion →
      [w, x].Sublist db.versionRows → [w, x].Sublist (db.indexed repo env now policy) := by
    intro w x hw hx heq hrows
    have hpair : [w, x].filter (fun r => db.servedScope repo r.key.packageId r.package &&
        policyGate env.session now policy.1 policy.2 r.version) = [w, x] := by
      rw [List.filter_eq_self, List.forall_mem_cons, List.forall_mem_singleton, Bool.and_eq_true,
        Bool.and_eq_true]
      exact ⟨hw.2.2, hx.2.2⟩
    have hkept := hrows.filter fun r => db.servedScope repo r.key.packageId r.package &&
      policyGate env.session now policy.1 policy.2 r.version
    rw [hpair] at hkept
    rw [indexed_eq hrank]
    exact List.pair_sublist_mergeSort (summaryOrder_trans rank) (summaryOrder_total rank)
      ((summaryOrder_iff rank w x).2 (.inr ⟨hw.2.1.trans hx.2.1.symm, heq.le⟩)) hkept
  have hle : ∀ w x, w.package.name = x.package.name →
      [w, x].Sublist (db.indexed repo env now policy) →
        rank w.key.normalizedVersion ≤ rank x.key.normalizedVersion := by
    intro w x hname hpair
    rw [indexed_eq hrank] at hpair
    have hsorted := (List.pairwise_mergeSort (summaryOrder_trans rank) (summaryOrder_total rank)
      (db.versionRows.filter fun r => db.servedScope repo r.key.packageId r.package &&
        policyGate env.session now policy.1 policy.2 r.version)).sublist hpair
    have hfirst := (List.pairwise_cons.1 hsorted).1 x List.mem_cons_self
    exact (((summaryOrder_iff rank w x).1 hfirst).resolve_left hname.not_lt).2
  constructor
  · intro hpair
    rcases (hle v u hsame hpair).lt_or_eq with hlt | heq
    · exact .inl hlt
    · refine .inr ⟨heq, ?_⟩
      have hrow : ∀ w, db.Considers repo env now policy name w → w ∈ db.versionRows :=
        fun w hw => (db.mem_versionRows w).2 hw.1
      rcases pair_sublist_or (hrow v hv) (hrow u hu) hne with h | h
      · exact h
      · exact absurd (hstable u v hu hv heq.symm h) (not_pair_sublist indexed_nodup hpair)
  · rintro (hlt | ⟨heq, hrows⟩)
    · rcases pair_sublist_or (hmem v hv) (hmem u hu) hne with h | h
      · exact h
      · exact absurd (hle u v hsame.symm h) hlt.not_ge
    · exact hstable v u hv hu heq hrows

/-- Where the versions are ordered, what is ahead in the index is told by the versions stored. -/
theorem aheadIn_indexed_iff (horder : db.VersionsOrdered env.compareNormalized) {u v : VersionRow}
    (hu : db.Considers repo env now policy name u) (hv : db.Considers repo env now policy name v) :
    AheadIn (db.indexed repo env now policy) u v ↔ db.Ahead env.compareNormalized u v := by
  obtain ⟨rank, hrank⟩ := horder
  have hcompare : ∀ w x, db.Stored w → db.Stored x →
      (env.compareNormalized w.key.normalizedVersion x.key.normalizedVersion = .gt ↔
        rank x.key.normalizedVersion < rank w.key.normalizedVersion) := by
    intro w x hw hx
    rw [hrank w x hw hx]
    exact compare_gt_iff_gt
  by_cases heq : v = u
  · rw [heq]
    have honce : ∀ rows : List VersionRow, rows.Nodup → ¬ [u, u].Sublist rows := fun rows hrows h =>
      not_pair_sublist hrows h h
    unfold AheadIn Ahead Outranks
    rw [hcompare u u hu.1 hu.1]
    simp [honce _ indexed_nodup, honce _ db.versionRows_nodup]
  · unfold AheadIn Ahead Outranks
    rw [pair_sublist_indexed_iff hrank hu hv heq, hcompare u v hu.1 hv.1, hcompare v u hv.1 hu.1]
    by_cases hustable : u.version.stability = "stable" <;>
      by_cases hvstable : v.version.stability = "stable" <;>
        simp only [hustable, hvstable, not_true_eq_false, not_false_eq_true, true_and, false_and,
          and_true, and_false, true_or, or_true, or_false, false_or, or_self, ne_eq, not_lt] <;>
        grind

end Catalog

/-! ## Index and documents -/

section Viewer

variable (env : ReadEnv) (store : ObjectStore) (db : Catalog) (now : Timestamp) (repo : Uuid)
  (base : String) (authorization : Authorization)

/-- The viewer's `packages.json` lists the name. -/
def ListsName (name : String) : Prop :=
  ∃ manifest, serveRoute env store db now repo base authorization .packagesJson
    = .ok (.root manifest) ∧ name ∈ manifest.availablePackages

/-- The viewer's document of the package lists versions. -/
def ListsVersions (name : String) (rows : List Catalog.VersionRow) : Prop :=
  rows ≠ [] ∧ serveRoute env store db now repo base authorization (.p2 (name ++ ".json"))
    = .ok (.package name rows base)

/-- The entries are the names of `packages.json` with a document that is not empty, each with
the newest version in it. -/
structure IndexShows (packages : List IndexPackage) : Prop where
  names : ∀ name, (∃ e ∈ packages, e.name = name) ↔
    ListsName env store db now repo base authorization name ∧
      ∃ rows, ListsVersions env store db now repo base authorization name rows
  latest : ∀ e ∈ packages, ∀ rows,
    ListsVersions env store db now repo base authorization e.name rows →
      ∃ v, IsNewest env.compareNormalized rows v ∧ e.latest = some v.version.version

/-- Whatever is searched for, the index shows what the viewer can install; and a viewer who gets a
`packages.json` of the repository gets an index. -/
structure IndexMatches : Prop where
  answered : (db.repositories.get? repo).isSome → ∀ manifest,
    serveRoute env store db now repo base authorization .packagesJson = .ok (.root manifest) →
      ∀ q, ∃ listed packages, serveRoute env store db now repo base authorization (.index q)
        = .ok (.index listed packages)
  shows : ∀ q listed packages, serveRoute env store db now repo base authorization (.index q)
    = .ok (.index listed packages) → IndexShows env store db now repo base authorization packages

variable (r : Repository) (access : Access) (policy : PolicyOverride) (name : String)

/-- The policy of the package's grant and the bound of the key let the version through. -/
def Installable (v : Catalog.VersionRow) : Prop :=
  policyGate env.session now (r.tightened policy (db.grantPolicy repo name)).1
      (r.tightened policy (db.grantPolicy repo name)).2 v.version = true ∧
    PassesClause env.session (access.boundFor name) v.key v.version

/-- The versions of a name the index considers. -/
abbrev consideredOf : List Catalog.VersionRow :=
  db.considered repo env now (policy.effective r.updateMode r.cooldownDays) name

/-- The version is considered for its name, and none that is stands ahead of it. -/
structure Leads (v : Catalog.VersionRow) : Prop where
  considered : db.Considers repo env now (policy.effective r.updateMode r.cooldownDays) name v
  first : ∀ u, db.Considers repo env now (policy.effective r.updateMode r.cooldownDays) name u →
    ¬ AheadIn (db.indexed repo env now (policy.effective r.updateMode r.cooldownDays)) u v

/-- The document of the name is one of releases, and its query answers on every version. -/
structure DocumentAnswers : Prop where
  released : splitDev name = (name, false)
  answers : ∀ v, db.Stored v → v.package.name = name →
    db.servedScope repo v.key.packageId v.package = true →
    v.Answers env.session now (r.tightened policy (db.grantPolicy repo name)).1
      (r.tightened policy (db.grantPolicy repo name)).2 (access.boundFor name).untilUnix
      (access.boundFor name).major

/-- The grant's policy and the bound keep a version with the text of another, and none above. -/
structure StandsFor (v w : Catalog.VersionRow) : Prop where
  considered : db.Considers repo env now (policy.effective r.updateMode r.cooldownDays) name w
  text : w.version.version = v.version.version
  installable : Installable env db now repo r access policy name w
  above : ∀ u, db.Considers repo env now (policy.effective r.updateMode r.cooldownDays) name u →
    Outranks env.compareNormalized u w → ¬ Installable env db now repo r access policy name u

/-- The version that leads a name is no promise the document breaks: it is kept, or another stands
for it. -/
structure ShowsInstallable (leading : Catalog.VersionRow) : Prop
    extends DocumentAnswers env db now repo r access policy name where
  kept : ∃ w, StandsFor env db now repo r access policy name leading w

/-- The dates of an authorized viewer's index are in range, and the version that leads each name the
viewer may list is no promise that the document breaks. -/
def KeepsLeading : Prop :=
  ∀ access policy r, authorize env db now repo authorization = .ok (access, policy) →
    db.repositories.get? repo = some r →
      db.SummariesInRange repo env.session (policy.effective r.updateMode r.cooldownDays).1
          (policy.effective r.updateMode r.cooldownDays).2 ∧
        ∀ name ∈ access.names db repo, ∀ v, Leads env db now repo r policy name v →
          ShowsInstallable env db now repo r access policy name v

/-- The same told by the versions stored: of each name, the policy of the grant and the bound of the
key keep the highest version, the one the database lists last of several that are level, or else
another of its text with none above it. -/
def KeepsHighest : Prop :=
  ∀ access policy r, authorize env db now repo authorization = .ok (access, policy) →
    db.repositories.get? repo = some r →
      db.SummariesInRange repo env.session (policy.effective r.updateMode r.cooldownDays).1
          (policy.effective r.updateMode r.cooldownDays).2 ∧
        ∀ name ∈ access.names db repo, ∀ v,
          db.Considers repo env now (policy.effective r.updateMode r.cooldownDays) name v →
          (∀ u, db.Considers repo env now (policy.effective r.updateMode r.cooldownDays) name u →
            ¬ db.Ahead env.compareNormalized u v) →
          DocumentAnswers env db now repo r access policy name ∧
            (Installable env db now repo r access policy name v ∨
              ∃ w, StandsFor env db now repo r access policy name v w)

end Viewer

/-! ## What the routes answer -/

section Answers

variable {env : ReadEnv} {store : ObjectStore} {db : Catalog} {now : Timestamp} {repo : Uuid}
  {base : String} {authorization : Authorization} {r : Repository} {access : Access}
  {policy : PolicyOverride} {name : String}

/-- Whoever is authorized without a header reads a repository open to anonymous readers. -/
theorem anonymousAccess_of_absent (hr : db.repositories.get? repo = some r)
    (h : authorize env db now repo .absent = .ok (access, policy)) : r.anonymousAccess = true := by
  unfold authorize at h
  rw [if_pos rfl] at h
  obtain ⟨settings, hsettings, hrest⟩ := Except.ok_of_bind h
  rw [hr] at hsettings
  obtain rfl := Except.ok.inj hsettings
  by_contra hclosed
  rw [if_neg hclosed] at hrest
  cases hrest

/-- The index of an authorized viewer, made from the summaries. -/
theorem serveIndex_of_authorize (hr : db.repositories.get? repo = some r)
    (hauth : authorize env db now repo authorization = .ok (access, policy)) (q : Option String) :
    serveIndex env db now repo authorization q =
      ((db.servedVersionSummaries repo env.session env.compareNormalized now
        (policy.effective r.updateMode r.cooldownDays).1
        (policy.effective r.updateMode r.cooldownDays).2).mapError .catalog).map fun versions =>
          .index true ((summarize env (versions.filter fun v =>
            v.package.name ∈ access.names db repo)).map fun p =>
              { p with hidden := !matchesTerms env (q.getD "") p }) := by
  have hopen : (authorization ≠ .absent || r.anonymousAccess) = true := by
    by_cases habsent : authorization = .absent
    · rw [habsent] at hauth
      rw [anonymousAccess_of_absent hr hauth, Bool.or_true]
    · simp [habsent]
  unfold serveIndex
  rw [hr]
  show (if (authorization ≠ .absent || r.anonymousAccess) = true then _ else _) = _
  rw [if_pos hopen, hauth]
  show (Except.mapError AppError.catalog (db.servedVersionSummaries repo env.session
    env.compareNormalized now (policy.effective r.updateMode r.cooldownDays).1
    (policy.effective r.updateMode r.cooldownDays).2) >>= _) = _
  cases db.servedVersionSummaries repo env.session env.compareNormalized now
      (policy.effective r.updateMode r.cooldownDays).1
      (policy.effective r.updateMode r.cooldownDays).2 with
  | error e => rfl
  | ok versions => rfl

/-- An index that is answered to an authorized viewer had its dates in range. -/
theorem summariesInRange_of_index {store : ObjectStore} {base : String}
    (hr : db.repositories.get? repo = some r)
    (hauth : authorize env db now repo authorization = .ok (access, policy)) {q : Option String}
    {listed : Bool} {packages : List IndexPackage}
    (h : serveRoute env store db now repo base authorization (.index q)
      = .ok (.index listed packages)) :
    db.SummariesInRange repo env.session (policy.effective r.updateMode r.cooldownDays).1
      (policy.effective r.updateMode r.cooldownDays).2 := by
  have hindex : serveIndex env db now repo authorization q = .ok (.index listed packages) := h
  rw [serveIndex_of_authorize hr hauth] at hindex
  cases hversions : db.servedVersionSummaries repo env.session env.compareNormalized now
      (policy.effective r.updateMode r.cooldownDays).1
      (policy.effective r.updateMode r.cooldownDays).2 with
  | error e =>
    rw [hversions] at hindex
    cases hindex
  | ok versions => exact db.servedVersionSummaries_ok repo hversions

/-- Restricting to the names that may be listed keeps all versions of such a name. -/
theorem filter_allowed {versions : List Catalog.VersionRow} {allowed : List String} {name : String}
    (hname : name ∈ allowed) :
    (versions.filter fun v => v.package.name ∈ allowed).filter (fun v => v.package.name == name)
      = versions.filter fun v => v.package.name == name := by
  rw [List.filter_filter]
  refine List.filter_congr fun v _ => ?_
  by_cases hv : v.package.name = name
  · simp [hv, hname]
  · simp [hv]

/-- The entries of the index: one for each name the viewer may list that has a version
considered, with the version shown for it. -/
theorem index_entries (store : ObjectStore) (base : String)
    (hr : db.repositories.get? repo = some r)
    (hauth : authorize env db now repo authorization = .ok (access, policy))
    (hrange : db.SummariesInRange repo env.session (policy.effective r.updateMode r.cooldownDays).1
      (policy.effective r.updateMode r.cooldownDays).2) (q : Option String) :
    ∃ packages, serveRoute env store db now repo base authorization (.index q)
        = .ok (.index true packages) ∧
      (∀ name, (∃ e ∈ packages, e.name = name) ↔
        name ∈ access.names db repo ∧ consideredOf env db now repo r policy name ≠ []) ∧
      ∀ e ∈ packages, e.name ∈ access.names db repo ∧
        ∃ shown, newestOf (consideredOf env db now repo r policy e.name) = some shown ∧
          e.latest = some shown.version.version := by
  refine ⟨(summarize env ((db.indexed repo env now (policy.effective r.updateMode
    r.cooldownDays)).filter fun v => v.package.name ∈ access.names db repo)).map fun p =>
      { p with hidden := !matchesTerms env (q.getD "") p }, ?_, fun name => ?_, fun e he => ?_⟩
  · show serveIndex env db now repo authorization q = _
    rw [serveIndex_of_authorize hr hauth, db.servedVersionSummaries_eq repo hrange]
    rfl
  · -- a name is listed when one of its versions is considered
    unfold summarize consideredOf Catalog.considered
    simp only [List.mem_map, List.mem_dedup, exists_exists_and_eq_and, List.mem_filter,
      decide_eq_true_eq, ne_eq, List.filter_eq_nil_iff, not_forall, beq_iff_eq, not_not]
    constructor
    · rintro ⟨u, ⟨hu, hallowed⟩, rfl⟩
      exact ⟨hallowed, u, hu, rfl⟩
    · rintro ⟨hallowed, u, hu, rfl⟩
      exact ⟨u, ⟨hu, hallowed⟩, rfl⟩
  · obtain ⟨e₀, he₀, rfl⟩ := List.mem_map.1 he
    obtain ⟨name, hname, rfl⟩ := List.mem_map.1 he₀
    rw [List.mem_dedup, List.mem_map] at hname
    obtain ⟨u, hu, rfl⟩ := hname
    obtain ⟨humem, hallowed⟩ := List.mem_filter.1 hu
    rw [decide_eq_true_eq] at hallowed
    dsimp only
    -- the names not allowed were filtered first, which leaves this name its versions
    rw [filter_allowed hallowed]
    have hne : consideredOf env db now repo r policy u.package.name ≠ [] :=
      List.ne_nil_of_mem (List.mem_filter.2 ⟨humem, beq_self_eq_true _⟩)
    obtain ⟨shown, hshown⟩ := newestOf_isSome hne
    exact ⟨hallowed, shown, hshown, congrArg (Option.map _) hshown⟩

/-- A viewer who is not authorized is listed nothing. -/
theorem index_of_unauthorized {e : AppError}
    (hauth : authorize env db now repo authorization = .error e) {q : Option String}
    {listed : Bool} {packages : List IndexPackage}
    (h : serveRoute env store db now repo base authorization (.index q)
      = .ok (.index listed packages)) : packages = [] := by
  obtain ⟨listed', packages', hanswer, hempty | ⟨access, policy, _, _, _, hok, -⟩⟩ :=
    serveIndex_cases h
  · rw [(ReadAnswer.index.inj hanswer).2, hempty]
  · rw [hauth] at hok
    cases hok

theorem allows_of_mem_names (h : name ∈ access.names db repo) :
    access.allows db repo name = true := by
  cases access with
  | full => rfl
  | licensed entitled =>
    obtain ⟨⟨_, bound⟩, hmem, rfl⟩ := List.mem_map.1 h
    unfold Access.allows
    dsimp only
    rw [Option.isSome_iff_ne_none, Ne, List.lookup_eq_none_iff]
    exact fun hnone => absurd (hnone _ hmem) (by simp)
  | anonymous =>
    obtain ⟨-, hsome, hpublic⟩ := (db.mem_anonymousPackageNames repo none name).1 h
    have hmem : name ∈ db.anonymousPackageNames repo (some name) :=
      (db.mem_anonymousPackageNames repo (some name) name).2
        ⟨fun n hn => Option.some.inj hn, hsome, hpublic⟩
    unfold Access.allows
    rw [Bool.not_eq_true', List.isEmpty_eq_false_iff]
    exact List.ne_nil_of_mem hmem

/-- The index lists the names of the reader's access. -/
theorem listsName_iff (hauth : authorize env db now repo authorization = .ok (access, policy)) :
    ListsName env store db now repo base authorization name ↔ name ∈ access.names db repo := by
  have hroot : serveRoute env store db now repo base authorization .packagesJson
      = .ok (serveRoot db repo access base) := by
    show (authorize env db now repo authorization >>= _) = _
    rw [hauth]
    rfl
  unfold ListsName
  rw [hroot]
  unfold serveRoot renderRoot Access.names
  constructor
  · rintro ⟨manifest, hmanifest, hmem⟩
    rw [← ReadAnswer.root.inj (Except.ok.inj hmanifest)] at hmem
    cases access with
    | full => exact hmem
    | licensed entitled => exact (List.mem_insertionSort _).1 hmem
    | anonymous => exact hmem
  · intro hmem
    refine ⟨_, rfl, ?_⟩
    cases access with
    | full => exact hmem
    | licensed entitled => exact (List.mem_insertionSort _).2 hmem
    | anonymous => exact hmem

/-- What is installable is among what the index considers. -/
theorem gate_of_tightened (hdays : ∀ t, Monotone (env.session.addDays t)) {grant : PolicyOverride}
    {pv : PackageVersion} (h : policyGate env.session now (r.tightened policy grant).1
      (r.tightened policy grant).2 pv = true) :
    policyGate env.session now (policy.effective r.updateMode r.cooldownDays).1
      (policy.effective r.updateMode r.cooldownDays).2 pv = true :=
  policyGate_of_effective hdays h

/-- A document with versions is that of a name the viewer may read; its condition answers on every
version of the name, and it lists what of it is considered and installable. -/
theorem ListsVersions.spec (hdays : ∀ t, Monotone (env.session.addDays t))
    (hr : db.repositories.get? repo = some r)
    (hauth : authorize env db now repo authorization = .ok (access, policy))
    {rows : List Catalog.VersionRow}
    (h : ListsVersions env store db now repo base authorization name rows) :
    splitDev name = (name, false) ∧
      (∀ v, db.Stored v → v.package.name = name →
        db.servedScope repo v.key.packageId v.package = true →
        v.Answers env.session now (r.tightened policy (db.grantPolicy repo name)).1
          (r.tightened policy (db.grantPolicy repo name)).2 (access.boundFor name).untilUnix
          (access.boundFor name).major) ∧
      ∀ v, v ∈ rows ↔
        db.Considers repo env now (policy.effective r.updateMode r.cooldownDays) name v ∧
          Installable env db now repo r access policy name v := by
  obtain ⟨hne, hroute⟩ := h
  have hp2 : serveP2 env db now repo access policy base (name ++ ".json")
      = .ok (.package name rows base) := by
    rw [← hroute]
    show _ = (authorize env db now repo authorization >>= _)
    rw [hauth]
    rfl
  rcases serveP2_document hr hp2 with ⟨-, hempty⟩ | ⟨⟨hstem, -⟩, hvisible⟩
  · exact absurd hempty hne
  rw [stripSuffix_append, Option.map_some] at hstem
  refine ⟨Option.some.inj hstem, ?_, fun v => ?_⟩
  · exact (db.visibleVersions_ok_iff repo env.session env.compareNormalized now name _ _ _ _).1
      ⟨rows, hvisible⟩
  · rw [db.mem_visibleVersions repo hvisible]
    constructor
    · rintro ⟨hstored, hname, hscope, hgate, hpasses⟩
      exact ⟨⟨hstored, hname, hscope, gate_of_tightened hdays hgate⟩, hgate, hpasses⟩
    · rintro ⟨⟨hstored, hname, hscope, -⟩, hgate, hpasses⟩
      exact ⟨hstored, hname, hscope, hgate, hpasses⟩

/-- A name with a version the grant's policy and the bound let through has a document. -/
theorem ShowsInstallable.listsVersions (hr : db.repositories.get? repo = some r)
    (hauth : authorize env db now repo authorization = .ok (access, policy))
    (hname : name ∈ access.names db repo) {leading : Catalog.VersionRow}
    (h : ShowsInstallable env db now repo r access policy name leading) :
    ∃ rows, ListsVersions env store db now repo base authorization name rows := by
  obtain ⟨⟨hreleased, hanswers⟩, v, ⟨hstored, hsame, hscope, -⟩, -, ⟨hgate, hpasses⟩, -⟩ := h
  obtain ⟨rows, hvisible⟩ := (db.visibleVersions_ok_iff repo env.session env.compareNormalized now
    name _ _ _ _).2 hanswers
  refine ⟨rows, ?_, ?_⟩
  · exact List.ne_nil_of_mem ((db.mem_visibleVersions repo hvisible v).2
      ⟨hstored, hsame, hscope, hgate, hpasses⟩)
  · show (authorize env db now repo authorization >>= _) = _
    rw [hauth]
    show serveP2 env db now repo access policy base (name ++ ".json") = _
    rw [serveP2_of_allows hreleased (allows_of_mem_names hname) hr]
    unfold Catalog.servedPolicy
    exact congrArg (fun rows => (Except.mapError AppError.catalog rows).map _) hvisible

end Answers

section Viewers

variable (env : ReadEnv) (store : ObjectStore) (db : Catalog) (now : Timestamp) (repo : Uuid)
  (base : String) (authorization : Authorization)

/-- What the index shows is what leads each name. -/
theorem indexMatches_iff_keepsLeading (hdays : ∀ t, Monotone (env.session.addDays t)) :
    IndexMatches env store db now repo base authorization ↔
      KeepsLeading env db now repo authorization := by
  constructor
  · rintro ⟨hanswered, hshown⟩ access policy r hauth hr
    have hroot : serveRoute env store db now repo base authorization .packagesJson
        = .ok (serveRoot db repo access base) := by
      show (authorize env db now repo authorization >>= _) = _
      rw [hauth]
      rfl
    obtain ⟨_, _, hindexed⟩ := hanswered (hr ▸ rfl) _ hroot none
    have hrange := summariesInRange_of_index hr hauth hindexed
    refine ⟨hrange, fun name hname leading hleads => ?_⟩
    obtain ⟨packages, hindex, hnames, hentries⟩ := index_entries store base hr hauth hrange none
    obtain ⟨hshows, hlatest⟩ := hshown none true packages hindex
    have hmem := (Catalog.mem_considered_iff leading).2 hleads.considered
    obtain ⟨e, he, rfl⟩ := (hnames name).2 ⟨hname, List.ne_nil_of_mem hmem⟩
    obtain ⟨-, rows, hrows⟩ := (hshows e.name).1 ⟨e, he, rfl⟩
    obtain ⟨v, hnewest, htext⟩ := hlatest e he rows hrows
    -- the entry is that of the version that leads the name
    obtain ⟨-, shown, hentry, htext'⟩ := hentries e he
    have hleading := (Catalog.newestOf_considered_iff leading).2
      ⟨hmem, fun u hu => hleads.first u ((Catalog.mem_considered_iff u).1 hu)⟩
    obtain rfl := Option.some.inj (hleading.symm.trans hentry)
    obtain ⟨hreleased, hanswers, hlists⟩ := hrows.spec hdays hr hauth
    obtain ⟨hconsidered, hinstallable⟩ := (hlists v).1 hnewest.mem
    refine ⟨⟨hreleased, hanswers⟩, v, hconsidered, Option.some.inj (htext.symm.trans htext'),
      hinstallable, fun u hu houtranks hinst => ?_⟩
    exact hnewest.first u ((hlists u).2 ⟨hu, hinst⟩) houtranks
  · intro hinstallable
    refine ⟨fun hrepo manifest hroot q => ?_, fun q listed packages hindex => ?_⟩
    · obtain ⟨⟨access, policy⟩, hauth, -⟩ := Except.ok_of_bind hroot
      obtain ⟨r, hr⟩ := Option.isSome_iff_exists.1 hrepo
      obtain ⟨packages, hindex, -⟩ := index_entries store base hr hauth
        (hinstallable access policy r hauth hr).1 q
      exact ⟨true, packages, hindex⟩
    cases hauth : authorize env db now repo authorization with
    | error err =>
      obtain rfl := index_of_unauthorized hauth hindex
      refine ⟨fun name => iff_of_false ?_ ?_, fun e he => absurd he List.not_mem_nil⟩
      · rintro ⟨e, he, -⟩
        exact List.not_mem_nil he
      · rintro ⟨⟨manifest, hroot, -⟩, -⟩
        have herror : serveRoute env store db now repo base authorization .packagesJson
            = .error err := by
          show (authorize env db now repo authorization >>= _) = _
          rw [hauth]
          rfl
        rw [herror] at hroot
        cases hroot
    | ok authorized =>
      obtain ⟨access, policy⟩ := authorized
      cases hr : db.repositories.get? repo with
      | none =>
        have herror : serveRoute env store db now repo base authorization (.index q)
            = .error (.catalog .rowNotFound) := by
          show (fetchOne (db.repositories.get? repo) >>= _) = _
          rw [hr]
          rfl
        rw [herror] at hindex
        cases hindex
      | some r =>
        obtain ⟨hrange, hkept⟩ := hinstallable access policy r hauth hr
        obtain ⟨packages', hindex', hnames, hentries⟩ := index_entries store base hr hauth hrange q
        rw [hindex'] at hindex
        obtain rfl := (ReadAnswer.index.inj (Except.ok.inj hindex)).2
        -- what is shown for a name leads it
        have hleads : ∀ name shown,
            newestOf (consideredOf env db now repo r policy name) = some shown →
              Leads env db now repo r policy name shown := by
          intro name shown hshown
          obtain ⟨hmem, hfirst⟩ := (Catalog.newestOf_considered_iff shown).1 hshown
          exact ⟨(Catalog.mem_considered_iff shown).1 hmem, fun u hu =>
            hfirst u ((Catalog.mem_considered_iff u).2 hu)⟩
        refine ⟨fun name => ⟨?_, ?_⟩, fun e he rows hrows => ?_⟩
        · intro hentry
          obtain ⟨hname, hne⟩ := (hnames name).1 hentry
          obtain ⟨shown, hshown⟩ := newestOf_isSome hne
          exact ⟨(listsName_iff hauth).2 hname,
            (hkept name hname shown (hleads name shown hshown)).listsVersions hr hauth hname⟩
        · rintro ⟨hlists, rows, hrows⟩
          obtain ⟨-, -, hmem⟩ := hrows.spec hdays hr hauth
          obtain ⟨v, hv⟩ := List.exists_mem_of_ne_nil _ hrows.1
          exact (hnames name).2 ⟨(listsName_iff hauth).1 hlists,
            List.ne_nil_of_mem ((Catalog.mem_considered_iff v).2 ((hmem v).1 hv).1)⟩
        · obtain ⟨hname, shown, hshown, htext⟩ := hentries e he
          obtain ⟨-, v, hconsidered, hsame, hinst, hfirst⟩ :=
            hkept e.name hname shown (hleads e.name shown hshown)
          obtain ⟨-, -, hmem⟩ := hrows.spec hdays hr hauth
          refine ⟨v, ⟨(hmem v).2 ⟨hconsidered, hinst⟩, fun u hu houtranks => ?_⟩, htext.trans
            (congrArg some hsame.symm)⟩
          exact hfirst u ((hmem u).1 hu).1 houtranks ((hmem u).1 hu).2

/-- What leads a name is its highest version, where the versions are ordered. -/
theorem keepsLeading_iff_keepsHighest (horder : db.VersionsOrdered env.compareNormalized) :
    KeepsLeading env db now repo authorization ↔ KeepsHighest env db now repo authorization := by
  refine forall₃_congr fun access policy r => forall₂_congr fun _ _ => and_congr_right fun _ =>
    forall₂_congr fun name _ => forall_congr' fun v => ?_
  constructor
  · intro hshows hv hfirst
    have hleads : Leads env db now repo r policy name v :=
      ⟨hv, fun u hu => (Catalog.aheadIn_indexed_iff horder hu hv).not.2 (hfirst u hu)⟩
    exact ⟨(hshows hleads).toDocumentAnswers, .inr (hshows hleads).kept⟩
  · rintro hkept ⟨hv, hleads⟩
    have hfirst : ∀ u, db.Considers repo env now (policy.effective r.updateMode r.cooldownDays)
        name u → ¬ db.Ahead env.compareNormalized u v :=
      fun u hu => (Catalog.aheadIn_indexed_iff horder hu hv).not.1 (hleads u hu)
    obtain ⟨hdocument, hinstallable | hstands⟩ := hkept hv hfirst
    · -- nothing is above the version that leads, so it stands for itself
      exact ⟨hdocument, v, hv, rfl, hinstallable, fun u hu houtranks =>
        absurd (.inl houtranks) (hfirst u hu)⟩
    · exact ⟨hdocument, hstands⟩

end Viewers

namespace Storefront

/-- The clash of names, with a read token. -/
def clashWithToken : Catalog :=
  { clash with tokens := ⟨[(1, ⟨digest 0, .repo 1, none, none, ⟨none, none⟩, .manual⟩)], by decide⟩ }

theorem addDays_monotone : ∀ t, Monotone (env.session.addDays t) := by
  intro t a b hab
  show t + a * Session.day ≤ t + b * Session.day
  have hday : (0 : ℤ) ≤ Session.day := by decide
  exact Int.add_le_add_left (Int.mul_le_mul_of_nonneg_right hab hday) t

/-- Every version is `1.0.0.0`. -/
theorem clash_ordered : clashWithToken.VersionsOrdered env.compareNormalized := by
  refine ⟨fun _ => 0, fun u v hu hv => ?_⟩
  have hsame : ∀ w, clashWithToken.Stored w → w.key.normalizedVersion = "1.0.0.0" := by
    intro w hw
    have hrow : (w.key, w.version) ∈ [(⟨1, "1.0.0.0"⟩, release "1.0.0" (digest 1) 0)] :=
      (Table.mem_rows_iff _ _ _).2 hw.2
    exact congrArg (·.1.normalizedVersion) (List.mem_singleton.1 hrow)
  rw [hsame u hu, hsame v hv]
  rfl

end Storefront

end Sconce
