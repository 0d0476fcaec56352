/-
# Published versions stay what they are

A version that a publish or the composer mirror created keeps its dist under every
writer but one: the git mirror's upsert.  It keeps it over a whole run exactly when
every git pass of the run that stores under its key brings the dist it has
(`published_immutable_iff`).
-/
import Sconce.Versions.History

namespace Sconce

namespace VersionOp

/-- A writer that inserts once created the row. -/
structure Creates (env : External) (db : Catalog) (op : VersionOp) (key : VersionKey)
    (row : PackageVersion) : Prop where
  inserts : op.overwrites = false
  absent : db.packageVersions.get? key = none
  present : (op.run env db).packageVersions.get? key = some row

/-- The row under `key` still serves the dist of `row`. -/
def Serves (key : VersionKey) (row : PackageVersion) (db : Catalog) : Prop :=
  ∃ now, db.packageVersions.get? key = some now ∧ now.dist = row.dist

/-- Over a run from `db` the row under `key` serves the dist of `row` in every state,
and a step that brings other bytes leaves it untouched. -/
structure Immutable (env : External) (db : Catalog) (key : VersionKey) (row : PackageVersion)
    (ops : List VersionOp) : Prop where
  serves : ∀ done, done <+: ops → Serves key row (Run.final (run env) db done)
  untouched : ∀ x ∈ Run.trace (run env) db ops, ∀ stored,
    x.2.stores env x.1 = some (key, stored) → stored.distBlobSha256 ≠ row.distBlobSha256 →
      (x.2.run env x.1).packageVersions.get? key = x.1.packageVersions.get? key

/-- If the step overwrites the row under `key`, it is with the dist of `row`. -/
def Harmless (env : External) (key : VersionKey) (row : PackageVersion) (x : Catalog × VersionOp) :
    Prop :=
  x.2.overwrites = true → ∀ stored, x.2.stores env x.1 = some (key, stored) →
    stored.dist = row.dist

variable {env : External} {db : Catalog} {key : VersionKey} {row : PackageVersion}

/-- A step keeps the served dist exactly when it is harmless. -/
theorem serves_run_iff (op : VersionOp) (h : Serves key row db) :
    Serves key row (op.run env db) ↔ Harmless env key row (db, op) := by
  obtain ⟨now, hnow, hdist⟩ := h
  have hfate := fate env db op key
  rw [hnow] at hfate
  unfold Serves
  generalize (op.run env db).packageVersions.get? key = after at hfate
  cases hfate with
  | overwritten stored _ hstores hover =>
    constructor
    · rintro ⟨new, hnew, hserved⟩ - other hother
      obtain rfl : stored.overwritten now = new := Option.some.inj hnew
      obtain rfl : stored = other :=
        (Prod.mk.inj (Option.some.inj (hstores.symm.trans hother))).2
      exact hserved
    · intro hharmless
      exact ⟨_, rfl, hharmless hover stored hstores⟩
  | kept _ new hnot hsame =>
    constructor
    · intro _ hover stored hstores
      exact absurd hstores (hnot hover stored)
    · intro _
      exact ⟨new, rfl, hsame.trans hdist⟩

/-- **Published versions are immutable exactly as far as git syncs agree.**  Once a
publish or a composer sync has created a row, its dist stays the same in every state
of a run, and attempts with other bytes leave it untouched, if and only if every git
pass of the run that stores under its key brings the row's own dist. -/
theorem published_immutable_iff {op : VersionOp} (hcreates : op.Creates env db key row)
    (ops : List VersionOp) :
    Immutable env (op.run env db) key row ops ↔
      ∀ x ∈ Run.trace (run env) (op.run env db) ops, Harmless env key row x := by
  have hserves : Serves key row (op.run env db) := ⟨row, hcreates.present, rfl⟩
  have hstep : ∀ s a, Serves key row s →
      (Serves key row (run env s a) ↔ Harmless env key row (s, a)) :=
    fun s a hs => serves_run_iff a hs
  have halways := Run.always_iff hstep hserves ops
  constructor
  · intro himmutable
    exact halways.1 himmutable.serves
  · intro hharmless
    refine ⟨halways.2 hharmless, ?_⟩
    intro x hx stored hstores hother
    cases hover : x.2.overwrites with
    | true =>
      have hsame := hharmless x hx hover stored hstores
      exact absurd (Prod.mk.inj hsame).1 hother
    | false =>
      obtain ⟨pre, post, rfl, hpre⟩ := (Run.mem_trace_iff _ ops x).1 hx
      obtain ⟨now, hnow, -⟩ := halways.2 hharmless pre (List.prefix_append pre _)
      rw [← hpre] at hnow
      rw [hnow]
      exact get?_run_of_occupied x.2 hstores hover hnow

end VersionOp

/-! ## A tag under a published version -/

namespace Acme

/-- `\x7b"name":"acme/tools"\x7d`. -/
def composerJson : List UInt8 :=
  [123, 34, 110, 97, 109, 101, 34, 58, 34, 97, 99, 109, 101, 47, 116, 111, 111, 108, 115, 34, 125]

/-- The sha256 digests of the dists `[1]` and `[2]`. -/
def pushedDigest : Sha256 :=
  ⟨#v[75, 245, 18, 47, 52, 69, 84, 197, 59, 222, 46, 187, 140, 210, 183, 227,
    209, 96, 10, 214, 49, 195, 133, 165, 215, 204, 226, 60, 119, 133, 69, 154]⟩

def taggedDigest : Sha256 :=
  ⟨#v[219, 193, 180, 201, 0, 255, 228, 141, 87, 91, 93, 165, 198, 56, 4, 1,
    37, 246, 93, 176, 254, 62, 36, 73, 75, 118, 234, 152, 100, 87, 217, 134]⟩

/-- The third-party functions on the texts and bytes of this scenario. -/
def external : External where
  parseVersion := fun v => if v = "1.0.0" then some ⟨true, "1.0.0.0", "stable"⟩ else none
  parseJson := fun bytes =>
    if bytes = composerJson then some (.object [("name", .string "acme/tools")]) else none
  sha1Hex := fun bytes =>
    if bytes = [1] then "bf8b4530d8d246dd74ac53a13471bba17941dff7"
    else "c4ea21bb365bbeeaf5f2c654883e56d11e43c44e"

/-- One repository that approves by hand and admits private packages. -/
def opened : Catalog :=
  { Catalog.empty with
    repositories := Table.empty.insertNew 1
      ⟨1, "main", .manual, 0, true, false, none, none, none⟩ }

/-- Version 1.0.0 of acme/tools is pushed with the dist `[1]`. -/
def pushed : PublishCall where
  repo := 1
  vendor := "acme"
  name := "tools"
  version := "1.0.0"
  requested := none
  prepared := ⟨pushedDigest, 1, .object [("name", .string "acme/tools")],
    "bf8b4530d8d246dd74ac53a13471bba17941dff7"⟩
  nowUnix := 0
  draw := ⟨0, 7⟩

/-- A git source whose tag 1.0.0 archives to the dist `[2]`. -/
def tagged : GitSync where
  repo := 1
  checkout :=
    { tags := .ok ["1.0.0"]
      commitTime := fun _ => some 0
      readFile := fun _ _ => .ok (some composerJson)
      archiveSubtree := fun _ _ => .ok [2]
      put := fun bytes => .ok (if bytes = [1] then pushedDigest else taggedDigest) }
  sourceUrl := "https://git.example.com/acme/tools"
  visibility := .private
  upstream := none
  sub := []
  sourcePaths := []
  draw := fun _ _ => ⟨1, 8⟩
  finished := 1

/-- The pushed version's key. -/
def key : VersionKey := ⟨7, "1.0.0.0"⟩

/-- The row the push creates. -/
def pushedRow : PackageVersion := pushed.versionRow "stable"

theorem pushed_creates : (VersionOp.publish pushed).Creates external opened key pushedRow where
  inserts := rfl
  absent := rfl
  present := rfl

/-- The same source with a tag that archives to the pushed bytes. -/
def agreed : GitSync :=
  { tagged with checkout := { tagged.checkout with archiveSubtree := fun _ _ => .ok [1] } }

/-- A mirrored tag that archives to the pushed bytes leaves the version as it is. -/
theorem published_immutable_agreed :
    VersionOp.Immutable external ((VersionOp.publish pushed).run external opened) key pushedRow
      [.gitPath agreed "1.0.0" ""] := by
  refine (VersionOp.published_immutable_iff pushed_creates _).2 ?_
  intro x hx _ stored hstored
  obtain rfl := List.mem_singleton.1 hx
  have hdist : ((VersionOp.gitPath agreed "1.0.0" "").stores external
      ((VersionOp.publish pushed).run external opened)).map (·.2.dist) = some pushedRow.dist := by
    decide
  rw [hstored, Option.map_some, Option.some.injEq] at hdist
  exact hdist

/-- A sync of the git source replaces the pushed dist by the tag's. -/
theorem git_sync_replaces_published :
    (VersionOp.publish pushed).Creates external opened key pushedRow ∧
      ¬ VersionOp.Immutable external ((VersionOp.publish pushed).run external opened) key pushedRow
        [.gitPath tagged "1.0.0" ""] := by
  refine ⟨pushed_creates, fun himmutable => ?_⟩
  obtain ⟨now, hnow, hdist⟩ := himmutable.serves [.gitPath tagged "1.0.0" ""] List.prefix_rfl
  have hserved : ((Run.final (VersionOp.run external)
      ((VersionOp.publish pushed).run external opened)
      [.gitPath tagged "1.0.0" ""]).packageVersions.get? key).map (·.dist)
        = some pushedRow.dist := by
    rw [hnow, Option.map_some, hdist]
  exact absurd hserved (by decide)

example : (((VersionOp.publish pushed).run external opened).after
    (tagged.mirrorCheckout external)).distOf key = some taggedDigest := by decide

end Acme

end Sconce
