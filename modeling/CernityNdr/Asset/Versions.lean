import Mathlib.Data.List.Perm.Basic
import CernityNdr.Asset.Emission

/-! # The Order of Fact Rows

    A table of replacing rows returns the versions of a key in any order, and
    a background merge may have removed some that a newer one supersedes.
    `_authoritative` prefers the newest version, and of versions of one stamp
    a final one; between a closed version and a tombstone of one stamp the
    order decides.

    * `authoritative_iff`: the rows selected are the same for every order and
      every such merge exactly when no key has such a pair at its newest
      stamp. -/

namespace AssetService

/-! ### Versions -/

/-- What a version says of its interval. -/
inductive VersionKind where
  | isOpen
  | closed
  | tombstone
  deriving DecidableEq

def FactRow.kind (r : FactRow) : VersionKind :=
  if r.isDeleted then .tombstone else if r.validTo.isSome then .closed else .isOpen

/-- Versions of one key, one stamp and one kind are one row. -/
def OneOfEachKind (rows : List FactRow) : Prop :=
  ∀ r ∈ rows, ∀ r' ∈ rows, r.key = r'.key → r.updatedAt = r'.updatedAt → r.kind = r'.kind → r = r'

/-- A newer version of the key is there. -/
def Superseded (rows : List FactRow) (r : FactRow) : Prop :=
  ∃ r' ∈ rows, r'.key = r.key ∧ r.updatedAt < r'.updatedAt

/-- The rows in any order, some of those that are superseded removed. -/
structure PartlyMerged (rows rows' : List FactRow) : Prop where
  subperm : rows'.Subperm rows
  removed : ∀ r ∈ rows, r ∉ rows' → Superseded rows r

/-- The closed version `r` and the tombstone `r'` are newest versions of one
    key. -/
structure Ambiguous (rows : List FactRow) (r r' : FactRow) : Prop where
  mem : r ∈ rows
  mem' : r' ∈ rows
  key : r.key = r'.key
  stamp : r.updatedAt = r'.updatedAt
  closed : r.kind = .closed
  tombstone : r'.kind = .tombstone
  newest : ¬ Superseded rows r

variable {rows rows' : List FactRow} {r r' : FactRow}

theorem isFinal_iff : r.isFinal = true ↔ r.kind ≠ .isOpen := by
  unfold FactCols.isFinal FactRow.kind
  cases r.isDeleted <;> cases r.validTo <;> simp

/-- A rank that is at most as large: newer, or as new and as final. -/
theorem rank_le_iff :
    r.rank ≤ r'.rank ↔
      r'.updatedAt < r.updatedAt ∨ r.updatedAt = r'.updatedAt ∧ (r'.isFinal → r.isFinal) := by
  rw [FactRow.rank, FactRow.rank, Prod.Lex.toLex_le_toLex]
  simp only [neg_lt_neg_iff, neg_inj]
  cases r.isFinal <;> cases r'.isFinal <;> simp

theorem PartlyMerged.perm (h : rows'.Perm rows) : PartlyMerged rows rows' where
  subperm := h.subperm
  removed := fun _ hr hno => absurd (h.mem_iff.mpr hr) hno

/-- A version that none supersedes is there after every merge. -/
theorem PartlyMerged.mem_of_not_superseded (h : PartlyMerged rows rows') (hr : r ∈ rows)
    (hnew : ¬ Superseded rows r) : r ∈ rows' := by
  by_contra hno
  exact hnew (h.removed r hr hno)

/-! ### The version that is settled on -/

theorem isLeast_of_newest {key : String × String × Predicate × String × Iso × String}
    (h : newest rows key = some r) :
    Registry.IsLeastOf (fun r : FactRow => r.key) FactRow.rank rows key r :=
  Registry.isLeastOf_of_get? h

theorem newest_eq_none {key : String × String × Predicate × String × Iso × String} :
    newest rows key = none ↔ ∀ r ∈ rows, r.key ≠ key :=
  Registry.get?_leasts_eq_none

theorem not_superseded_of_newest {key : String × String × Predicate × String × Iso × String}
    (h : newest rows key = some r) : ¬ Superseded rows r := by
  rintro ⟨n, hn, hkey, hlt⟩
  have hleast := isLeast_of_newest h
  rcases rank_le_iff.mp (hleast.2.2 n hn (hkey.trans hleast.2.1)) with hnew | ⟨heq, -⟩ <;> omega

/-- Two newest versions of one rank are one row, if no pair is ambiguous. -/
theorem eq_of_rank_eq (hkinds : OneOfEachKind rows) (hno : ¬ ∃ r r', Ambiguous rows r r')
    (hr : r ∈ rows) (hr' : r' ∈ rows) (hkey : r.key = r'.key) (hnew : ¬ Superseded rows r)
    (hle : r.rank ≤ r'.rank) (hge : r'.rank ≤ r.rank) : r = r' := by
  have hrank := le_antisymm hle hge
  simp only [FactRow.rank, toLex_inj, Prod.mk.injEq, neg_inj, Bool.not_eq_eq_eq_not,
    Bool.not_not] at hrank
  obtain ⟨hstamp, hfinal⟩ := hrank
  have hnew' : ¬ Superseded rows r' := by
    rintro ⟨n, hn, hnkey, hlt⟩
    exact hnew ⟨n, hn, hnkey.trans hkey.symm, by omega⟩
  refine hkinds r hr r' hr' hkey hstamp ?_
  have hopen : r.kind = .isOpen ↔ r'.kind = .isOpen := by
    have h := isFinal_iff (r := r)
    have h' := isFinal_iff (r := r')
    rw [hfinal] at h
    exact not_iff_not.mp (h.symm.trans h')
  cases hk : r.kind with
  | isOpen => exact (hopen.mp hk).symm
  | closed =>
    cases hk' : r'.kind with
    | isOpen => rw [hopen.mpr hk'] at hk; cases hk
    | closed => rfl
    | tombstone => exact absurd ⟨r, r', hr, hr', hkey, hstamp, hk, hk', hnew⟩ hno
  | tombstone =>
    cases hk' : r'.kind with
    | isOpen => rw [hopen.mpr hk'] at hk; cases hk
    | closed => exact absurd ⟨r', r, hr', hr, hkey.symm, hstamp.symm, hk', hk, hnew'⟩ hno
    | tombstone => rfl

/-- A merge leaves the version that is settled on. -/
theorem newest_merged (hkinds : OneOfEachKind rows) (hno : ¬ ∃ r r', Ambiguous rows r r')
    (h : PartlyMerged rows rows') (key : String × String × Predicate × String × Iso × String) :
    newest rows' key = newest rows key := by
  cases hold : newest rows key with
  | none =>
    have hnone := newest_eq_none.mp hold
    exact newest_eq_none.mpr fun r hr => hnone r (h.subperm.subset hr)
  | some r =>
    obtain ⟨hr, hrkey, hrleast⟩ := isLeast_of_newest hold
    have hnew := not_superseded_of_newest hold
    have hr' := h.mem_of_not_superseded hr hnew
    cases hmerged : newest rows' key with
    | none => exact absurd hrkey (newest_eq_none.mp hmerged r hr')
    | some n =>
      obtain ⟨hn, hnkey, hnleast⟩ := isLeast_of_newest hmerged
      have hnrows := h.subperm.subset hn
      rw [eq_of_rank_eq hkinds hno hr hnrows (hrkey.trans hnkey.symm) hnew
        (hrleast n hnrows hnkey) (hnleast r hr' hrkey)]

/-- Of an ambiguous pair the version that comes first is settled on. -/
theorem newest_of_first (hamb : Ambiguous rows r r') {first : FactRow}
    (hpair : first = r ∨ first = r') :
    ∃ rest, (first :: rest).Perm rows ∧ newest (first :: rest) first.key = some first := by
  have hmem : first ∈ rows := by
    rcases hpair with rfl | rfl
    · exact hamb.mem
    · exact hamb.mem'
  obtain ⟨s, t, hst⟩ := List.append_of_mem hmem
  have hperm : (first :: (s ++ t)).Perm rows := by
    rw [hst]
    exact List.perm_middle.symm
  refine ⟨s ++ t, hperm, Registry.get?_leasts_cons_of_le ?_⟩
  intro d hd hkey
  have hdrows : d ∈ rows := hperm.subset (List.mem_cons_of_mem _ hd)
  have hfirst : first.key = r.key ∧ first.updatedAt = r.updatedAt ∧ first.isFinal = true := by
    rcases hpair with rfl | rfl
    · exact ⟨rfl, rfl, isFinal_iff.mpr (by simp [hamb.closed])⟩
    · exact ⟨hamb.key.symm, hamb.stamp.symm, isFinal_iff.mpr (by simp [hamb.tombstone])⟩
  have hle : d.updatedAt ≤ r.updatedAt := by
    by_contra hlt
    exact hamb.newest ⟨d, hdrows, hkey.trans hfirst.1, not_le.mp hlt⟩
  refine rank_le_iff.mpr ?_
  rcases hle.lt_or_eq with hlt | heq
  · exact Or.inl (by omega)
  · exact Or.inr ⟨by omega, fun _ => hfirst.2.2⟩

/-! ### Independence of the order -/

/-- The rows selected are the same set after every reordering and every
    partial merge exactly when no key has both a closed version and a
    tombstone at its newest stamp. -/
theorem authoritative_iff (rows : List FactRow) (hkinds : OneOfEachKind rows) :
    (∀ rows', PartlyMerged rows rows' → ∀ r, r ∈ authoritative rows' ↔ r ∈ authoritative rows) ↔
      ¬ ∃ r r', Ambiguous rows r r' := by
  constructor
  · rintro hsame ⟨r, r', hamb⟩
    obtain ⟨rest, hperm, hclosed⟩ := newest_of_first hamb (Or.inl rfl)
    obtain ⟨rest', hperm', htomb⟩ := newest_of_first hamb (Or.inr rfl)
    have hlive : r ∈ authoritative (r :: rest) := by
      refine mem_authoritative.mpr ⟨hclosed, ?_⟩
      have hkind := hamb.closed
      unfold FactRow.kind at hkind
      cases hdel : r.isDeleted with
      | false => rfl
      | true => simp [hdel] at hkind
    have hgone : r ∉ authoritative (r' :: rest') := by
      intro hin
      have hnewest := (mem_authoritative.mp hin).1
      rw [hamb.key, htomb, Option.some.injEq] at hnewest
      have hkind := hamb.closed
      rw [← hnewest, hamb.tombstone] at hkind
      cases hkind
    exact hgone ((hsame _ (.perm hperm') r).mpr ((hsame _ (.perm hperm) r).mp hlive))
  · intro hno rows' hmerged r
    rw [mem_authoritative, mem_authoritative, newest_merged hkinds hno hmerged]

/-- A version of the lease of one address, stamped at 5. -/
def leaseRow (validTo : Option Iso) (isDeleted : Bool) : FactRow where
  tenantId := "acme"
  subject := "mac:aa"
  predicate := .ip
  value := "10.0.0.5"
  confidence := 1
  validFrom := ⟨0⟩
  validTo := validTo
  sourceType := "dhcp"
  observationId := "obs:1"
  method := "dhcp"
  classifierVersion := classifierVersion
  isDeleted := isDeleted
  updatedAt := 5

/-- Two versions of different kinds. -/
theorem oneOfEachKind_pair {r r' : FactRow} (h : r.kind ≠ r'.kind) : OneOfEachKind [r, r'] := by
  intro x hx y hy _ _ hkind
  rcases List.mem_pair.mp hx with rfl | rfl <;> rcases List.mem_pair.mp hy with rfl | rfl
  · rfl
  · exact absurd hkind h
  · exact absurd hkind.symm h
  · rfl

theorem authoritative_open_closed :
    (∀ rows', PartlyMerged [leaseRow none false, leaseRow (some ⟨9⟩) false] rows' →
      ∀ r, r ∈ authoritative rows' ↔
        r ∈ authoritative [leaseRow none false, leaseRow (some ⟨9⟩) false]) ↔
    ¬ ∃ r r', Ambiguous [leaseRow none false, leaseRow (some ⟨9⟩) false] r r' :=
  authoritative_iff _ (oneOfEachKind_pair (by decide))

/-- Of a closed version and a tombstone of one stamp the first row wins. -/
theorem order_decides_closed :
    OneOfEachKind [leaseRow (some ⟨9⟩) false, leaseRow none true] ∧
      ¬ ∀ rows', PartlyMerged [leaseRow (some ⟨9⟩) false, leaseRow none true] rows' →
        ∀ r, r ∈ authoritative rows' ↔
          r ∈ authoritative [leaseRow (some ⟨9⟩) false, leaseRow none true] := by
  refine ⟨oneOfEachKind_pair (by decide), ?_⟩
  intro hsame
  have hlive : leaseRow (some ⟨9⟩) false ∈
      authoritative [leaseRow (some ⟨9⟩) false, leaseRow none true] :=
    mem_authoritative.mpr ⟨rfl, rfl⟩
  have hin := (hsame [leaseRow none true, leaseRow (some ⟨9⟩) false]
    (.perm (List.Perm.swap _ _ _)) _).mpr hlive
  have hkind := congrArg (Option.map FactRow.kind) (mem_authoritative.mp hin).1
  exact absurd hkind (by decide)

end AssetService
