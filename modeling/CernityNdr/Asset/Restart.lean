import CernityNdr.Asset.Evidence

/-! # Restarts

    `restore_state` replays the persisted evidence in the order of time and
    observation id, whatever the order it was observed in. Bindings do not
    depend on the order, and neither do the winners of one instant. What
    does is the key that a fact without a MAC is folded under: it is the
    owner of its address as far as the bindings were known when the fact
    was folded. The rebuilt state is the old one when each such fact was
    folded under the key that it resolves to in the order of the replay. -/

namespace AssetService

/-! ### What a run leaves -/

/-- The state before the first record: an empty table and nothing persisted. -/
def World.initial (tenant : String) (clock : Int) : World :=
  World.loaded tenant (.empty clock) []

/-- A flush writes; it does not change what is cached. -/
theorem flush_frame (tenant : String) (w : World) (fault : Option Insert) (delay : Nat) :
    (flush tenant w fault delay).2.proc.bindings = w.proc.bindings ∧
    (flush tenant w fault delay).2.proc.factState = w.proc.factState ∧
    ∀ row, row ∈ (flush tenant w fault delay).2.identity ∨
        row ∈ (flush tenant w fault delay).2.proc.pendingObs.vals ↔
      row ∈ w.identity ∨ row ∈ w.proc.pendingObs.vals := by
  have hobs : ∀ row, row ∈ (flushObservations w).identity ∨
      row ∈ (flushObservations w).proc.pendingObs.vals ↔
      row ∈ w.identity ∨ row ∈ w.proc.pendingObs.vals := by
    intro row
    simp [flushObservations]
  unfold flush
  split
  · exact ⟨rfl, rfl, fun _ => Iff.rfl⟩
  · split
    · exact ⟨rfl, rfl, fun _ => Iff.rfl⟩
    · simp only
      split
      · exact ⟨rfl, rfl, hobs⟩
      · split
        · exact ⟨rfl, rfl, hobs⟩
        · exact ⟨rfl, rfl, hobs⟩

/-- The rows of persisted evidence: equal ids, equal rows. -/
def RowsAgree (rows : List IdentityRow) : Prop :=
  ∀ row ∈ rows, ∀ row' ∈ rows, row.obsId = row'.obsId → row = row'

/-- The rows of a sequence of evidence. -/
def rowsOf (tenant : String) (es : List Evidence) : List IdentityRow :=
  (es.filter Evidence.persists).map (Evidence.row tenant)

theorem mem_rowsOf {tenant : String} {es : List Evidence} {row : IdentityRow} :
    row ∈ rowsOf tenant es ↔ ∃ e ∈ es, e.persists = true ∧ e.row tenant = row := by
  simp [rowsOf, and_assoc]

theorem rowsAgree_of_consistent {tenant : String} {rs : List BusRecord}
    (hids : ConsistentIds rs) : RowsAgree (rowsOf tenant (rs.flatMap BusRecord.evidence)) := by
  intro row hrow row' hrow' hid
  obtain ⟨e, he, hp, rfl⟩ := mem_rowsOf.mp hrow
  obtain ⟨e', he', hp', rfl⟩ := mem_rowsOf.mp hrow'
  rw [persisted_eq hids he he' hp hp' hid]

/-- Pending rows after a sequence of evidence. -/
theorem mem_pendingObs_foldAll (tenant : String) (p : Process) (es : List Evidence)
    (hagree : RowsAgree (p.pendingObs.vals ++ rowsOf tenant es)) (row : IdentityRow) :
    row ∈ (foldAll tenant p es).pendingObs.vals ↔
      row ∈ p.pendingObs.vals ∨ row ∈ rowsOf tenant es := by
  induction es generalizing p with
  | nil => simp [foldAll, rowsOf]
  | cons e es ih =>
    show row ∈ (foldAll tenant (folded tenant p e.obs e.obsId e.ts) es).pendingObs.vals ↔ _
    by_cases hp : e.persists = true
    · have hrows : rowsOf tenant (e :: es) = e.row tenant :: rowsOf tenant es := by
        simp [rowsOf, hp]
      rw [hrows] at hagree ⊢
      have hput : (folded tenant p e.obs e.obsId e.ts).pendingObs =
          p.pendingObs.put (e.row tenant) := if_pos hp
      have hmem : ∀ row, row ∈ (folded tenant p e.obs e.obsId e.ts).pendingObs.vals ↔
          row ∈ p.pendingObs.vals ∨ row = e.row tenant := by
        intro row
        rw [hput]
        exact Registry.mem_put_iff fun u hu huid => hagree u (by simp [hu]) _ (by simp) huid
      rw [ih, hmem, List.mem_cons, or_assoc]
      intro a ha b hb
      refine hagree a ?_ b ?_
      · simp only [List.mem_append, hmem, List.mem_cons] at ha ⊢
        tauto
      · simp only [List.mem_append, hmem, List.mem_cons] at hb ⊢
        tauto
    · have hrows : rowsOf tenant (e :: es) = rowsOf tenant es := by
        simp [rowsOf, hp]
      rw [hrows] at hagree ⊢
      have hkeep : (folded tenant p e.obs e.obsId e.ts).pendingObs = p.pendingObs := if_neg hp
      have hagree' : RowsAgree ((folded tenant p e.obs e.obsId e.ts).pendingObs.vals ++
          rowsOf tenant es) := by
        rw [hkeep]
        exact hagree
      rw [ih _ hagree', hkeep]

/-- What is cached and what is persisted after a run: the bindings and the
    winners of its evidence, and the rows of it. -/
structure Traced (tenant : String) (is : List Input) (w : World) : Prop where
  bindings : w.proc.bindings = (foldAll tenant .fresh (evidences is)).bindings
  factState : w.proc.factState = (foldAll tenant .fresh (evidences is)).factState
  rows : ∀ row, row ∈ w.identity ∨ row ∈ w.proc.pendingObs.vals ↔
    row ∈ rowsOf tenant (evidences is)

/-- Bindings and winners depend on bindings and winners only. -/
theorem foldAll_congr (tenant : String) {p q : Process} (hb : p.bindings = q.bindings)
    (hf : p.factState = q.factState) (es : List Evidence) :
    (foldAll tenant p es).bindings = (foldAll tenant q es).bindings ∧
    (foldAll tenant p es).factState = (foldAll tenant q es).factState := by
  constructor
  · rw [bindings_foldAll, bindings_foldAll, hb]
  · funext s pred
    rw [factState_foldAll, factState_foldAll, hb, hf]

theorem traced_run (tenant : String) (clock : Int) {is : List Input}
    (hids : ConsistentIds (records is)) :
    Traced tenant is (Machine.run (step tenant) (World.initial tenant clock) is) := by
  induction is using List.reverseRecOn with
  | nil =>
    refine ⟨rfl, rfl, fun row => ?_⟩
    simp [Machine.run, World.initial, World.loaded, Process.fresh, rowsOf, evidences, records,
      Registry.empty]
  | append_singleton is i ih =>
    have hsub : ∀ r ∈ records is, r ∈ records (is ++ [i]) := by
      intro r hr
      simp only [records, List.filterMap_append, List.mem_append]
      exact Or.inl hr
    have ih := ih fun r hr r' hr' => hids r (hsub r hr) r' (hsub r' hr')
    rw [Machine.run_snoc]
    generalize Machine.run (step tenant) (World.initial tenant clock) is = w at ih
    cases i with
    | observe r =>
      have hstep : step tenant w (.observe r) = { w with proc := foldAll tenant w.proc r.evidence } := by
        rw [step_observe, observed_eq_foldAll]
      have hcongr := foldAll_congr tenant ih.bindings ih.factState r.evidence
      rw [← foldAll_append, ← evidences_append_observe] at hcongr
      have hagree : RowsAgree (rowsOf tenant (evidences (is ++ [.observe r]))) :=
        rowsAgree_of_consistent hids
      have hrows : rowsOf tenant (evidences (is ++ [.observe r])) =
          rowsOf tenant (evidences is) ++ rowsOf tenant r.evidence := by
        rw [evidences_append_observe]
        simp [rowsOf]
      rw [hstep]
      refine ⟨hcongr.1, hcongr.2, fun row => ?_⟩
      have hpending := mem_pendingObs_foldAll tenant w.proc r.evidence
        (fun a ha b hb => hagree a
          (by rw [hrows]; rw [List.mem_append] at ha ⊢; exact ha.imp_left fun h =>
            (ih.rows a).mp (Or.inr h)) b
          (by rw [hrows]; rw [List.mem_append] at hb ⊢; exact hb.imp_left fun h =>
            (ih.rows b).mp (Or.inr h))) row
      rw [hrows, List.mem_append, ← ih.rows row]
      show row ∈ w.identity ∨ row ∈ (foldAll tenant w.proc r.evidence).pendingObs.vals ↔ _
      rw [hpending, or_assoc]
    | flush fault delay =>
      obtain ⟨hb, hf, hrows⟩ := flush_frame tenant w fault delay
      refine ⟨?_, ?_, fun row => ?_⟩
      · rw [evidences_append_flush, ← ih.bindings]
        exact hb
      · rw [evidences_append_flush, ← ih.factState]
        exact hf
      · rw [evidences_append_flush, ← ih.rows row]
        exact hrows row

/-! ### The replayed rows -/

theorem order_obsId {a b : IdentityRow} (h : a.order = b.order) : a.obsId = b.obsId := by
  simp only [IdentityRow.order, toLex_inj, Prod.mk.injEq] at h
  exact h.2

/-- Storing rows that agree keeps them all. -/
theorem mem_foldl_put {rows : List IdentityRow} (hagree : RowsAgree rows) (row : IdentityRow) :
    row ∈ (rows.foldl (fun (latest : Registry IdentityRow.obsId) row => latest.put row)
      .empty).vals ↔ row ∈ rows := by
  induction rows using List.reverseRecOn generalizing row with
  | nil => simp
  | append_singleton rows new ih =>
    have hagree' : RowsAgree rows := fun a ha b hb => hagree a (by simp [ha]) b (by simp [hb])
    have ih := ih hagree'
    rw [List.foldl_append, List.foldl_cons, List.foldl_nil, Registry.mem_put_iff, ih,
      List.mem_append, List.mem_singleton]
    intro u hu huid
    exact hagree u (by simp [(ih u).mp hu]) new (by simp) huid

/-- The query returns the rows of the tenant in the order of their times. -/
theorem selectIdentity_spec {tenant : String} {rows : List IdentityRow} (hagree : RowsAgree rows)
    (htenant : ∀ row ∈ rows, row.tenantId = tenant) :
    (∀ row, row ∈ selectIdentity tenant rows ↔ row ∈ rows) ∧
    (selectIdentity tenant rows).Pairwise (fun a b => a.order < b.order) := by
  have hall : (rows.filter fun row => row.tenantId = tenant) = rows :=
    List.filter_eq_self.mpr fun row hrow => by simpa using htenant row hrow
  unfold selectIdentity
  rw [hall]
  constructor
  · intro row
    rw [List.mem_insertionSort, mem_foldl_put hagree]
  · generalize rows.foldl (fun (latest : Registry IdentityRow.obsId) row => latest.put row)
      .empty = latest
    have hle : (latest.vals.insertionSort (fun a b => a.order ≤ b.order)).Pairwise
        (fun a b => a.order ≤ b.order) := by
      have : Std.Total (fun a b : IdentityRow => a.order ≤ b.order) := ⟨fun a b => le_total _ _⟩
      have : IsTrans IdentityRow (fun a b => a.order ≤ b.order) := ⟨fun a b c => le_trans⟩
      exact List.pairwise_insertionSort _ _
    have hnodup : ((latest.vals.insertionSort (fun a b => a.order ≤ b.order)).map
        IdentityRow.obsId).Nodup :=
      ((List.perm_insertionSort _ _).map IdentityRow.obsId).nodup_iff.mpr latest.nodup
    refine (hle.and (List.pairwise_map.mp hnodup)).imp ?_
    intro a b hab
    exact lt_of_le_of_ne hab.1 fun heq => hab.2 (order_obsId heq)

/-- The replay loop folds the evidence of the rows. -/
theorem replay_eq (tenant : String) (p : Process) (rows : List IdentityRow) :
    replay tenant p rows = .ok (foldAll tenant p (rows.map IdentityRow.evidence)) := by
  unfold replay foldAll
  induction rows generalizing p with
  | nil => rfl
  | cons row rows ih =>
    rw [List.foldlM_cons, foldObservation_eq, List.map_cons, List.foldl_cons, ← ih]
    rfl

/-! ### The keys of the two orders -/

/-- Where a record stands in the order of the replay. -/
def BusRecord.order (r : BusRecord) : Int ×ₗ String := toLex ((iso r.ts).ms, r.obsId)

/-- The bindings of a record. -/
def BusRecord.bindings (r : BusRecord) : List BindingObs := r.evidence.filterMap Evidence.binding

/-- The bindings that precede a record in the order of the replay. -/
def settled (rs : List BusRecord) (r : BusRecord) : Bindings :=
  recordAll ((rs.filter fun r' => r'.order < r.order).flatMap BusRecord.bindings)

/-- Every fact of the record resolves, with the bindings known on arrival, to
    the key it resolves to with those that precede it in time. -/
def Settled (rs : List BusRecord) (w : World) : Input → Prop
  | .observe r => ∀ e ∈ r.evidence, e.cands ≠ [] →
      assetKey e.obs w.proc.bindings r.ts = assetKey e.obs (settled rs r) r.ts
  | .flush _ _ => True

theorem keyed_of_key {e : Evidence} {b b' : Bindings}
    (h : e.cands ≠ [] → assetKey e.obs b e.ts = assetKey e.obs b' e.ts) : e.keyed b = e.keyed b' := by
  unfold Evidence.keyed
  by_cases hc : e.cands = []
  · rw [hc]
    rfl
  · rw [h hc]

/-- The bindings of a record do not change the keys of its evidence. -/
theorem keyedFrom_evidence (bindings : Bindings) (r : BusRecord) :
    keyedFrom bindings r.evidence = r.evidence.flatMap fun e => e.keyed bindings := by
  rcases evidence_single_or_no_binding r with ⟨e, he⟩ | hnone
  · rw [he]
    simp [keyedFrom]
  · have hall : ∀ es : List Evidence, (∀ e ∈ es, e.binding = none) →
        keyedFrom bindings es = es.flatMap fun e => e.keyed bindings := by
      intro es
      induction es with
      | nil => intro _; rfl
      | cons e es ih =>
        intro h
        rw [keyedFrom, h e (by simp), List.flatMap_cons]
        exact congrArg (e.keyed bindings ++ ·) (ih fun e' he' => h e' (by simp [he']))
    exact hall _ hnone

/-- The candidates of the records, each under the key it resolves to in the
    order of the replay. -/
def settledKeyed (rs : List BusRecord) (r : BusRecord) : List (String × Candidate) :=
  r.evidence.flatMap fun e => e.keyed (settled rs r)

/-- The candidates of a run whose facts are settled. -/
theorem keyedFrom_run {tenant : String} {clock : Int} {is : List Input}
    (hids : ConsistentIds (records is))
    (hsettled : Machine.Meets (step tenant) (Settled (records is)) (World.initial tenant clock) is) :
    keyedFrom .empty (evidences is) = (records is).flatMap (settledKeyed (records is)) := by
  generalize hrs : records is = rs at hsettled
  refine Machine.prefix_induction
    (P := fun pre => keyedFrom .empty (evidences pre) = (records pre).flatMap (settledKeyed rs))
    rfl ?_ is (List.prefix_refl is) |>.trans (by rw [hrs])
  intro pre i hpre ih
  cases i with
  | flush fault delay =>
    rw [evidences_append_flush, ih]
    simp [records, Input.record?]
  | observe r =>
    have hrecords : records (pre ++ [.observe r]) = records pre ++ [r] := by
      simp [records, Input.record?]
    have hids' : ConsistentIds (records pre) := by
      intro a ha b hb
      have hsub : ∀ x ∈ records pre, x ∈ records is := by
        obtain ⟨post, hpost⟩ := hpre
        intro x hx
        rw [← hpost]
        simp only [records, List.filterMap_append, List.mem_append] at hx ⊢
        exact Or.inl (Or.inl hx)
      exact hids a (hsub a ha) b (hsub b hb)
    have hmeets : Settled rs (Machine.run (step tenant) (World.initial tenant clock) pre)
        (.observe r) := (hsettled.of_initial hpre).last
    have hbindings : (Machine.run (step tenant) (World.initial tenant clock) pre).proc.bindings =
        ((evidences pre).filterMap Evidence.binding).foldl Bindings.record .empty := by
      rw [(traced_run tenant clock hids').bindings, bindings_foldAll]
      rfl
    rw [evidences_append_observe, keyedFrom_append, ih, ← hbindings, keyedFrom_evidence, hrecords,
      List.flatMap_append]
    congr 1
    simp only [List.flatMap_cons, List.flatMap_nil, List.append_nil]
    unfold settledKeyed
    refine List.flatMap_congr fun e he => keyed_of_key fun hc => ?_
    have hts : e.ts = r.ts := (mem_evidence.mp he).2.2
    rw [hts]
    exact hmeets e he hc

/-- The rows of some records bind what the records bind. -/
theorem sameMembers_bindings (tenant : String) {rows : List IdentityRow} {rs : List BusRecord}
    (hrows : ∀ row, row ∈ rows ↔ row ∈ rowsOf tenant (rs.flatMap BusRecord.evidence)) :
    SameMembers ((rows.map IdentityRow.evidence).filterMap Evidence.binding)
      ((rs.flatMap BusRecord.bindings).map BindingObs.norm) := by
  intro o
  simp only [List.mem_filterMap, List.mem_map, exists_exists_and_eq_and]
  constructor
  · rintro ⟨row, hrow, hb⟩
    obtain ⟨e, he, -, rfl⟩ := mem_rowsOf.mp ((hrows row).mp hrow)
    rw [binding_row, Option.map_eq_some_iff] at hb
    obtain ⟨b, hb, rfl⟩ := hb
    obtain ⟨r, hr, her⟩ := List.mem_flatMap.mp he
    exact ⟨b, List.mem_flatMap.mpr ⟨r, hr, List.mem_filterMap.mpr ⟨e, her, hb⟩⟩, rfl⟩
  · rintro ⟨b, hb, rfl⟩
    obtain ⟨r, hr, hb⟩ := List.mem_flatMap.mp hb
    obtain ⟨e, her, hb⟩ := List.mem_filterMap.mp hb
    have hp : e.persists = true := by simp [Evidence.persists, hb]
    refine ⟨e.row tenant, (hrows _).mpr (mem_rowsOf.mpr
      ⟨e, List.mem_flatMap.mpr ⟨r, hr, her⟩, hp, rfl⟩), ?_⟩
    rw [binding_row, hb]
    rfl

theorem obsId_of_binding {e : Evidence} {b : BindingObs} (h : e.binding = some b) :
    b.obsId = e.obsId := by
  unfold Evidence.binding bindingOf at h
  cases hm : given e.obs.mac with
  | none => simp [hm] at h
  | some mac =>
    cases hi : given e.obs.ip with
    | none => simp [hm, hi] at h
    | some ip =>
      simp only [hm, hi, Option.some.injEq] at h
      rw [← h]

/-- The bindings of records with consistent ids have distinct keys. -/
theorem keyedConsistently_bindings {rs : List BusRecord} (rs' : List BusRecord)
    (hids : ConsistentIds rs) (hsub : ∀ r ∈ rs', r ∈ rs) :
    KeyedConsistently ((rs'.flatMap BusRecord.bindings).map BindingObs.norm) := by
  intro x hx y hy _ hkey
  obtain ⟨a, hmem, rfl⟩ := List.mem_map.mp hx
  obtain ⟨b, hmem', rfl⟩ := List.mem_map.mp hy
  obtain ⟨r, hr, ha⟩ := List.mem_flatMap.mp hmem
  obtain ⟨r', hr', hb⟩ := List.mem_flatMap.mp hmem'
  obtain ⟨e, he, hea⟩ := List.mem_filterMap.mp ha
  obtain ⟨e', he', heb⟩ := List.mem_filterMap.mp hb
  have hid : a.obsId = b.obsId := by
    have h := congrArg (fun key : String × Iso × String => key.2.2) hkey
    exact h
  have heq : e = e' := by
    refine persisted_eq hids (List.mem_flatMap.mpr ⟨r, hsub r hr, he⟩)
      (List.mem_flatMap.mpr ⟨r', hsub r' hr', he'⟩) (by simp [Evidence.persists, hea])
      (by simp [Evidence.persists, heb]) ?_
    rw [← obsId_of_binding hea, ← obsId_of_binding heb, hid]
  rw [heq, heb] at hea
  rw [Option.some.inj hea]

theorem assetKey_congr {b b' : Bindings} (h : ∀ ip t, resolveMac b ip t = resolveMac b' ip t)
    (obs : Obs) (ts : Instant) : assetKey obs b ts = assetKey obs b' ts := by
  unfold assetKey
  simp only [h]

/-- Where the candidates of a sequence come from. -/
theorem mem_keyedFrom {bindings : Bindings} {es : List Evidence} {k : String × Candidate} :
    k ∈ keyedFrom bindings es ↔ ∃ pre e post, es = pre ++ e :: post ∧
      k ∈ e.keyed ((pre.filterMap Evidence.binding).foldl Bindings.record bindings) := by
  constructor
  · induction es generalizing bindings with
    | nil => intro h; cases h
    | cons e es ih =>
      intro h
      rcases List.mem_append.mp h with h | h
      · exact ⟨[], e, es, rfl, h⟩
      · obtain ⟨pre, e', post, rfl, hk⟩ := ih h
        refine ⟨e :: pre, e', post, rfl, ?_⟩
        cases hb : e.binding with
        | none => rw [List.filterMap_cons_none hb]; rw [hb] at hk; exact hk
        | some b => rw [List.filterMap_cons_some hb]; rw [hb] at hk; exact hk
  · rintro ⟨pre, e, post, rfl, hk⟩
    rw [keyedFrom_append]
    exact List.mem_append_right _ (List.mem_append_left _ hk)

/-- A row has the order of its record. -/
theorem order_row (tenant : String) {r : BusRecord} {e : Evidence} (he : e ∈ r.evidence) :
    (e.row tenant).order = r.order := by
  obtain ⟨-, hid, hts⟩ := mem_evidence.mp he
  show toLex ((iso e.ts).ms, e.obsId) = _
  rw [hid, hts]
  rfl

/-- In a sorted list the rows before one are the smaller ones. -/
theorem mem_before_iff {pre post : List IdentityRow} {pivot row : IdentityRow}
    (hsorted : (pre ++ pivot :: post).Pairwise fun a b => a.order < b.order) :
    row ∈ pre ↔ row ∈ pre ++ pivot :: post ∧ row.order < pivot.order := by
  obtain ⟨-, hpost, hacross⟩ := List.pairwise_append.mp hsorted
  constructor
  · intro h
    exact ⟨List.mem_append_left _ h, hacross row h _ List.mem_cons_self⟩
  · rintro ⟨h, hlt⟩
    rcases List.mem_append.mp h with h | h
    · exact h
    · rcases List.mem_cons.mp h with rfl | h
      · exact absurd hlt (lt_irrefl _)
      · exact absurd (hlt.trans ((List.pairwise_cons.mp hpost).1 row h)) (lt_irrefl _)

/-- The rows of the earlier records are the earlier rows. -/
theorem mem_rowsOf_earlier (tenant : String) (rs : List BusRecord) (o : Int ×ₗ String)
    (row : IdentityRow) :
    row ∈ rowsOf tenant ((rs.filter fun r => r.order < o).flatMap BusRecord.evidence) ↔
      row ∈ rowsOf tenant (rs.flatMap BusRecord.evidence) ∧ row.order < o := by
  rw [mem_rowsOf, mem_rowsOf]
  simp only [List.mem_flatMap, List.mem_filter, decide_eq_true_eq]
  constructor
  · rintro ⟨e, ⟨r, ⟨hr, hlt⟩, he⟩, hp, rfl⟩
    exact ⟨⟨e, ⟨r, hr, he⟩, hp, rfl⟩, (order_row tenant he).trans_lt hlt⟩
  · rintro ⟨⟨e, ⟨r, hr, he⟩, hp, rfl⟩, hlt⟩
    exact ⟨e, ⟨r, ⟨hr, (order_row tenant he).symm.trans_lt hlt⟩, he⟩, hp, rfl⟩

section Replay

variable (tenant : String) {rs : List BusRecord} {rows : List IdentityRow}
  (hids : ConsistentIds rs)
  (hrows : ∀ row, row ∈ rows ↔ row ∈ rowsOf tenant (rs.flatMap BusRecord.evidence))
  (hsorted : rows.Pairwise (fun a b => a.order < b.order))

include hids hrows hsorted

/-- The bindings known when a row is replayed are those that precede it. -/
theorem resolveMac_replay {pre post : List IdentityRow} {r : BusRecord} {e : Evidence}
    (he : e ∈ r.evidence) (hsplit : rows = pre ++ e.row tenant :: post) (ip : String)
    (t : Instant) : resolveMac
      (recordAll ((pre.map IdentityRow.evidence).filterMap Evidence.binding)) ip t =
        resolveMac (settled rs r) ip t := by
  have hpre : ∀ row, row ∈ pre ↔
      row ∈ rowsOf tenant ((rs.filter fun r' => r'.order < r.order).flatMap BusRecord.evidence) := by
    intro row
    rw [hsplit] at hsorted
    rw [mem_before_iff hsorted, mem_rowsOf_earlier, ← hrows row, ← hsplit, order_row tenant he]
  have hmem := sameMembers_bindings tenant hpre
  have hkey : KeyedConsistently
      ((pre.map IdentityRow.evidence).filterMap Evidence.binding) := by
    have hcons := keyedConsistently_bindings (rs.filter fun r' => r'.order < r.order) hids
      fun r hr => (List.mem_filter.mp hr).1
    intro a ha b hb
    exact hcons a ((hmem a).mp ha) b ((hmem b).mp hb)
  unfold settled
  rw [← recordAll_map_norm ((rs.filter fun r' => r'.order < r.order).flatMap BusRecord.bindings)]
  exact resolveMac_congr hmem hkey ip t

theorem keyed_replay {pre post : List IdentityRow} {r : BusRecord} {e : Evidence}
    (he : e ∈ r.evidence) (hsplit : rows = pre ++ e.row tenant :: post) :
    (e.row tenant).evidence.keyed (((pre.map IdentityRow.evidence).filterMap
      Evidence.binding).foldl Bindings.record .empty) = e.keyed (settled rs r) := by
  rw [keyed_row]
  exact keyed_of_key fun _ =>
    assetKey_congr (resolveMac_replay tenant hids hrows hsorted he hsplit) e.obs e.ts

/-- The replay folds the candidates under the keys of its order. -/
theorem sameMembers_replay :
    SameMembers (rs.flatMap (settledKeyed rs))
      (keyedFrom .empty (rows.map IdentityRow.evidence)) := by
  intro k
  rw [mem_keyedFrom]
  constructor
  · intro hk
    obtain ⟨r, hr, hk⟩ := List.mem_flatMap.mp hk
    obtain ⟨e, he, hk⟩ := List.mem_flatMap.mp hk
    have hc : e.cands ≠ [] := by
      intro hnil
      simp [Evidence.keyed, hnil] at hk
    have hp : e.persists = true := by simp [Evidence.persists, hc]
    have hrow : e.row tenant ∈ rows :=
      (hrows _).mpr (mem_rowsOf.mpr ⟨e, List.mem_flatMap.mpr ⟨r, hr, he⟩, hp, rfl⟩)
    obtain ⟨pre, post, hsplit⟩ := List.append_of_mem hrow
    refine ⟨pre.map IdentityRow.evidence, (e.row tenant).evidence,
      post.map IdentityRow.evidence, by rw [hsplit]; simp, ?_⟩
    rw [keyed_replay tenant hids hrows hsorted he hsplit]
    exact hk
  · rintro ⟨pre', e', post', hsplit', hk⟩
    obtain ⟨pre, rest, hrows', rfl, hrest⟩ := List.map_eq_append_iff.mp hsplit'
    obtain ⟨row, post, rfl, rfl, rfl⟩ := List.map_eq_cons_iff.mp hrest
    have hrow : row ∈ rows := by
      rw [hrows']
      simp
    obtain ⟨e, he, hp, rfl⟩ := mem_rowsOf.mp ((hrows row).mp hrow)
    obtain ⟨r, hr, her⟩ := List.mem_flatMap.mp he
    rw [keyed_replay tenant hids hrows hsorted her hrows'] at hk
    exact List.mem_flatMap.mpr ⟨r, hr, List.mem_flatMap.mpr ⟨e, her, hk⟩⟩

end Replay

/-! ### Restart equivalence -/

/-- Two processes have the same facts, and the same ownership up to the
    order of intervals that start together. -/
structure SameState (p q : Process) : Prop where
  facts : ∀ s pred, pred ≠ .ip → p.intervals (s, pred) = q.intervals (s, pred)
  owned : (rebuilt p.bindings).Same (rebuilt q.bindings)
  holds : ∀ k, p.Holds k ↔ q.Holds k

theorem vals_ne_nil_iff {byTs : ByTs} : byTs.vals ≠ [] ↔ ∃ ts c, byTs.get? ts = some c := by
  constructor
  · intro h
    obtain ⟨c, hc⟩ := List.exists_mem_of_ne_nil _ h
    exact ⟨c.validFrom, c, Registry.get?_eq_some.mpr ⟨hc, rfl⟩⟩
  · rintro ⟨ts, c, h⟩
    exact List.ne_nil_of_mem (Registry.get?_eq_some.mp h).1

/-- The replay of the rows of a settled run rebuilds its state. -/
theorem sameState_replay {tenant : String} {clock : Int} {is : List Input}
    (hids : ConsistentIds (records is))
    (hsettled : Machine.Meets (step tenant) (Settled (records is)) (World.initial tenant clock) is)
    {rows : List IdentityRow}
    (hrows : ∀ row, row ∈ rows ↔ row ∈ rowsOf tenant (evidences is))
    (hsorted : rows.Pairwise (fun a b => a.order < b.order))
    (emitted : FactId → List IntervalKey) :
    SameState (foldAll tenant { Process.fresh with emitted := emitted }
      (rows.map IdentityRow.evidence)) (foldAll tenant .fresh (evidences is)) := by
  have hkeyed : SameMembers (keyedFrom .empty (rows.map IdentityRow.evidence))
      (keyedFrom .empty (evidences is)) := by
    intro k
    rw [keyedFrom_run hids hsettled]
    exact (sameMembers_replay tenant hids hrows hsorted k).symm
  have hwin : ∀ s pred ts, ((foldAll tenant { Process.fresh with emitted := emitted }
      (rows.map IdentityRow.evidence)).factState s pred).get? ts =
        ((foldAll tenant .fresh (evidences is)).factState s pred).get? ts :=
    factState_congr tenant (p := { Process.fresh with emitted := emitted }) (q := .fresh)
      rfl rfl hkeyed
  have hbinds := sameMembers_bindings tenant hrows
  have hcons : KeyedConsistently ((rows.map IdentityRow.evidence).filterMap Evidence.binding) := by
    have h := keyedConsistently_bindings (records is) hids fun r hr => hr
    intro a ha b hb
    exact h a ((hbinds a).mp ha) b ((hbinds b).mp hb)
  have hback : (foldAll tenant { Process.fresh with emitted := emitted }
      (rows.map IdentityRow.evidence)).bindings =
        recordAll ((rows.map IdentityRow.evidence).filterMap Evidence.binding) :=
    bindings_foldAll _ _ _
  have hlive : (foldAll tenant .fresh (evidences is)).bindings =
      recordAll (((records is).flatMap BusRecord.bindings).map BindingObs.norm) := by
    rw [bindings_foldAll, recordAll_map_norm]
    unfold evidences
    rw [List.filterMap_flatMap]
    rfl
  have hclaims := sameMembers_claims hbinds hcons
  refine ⟨?_, ?_, ?_⟩
  · intro s pred hip
    rw [intervals_fact _ _ hip, intervals_fact _ _ hip]
    exact rebuildIntervals_congr (hwin s pred)
  · rw [hback, hlive]
    exact rebuilt_same hbinds hcons
  · rintro ⟨s, pred⟩
    by_cases hip : pred = .ip
    · subst hip
      show (∃ c ∈ claims _, _) ↔ (∃ c ∈ claims _, _)
      rw [hback, hlive]
      exact exists_congr fun c => and_congr (hclaims c) Iff.rfl
    · rw [holds_fact _ _ hip, holds_fact _ _ hip, vals_ne_nil_iff, vals_ne_nil_iff]
      simp only [hwin]

/-- A table that the run of one process wrote has live rows only where the
    process holds evidence. -/
theorem holds_of_live {tenant : String} {clock : Int} {is : List Input} {k : FactId}
    (h : liveRows tenant (Machine.run (step tenant) (World.initial tenant clock) is).facts k ≠ []) :
    (Machine.run (step tenant) (World.initial tenant clock) is).proc.Holds k := by
  by_contra hk
  refine h (List.eq_nil_iff_forall_not_mem.mpr fun r hr => ?_)
  have hrun := inStep_run tenant (.empty clock) [] is
  have hmem := ((hrun.untouched k hk r).mp hr)
  cases hmem

theorem InStep.foldAll {tenant : String} {t₀ : FactTable} {w : World} (h : InStep tenant t₀ w)
    (es : List Evidence) : InStep tenant t₀ { w with proc := foldAll tenant w.proc es } := by
  unfold AssetService.foldAll
  induction es generalizing w with
  | nil => exact h
  | cons e es ih => exact ih (h.folded e.obs e.obsId e.ts)

/-- The world of a restart before its repair flush. -/
def replayedWorld (tenant : String) (t : FactTable) (identity : List IdentityRow) : World :=
  let w := World.loaded tenant t identity
  { w with proc := { foldAll tenant w.proc ((selectIdentity tenant identity).map
      IdentityRow.evidence) with pendingObs := .empty } }

/-- `restore_state` does not fail before its flush. -/
theorem restoreState_eq (tenant : String) (t : FactTable) (identity : List IdentityRow)
    (fault : Option Insert) (delay : Nat) : restoreState tenant t identity fault delay =
      .ok (flush tenant (replayedWorld tenant t identity) fault delay) := by
  unfold restoreState replayedWorld
  simp only [replay_eq]
  rfl

/-- **Restart equivalence.** Take a run from empty tables in which every
    fact is settled when it is folded, and whose evidence is all persisted.
    Then `restore_state` returns, the fresh process holds the facts and the
    ownership of the old one, and after its repair flush the live rows are
    exactly its intervals. -/
theorem restart_equivalence (tenant : String) (clock : Int) {is : List Input}
    (hids : ConsistentIds (records is))
    (hsettled : Machine.Meets (step tenant) (Settled (records is)) (World.initial tenant clock) is)
    (hpersisted :
      (Machine.run (step tenant) (World.initial tenant clock) is).proc.pendingObs.vals = [])
    (delay : Nat) :
    let live := Machine.run (step tenant) (World.initial tenant clock) is
    ∃ back, restoreState tenant live.facts live.identity none delay = .ok (true, back) ∧
      (∀ s pred, pred ≠ .ip → back.proc.intervals (s, pred) = live.proc.intervals (s, pred)) ∧
      (∃ owned owned', rebuildIpOwnership back.proc.bindings = .ok owned ∧
        rebuildIpOwnership live.proc.bindings = .ok owned' ∧ owned.Same owned') ∧
      ∀ k, Mirrors tenant back k := by
  intro live
  have htraced := traced_run tenant clock hids
  have hidentity : ∀ row, row ∈ live.identity ↔ row ∈ rowsOf tenant (evidences is) := by
    intro row
    have h := htraced.rows row
    rw [hpersisted] at h
    simpa using h
  have hagree : RowsAgree live.identity := by
    intro a ha b hb
    exact rowsAgree_of_consistent hids a ((hidentity a).mp ha) b ((hidentity b).mp hb)
  have htenant : ∀ row ∈ live.identity, row.tenantId = tenant := by
    intro row hrow
    obtain ⟨e, -, -, rfl⟩ := mem_rowsOf.mp ((hidentity row).mp hrow)
    rfl
  obtain ⟨hselect, hsorted⟩ := selectIdentity_spec hagree htenant
  have hsame := sameState_replay hids hsettled (fun row => (hselect row).trans (hidentity row))
    hsorted (loadEmitted tenant live.facts)
  let replayed : World := replayedWorld tenant live.facts live.identity
  have hinStep : InStep tenant live.facts replayed := by
    have h := (inStep_loaded tenant live.facts live.identity).foldAll
      ((selectIdentity tenant live.identity).map IdentityRow.evidence)
    exact ⟨h.pending_current, h.pending_holds, h.emitted_live, h.clean, h.untouched⟩
  have hok : (flush tenant replayed none delay).1 = true := by
    simp [flush]
  obtain ⟨hb, hf, -⟩ := flush_frame tenant replayed none delay
  refine ⟨(flush tenant replayed none delay).2, ?_, ?_, ?_, ?_⟩
  · rw [restoreState_eq, ← hok]
  · intro s pred hip
    calc (flush tenant replayed none delay).2.proc.intervals (s, pred)
        = replayed.proc.intervals (s, pred) := intervals_congr hb hf (s, pred)
      _ = (foldAll tenant .fresh (evidences is)).intervals (s, pred) := hsame.facts s pred hip
      _ = live.proc.intervals (s, pred) :=
        (intervals_congr htraced.bindings htraced.factState (s, pred)).symm
  · refine ⟨_, _, rebuildIpOwnership_eq _, rebuildIpOwnership_eq _, ?_⟩
    have hlive : live.proc.bindings = (foldAll tenant .fresh (evidences is)).bindings :=
      htraced.bindings
    rw [hb, hlive]
    exact hsame.owned
  · intro k
    by_cases hk : replayed.proc.Holds k
    · exact hinStep.mirrors_flush hok (holds_flush.mpr hk)
    · refine ((hinStep.flush none delay).mirrors_iff_of_not_holds
        fun h => hk (holds_flush.mp h)).mpr ?_
      by_contra hlive
      have hheld : live.proc.Holds k := holds_of_live hlive
      have hheld' : (foldAll tenant .fresh (evidences is)).Holds k :=
        (holds_congr htraced.bindings htraced.factState k).mp hheld
      exact hk ((hsame.holds k).mpr hheld')

/-- The binding comes before the request it concerns. -/
def inOrder : List Input := [.observe lateBinding, .observe request, .flush none 0]

theorem restart_in_order :
    let live := Machine.run (step "default") (World.initial "default" 0) inOrder
    ∃ back, restoreState "default" live.facts live.identity none 0 = .ok (true, back) ∧
      (∀ s pred, pred ≠ .ip → back.proc.intervals (s, pred) = live.proc.intervals (s, pred)) ∧
      (∃ owned owned', rebuildIpOwnership back.proc.bindings = .ok owned ∧
        rebuildIpOwnership live.proc.bindings = .ok owned' ∧ owned.Same owned') ∧
      ∀ k, Mirrors "default" back k := by
  have hids : ConsistentIds (records inOrder) := by
    intro r hr r' hr' hid
    have hmem : records inOrder = [lateBinding, request] := rfl
    rw [hmem] at hr hr'
    simp only [List.mem_cons, List.not_mem_nil, or_false] at hr hr'
    rcases hr with rfl | rfl <;> rcases hr' with rfl | rfl
    · rfl
    · exact absurd hid (by decide)
    · exact absurd hid (by decide)
    · rfl
  have hfirst : ∀ e ∈ lateBinding.evidence, e.cands ≠ [] →
      assetKey e.obs (World.initial "default" 0).proc.bindings lateBinding.ts =
        assetKey e.obs (settled (records inOrder) lateBinding) lateBinding.ts := by
    decide +kernel
  have hsecond : ∀ e ∈ request.evidence, e.cands ≠ [] →
      assetKey e.obs
        (step "default" (World.initial "default" 0) (.observe lateBinding)).proc.bindings request.ts =
        assetKey e.obs (settled (records inOrder) request) request.ts := by
    decide +kernel
  have hsettled : Machine.Meets (step "default") (Settled (records inOrder))
      (World.initial "default" 0) inOrder :=
    .cons hfirst (.cons hsecond (.cons trivial (.nil _ _ _)))
  have hpersisted : (Machine.run (step "default") (World.initial "default" 0)
      inOrder).proc.pendingObs.vals = [] := by
    decide +kernel
  exact restart_equivalence "default" 0 hids hsettled hpersisted 0

/-- The request comes before the binding, with a later time. -/
def outOfOrder : List Input :=
  [.observe request, .flush none 0, .observe lateBinding, .flush none 0]

/-- The fact was folded under the address and is rebuilt under the MAC; the
    row of the address stays live after the repair flush. -/
theorem restart_moves_fact :
    let live := Machine.run (step "default") (World.initial "default" 0) outOfOrder
    live.proc.pendingObs.vals = [] ∧
    ∃ back, restoreState "default" live.facts live.identity none 0 = .ok (true, back) ∧
      (live.proc.intervals ("ip:10.0.0.2", .hostname)).length = 1 ∧
      (back.proc.intervals ("ip:10.0.0.2", .hostname)).length = 0 ∧
      (liveRows "default" back.facts ("ip:10.0.0.2", .hostname)).length = 1 := by
  intro live
  have hok : (flush "default" (replayedWorld "default" live.facts live.identity) none 0).1 = true := by
    decide +kernel
  refine And.intro (by decide +kernel)
    ⟨(flush "default" (replayedWorld "default" live.facts live.identity) none 0).2, ?_, ?_, ?_, ?_⟩
  · rw [restoreState_eq, ← hok]
  · decide +kernel
  · decide +kernel
  · decide +kernel

end AssetService
