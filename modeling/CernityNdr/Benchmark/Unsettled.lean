import CernityNdr.Benchmark.Score

/-! # Detections That Are Not Settled

    When the detections are not settled, a single malicious episode shows the
    order of the detections or of the entities of one of them: the kept
    revision of a finding, or the role of a value, is the one that the order
    picks.

    * `countP_single`, `countP_finding`: two orders that differ in one item, or
      in one finding, keep the same number of relevant items only when that
      item, or that finding, does.
    * `sound_iff_settled`: the condition is exact. -/

namespace Benchmark

open Rearranged

variable {lower : String → String} {float : ℚ → Option ℚ} {deadline : Option ℚ}

/-! ### The latest revisions of another order -/

theorem Latest.reordered {ds ds' : List Detection} (hupTo : UpTo Reordered ds ds')
    {d d' : Detection} (h : Latest lower float deadline ds d) (hd : d' ∈ ds')
    (hrel : Reordered d d') : Latest lower float deadline ds' d' := by
  obtain ⟨_, helig, hkey, m, hrank, hmax⟩ := h
  refine ⟨hd, hrel.eligibility_eq deadline ▸ helig, hrel.groupKey_eq ▸ hkey, m,
    hrel.revisionRank_eq ▸ hrank, ?_⟩
  intro x' hx' helig' hkey'
  obtain ⟨x, hx, hrelx⟩ := hupTo.exists_left hx'
  obtain ⟨n, hn, hrankx⟩ := hmax x hx ((hrelx.eligibility_eq deadline).trans helig')
    ((hrelx.groupKey_eq.trans hkey').trans hrel.groupKey_eq.symm)
  exact ⟨n, hn, hrelx.revisionRank_eq ▸ hrankx⟩

theorem Latest.exists_left {ds ds' : List Detection} (hupTo : UpTo Reordered ds ds')
    {d' : Detection} (h : Latest lower float deadline ds' d') :
    ∃ d, Latest lower float deadline ds d ∧ Reordered d d' := by
  obtain ⟨hmem, helig, hkey, m, hrank, hmax⟩ := h
  obtain ⟨d, hd, hrel⟩ := hupTo.exists_left hmem
  refine ⟨d, ⟨hd, (hrel.eligibility_eq deadline).trans helig, hrel.groupKey_eq.symm ▸ hkey, m,
    hrel.revisionRank_eq.trans hrank, ?_⟩, hrel⟩
  intro x hx heligx hkeyx
  obtain ⟨x', hx', hrelx⟩ := hupTo.exists_right hx
  obtain ⟨n, hn, hrankx⟩ := hmax x' hx' ((hrelx.eligibility_eq deadline).symm.trans heligx)
    ((hrelx.groupKey_eq.symm.trans hkeyx).trans hrel.groupKey_eq)
  exact ⟨n, hn, hrelx.revisionRank_eq.trans hrankx⟩

/-- The first of the latest revisions is kept when they have one payload. -/
theorem kept_of_front {t : Detection} {rest : List Detection} {k : String × String}
    (hlatest : Latest lower float deadline (t :: rest) t) (hkey : groupKey t = some k)
    (hsame : ∀ d, Latest lower float deadline (t :: rest) d → groupKey d = groupKey t →
      payloadKey lower d = payloadKey lower t)
    {s : Selection} (h : selectRevisions lower float (t :: rest) deadline = some s) :
    (selectionOf lower float deadline (t :: rest) k).kept = [t] := by
  obtain ⟨u, hu⟩ := Option.isSome_iff_exists.mp ((selectRevisions_eq_some.mp h).1 k)
  have hmem : t ∈ having deadline .eligible (revisionsOf (t :: rest) k) :=
    mem_having.mpr ⟨List.mem_cons_self, hkey, hlatest.2.1⟩
  obtain ⟨top, htop, _, rfl⟩ := (selectGroup_eq_some (List.ne_nil_of_mem hmem)).mp hu
  have hsub : ∀ d ∈ top, payloadKey lower d = payloadKey lower t := by
    intro d hd
    obtain ⟨hlatest', hkey'⟩ := (mem_top_iff htop).mp hd
    exact hsame d hlatest' (hkey'.trans hkey.symm)
  have ht : t ∈ top := (mem_top_iff htop).mpr ⟨hlatest, hkey⟩
  have hlen : (distinct lower top).vals.length = 1 :=
    (length_distinct_eq_one (List.ne_nil_of_mem ht)).mpr fun r hr s hs =>
      (hsub r hr).trans (hsub s hs).symm
  -- it stands in front of every list that it is in
  obtain ⟨topRank, htopEq, _, _⟩ := topRevisions_eq_some.mp htop
  have hrank : revisionRank lower float t = some topRank := by
    rw [htopEq] at ht
    exact of_decide_eq_true (List.mem_filter.mp ht).2
  have hfront : ∃ others, top = t :: others := by
    have hrevs : revisionsOf (t :: rest) k = t :: revisionsOf rest k := by
      rw [revisionsOf, Grouping.members, List.filter_cons, if_pos (decide_eq_true hkey)]
      rfl
    have helig : having deadline .eligible (t :: revisionsOf rest k) =
        t :: having deadline .eligible (revisionsOf rest k) := by
      rw [having, List.filter_cons, if_pos (decide_eq_true hlatest.2.1)]
      rfl
    rw [hrevs, helig, List.filter_cons, if_pos (decide_eq_true hrank)] at htopEq
    exact ⟨_, htopEq⟩
  obtain ⟨others, rfl⟩ := hfront
  rw [selectionOf, hu, Option.getD_some]
  show (if (distinct lower (t :: others)).vals.length = 1 then (t :: others).take 1 else []) = [t]
  rw [if_pos hlen]
  rfl

/-! ### Orders that differ in one place -/

section

variable {ds ds' : List Detection} {s s' : Selection} {p : Detection → Bool}

theorem countP_kept (h : selectRevisions lower float ds deadline = some s)
    {ks : List (String × String)} (hnodup : ks.Nodup)
    (hsub : (Grouping.grouped groupKey ds).keys ⊆ ks) :
    s.kept.countP p = (having deadline .eligible (singlesOf ds)).countP p +
      (ks.map (fun k => (selectionOf lower float deadline ds k).kept.countP p)).sum :=
  (additive_kept p).selectRevisions h hnodup hsub

theorem exists_keys (ds ds' : List Detection) (k : String × String) :
    ∃ ks : List (String × String), ks.Nodup ∧ k ∈ ks ∧
      (Grouping.grouped groupKey ds).keys ⊆ ks ∧ (Grouping.grouped groupKey ds').keys ⊆ ks := by
  refine ⟨(k :: ((Grouping.grouped groupKey ds).keys ++
    (Grouping.grouped groupKey ds').keys)).dedup, List.nodup_dedup _, ?_, ?_, ?_⟩
  · simp
  · intro x hx
    simp [hx]
  · intro x hx
    simp [hx]

theorem countP_single (h : selectRevisions lower float ds deadline = some s)
    (h' : selectRevisions lower float ds' deadline = some s')
    (hcount : s.kept.countP p = s'.kept.countP p)
    (hrevs : ∀ k, revisionsOf ds k = revisionsOf ds' k) :
    (having deadline .eligible (singlesOf ds)).countP p =
      (having deadline .eligible (singlesOf ds')).countP p := by
  obtain ⟨ks, hnodup, _, hsub, hsub'⟩ := exists_keys ds ds' ("", "")
  have hsame : ∀ k, selectionOf lower float deadline ds k =
      selectionOf lower float deadline ds' k := by
    intro k
    rw [selectionOf, selectionOf, hrevs]
  rw [countP_kept h hnodup hsub, countP_kept h' hnodup hsub',
    List.map_congr_left fun k _ => by rw [hsame k]] at hcount
  exact Nat.add_right_cancel hcount

theorem countP_finding (h : selectRevisions lower float ds deadline = some s)
    (h' : selectRevisions lower float ds' deadline = some s')
    (hcount : s.kept.countP p = s'.kept.countP p) (hsingles : singlesOf ds = singlesOf ds')
    {k : String × String} (hrevs : ∀ k', k' ≠ k → revisionsOf ds k' = revisionsOf ds' k') :
    (selectionOf lower float deadline ds k).kept.countP p =
      (selectionOf lower float deadline ds' k).kept.countP p := by
  obtain ⟨ks, hnodup, hk, hsub, hsub'⟩ := exists_keys ds ds' k
  have hperm : ks.Perm (k :: ks.erase k) := List.perm_cons_erase hk
  have hothers : ∀ k' ∈ ks.erase k, (selectionOf lower float deadline ds k').kept.countP p =
      (selectionOf lower float deadline ds' k').kept.countP p := by
    intro k' hk'
    rw [selectionOf, selectionOf, hrevs k' (hnodup.mem_erase_iff.mp hk').1]
  rw [countP_kept h hnodup hsub, countP_kept h' hnodup hsub', hsingles, (hperm.map _).sum_nat,
    (hperm.map _).sum_nat, List.map_cons, List.map_cons, List.sum_cons, List.sum_cons,
    List.map_congr_left hothers] at hcount
  omega

end

/-! ### One episode -/

/-- The order does not show in the items that surface an episode. -/
def Unseen (lower : String → String) (float : ℚ → Option ℚ) (deadline : Option ℚ)
    (tol offset : ℚ) (ds : List Detection) : Prop :=
  ∀ ep : Episode, ep.label = some "malicious" → ∀ ds' ds'', UpTo Reordered ds ds' →
    UpTo Reordered ds ds'' → ∃ s' s'', selectRevisions lower float ds' deadline = some s' ∧
      selectRevisions lower float ds'' deadline = some s'' ∧
      s'.kept.countP (fun d => matchVerdict lower d (ep.shifted offset) tol = .matched) =
        s''.kept.countP (fun d => matchVerdict lower d (ep.shifted offset) tol = .matched)

/-- The relevant items of one malicious episode. -/
theorem relevantItems_eq {ds : List Detection} {ep : Episode} (hlabel : ep.label = some "malicious")
    {tol offset : ℚ} {r : Report} (h : score lower float ds [ep] tol offset deadline = some r) :
    ∃ s, selectRevisions lower float ds deadline = some s ∧ r.relevantItems =
      s.kept.countP (fun d => matchVerdict lower d (ep.shifted offset) tol = .matched) := by
  obtain ⟨out, hout, rfl⟩ := Option.map_eq_some_iff.mp h
  obtain ⟨s, hs, hout⟩ := Option.bind_eq_some_iff.mp hout
  refine ⟨s, hs, ?_⟩
  obtain rfl := Option.some.inj hout
  have hmal : labelled "malicious" ([ep].map (Episode.shifted offset)) = [ep.shifted offset] := by
    have hshifted : (ep.shifted offset).label = some "malicious" := hlabel
    simp [labelled, hshifted]
  show (s.kept.filter _).length = _
  rw [shifted_episodes, hmal, List.countP_eq_length_filter]
  refine congrArg List.length (List.filter_congr fun d _ => ?_)
  rw [decide_eq_decide, judge]
  constructor
  · intro hj
    split at hj
    · next hmem => simpa [verdictsOn, eq_comm] using hmem
    · split at hj
      · cases hj
      · split at hj <;> cases hj
  · intro hv
    rw [if_pos (by simp [verdictsOn, hv])]

theorem unseen_of_sound {ds : List Detection} {tol offset : ℚ}
    (h : ∀ episodes : List Episode, (episodes.map Episode.id).Nodup →
      ∃ s, Sound lower float ds episodes tol offset deadline s) :
    Unseen lower float deadline tol offset ds := by
  intro ep hlabel ds' ds'' hupTo hupTo'
  obtain ⟨s, hs⟩ := h [ep] (List.nodup_singleton _)
  obtain ⟨s', hs', hcount⟩ := relevantItems_eq hlabel (hs.unordered ds' hupTo)
  obtain ⟨s'', hs'', hcount'⟩ := relevantItems_eq hlabel (hs.unordered ds'' hupTo')
  exact ⟨s', s'', hs', hs'', hcount.symm.trans hcount'⟩

/-! ### The condition is necessary -/

section

variable {tol offset : ℚ} {ds : List Detection}

/-- A detection in front, with its entities in any order. -/
theorem upTo_front {d : Detection} (hd : d ∈ ds) {es : List Entity} (h : es.Perm d.entities) :
    UpTo Reordered ds ({ d with entities := es } :: ds.erase d) :=
  ⟨d :: ds.erase d, List.perm_cons_erase hd,
    .cons ⟨es, h, rfl⟩ (List.forall₂_same.mpr fun x _ => Reordered.refl x)⟩

/-- An episode without an interval is surfaced by identity. -/
theorem matched_iff_of_untimed {ep : Episode} (hep : ep.interval = none) (d : Detection) :
    matchVerdict lower d (ep.shifted offset) tol = .matched ↔
      identityMatch lower d ep = true := by
  have hident : identityMatch lower d (ep.shifted offset) = identityMatch lower d ep := rfl
  have htime : temporal d (ep.shifted offset) tol = .untimed := by
    simp [temporal, Episode.shifted, hep, shiftInterval]
  rw [matchVerdict, htime, hident]
  cases identityMatch lower d ep <;> simp

theorem clear_of_single (h : Unseen lower float deadline tol offset ds) {d : Detection}
    (hd : d ∈ ds) (helig : eligibility d deadline = .eligible) (hkey : groupKey d = none) :
    Clear lower d.entities := by
  by_contra hclear
  obtain ⟨es, es', hes, hes', ep, hlabel, htime, hyes, hno⟩ := exists_order_of_not_clear hclear
  obtain ⟨s, s', hs, hs', hcount⟩ := h ep hlabel _ _ (upTo_front hd hes) (upTo_front hd hes')
  have hrevs : ∀ k, revisionsOf ({ d with entities := es } :: ds.erase d) k =
      revisionsOf ({ d with entities := es' } :: ds.erase d) k := by
    intro k
    have hskip : ∀ e : List Entity, revisionsOf ({ d with entities := e } :: ds.erase d) k =
        revisionsOf (ds.erase d) k := by
      intro e
      have hnone : groupKey { d with entities := e } = none := hkey
      rw [revisionsOf, Grouping.members, List.filter_cons, if_neg (by simp [hnone])]
      rfl
    rw [hskip, hskip]
  have hone := countP_single hs hs' hcount hrevs
  have hfront : ∀ e : List Entity, having deadline .eligible
      (singlesOf ({ d with entities := e } :: ds.erase d)) =
        { d with entities := e } :: having deadline .eligible (singlesOf (ds.erase d)) := by
    intro e
    have hnone : groupKey { d with entities := e } = none := hkey
    have helig' : eligibility { d with entities := e } deadline = .eligible := helig
    rw [singlesOf, List.filter_cons, if_pos (decide_eq_true hnone), having, List.filter_cons,
      if_pos (decide_eq_true helig')]
    rfl
  have hmatched : matchVerdict lower { d with entities := es } (ep.shifted offset) tol = .matched :=
    (matched_iff_of_untimed htime _).mpr hyes
  have hunmatched :
      matchVerdict lower { d with entities := es' } (ep.shifted offset) tol ≠ .matched := by
    rw [Ne, matched_iff_of_untimed htime, hno]
    exact Bool.false_ne_true
  rw [hfront, hfront, List.countP_cons, List.countP_cons, if_pos (decide_eq_true hmatched),
    if_neg (by simpa using hunmatched)] at hone
  omega

/-- The order of a finding's revision in front, and of what it names, shows
    in whether the finding surfaces the episode. -/
theorem matched_iff_of_front (h : Unseen lower float deadline tol offset ds) {ep : Episode}
    (hlabel : ep.label = some "malicious") {t u : Detection} {rest rest' : List Detection}
    (ht : UpTo Reordered ds (t :: rest)) (hu : UpTo Reordered ds (u :: rest'))
    (hlatest : Latest lower float deadline (t :: rest) t)
    (hlatest' : Latest lower float deadline (u :: rest') u)
    {k : String × String} (hkey : groupKey t = some k) (hkey' : groupKey u = some k)
    (hsame : ∀ d, Latest lower float deadline ds d → groupKey d = some k →
      payloadKey lower d = payloadKey lower t)
    (hpay : payloadKey lower t = payloadKey lower u)
    (hsingles : singlesOf (t :: rest) = singlesOf (u :: rest'))
    (hrevs : ∀ k', k' ≠ k → revisionsOf (t :: rest) k' = revisionsOf (u :: rest') k') :
    matchVerdict lower t (ep.shifted offset) tol = .matched ↔
      matchVerdict lower u (ep.shifted offset) tol = .matched := by
  obtain ⟨s, s', hs, hs', hcount⟩ := h ep hlabel _ _ ht hu
  have hpayload : ∀ {l : List Detection}, UpTo Reordered ds l → ∀ d,
      Latest lower float deadline l d → groupKey d = some k →
        payloadKey lower d = payloadKey lower t := by
    intro l hl d hd hdkey
    obtain ⟨d₀, hd₀, hrel⟩ := hd.exists_left hl
    rw [← hrel.payloadKey_eq]
    exact hsame d₀ hd₀ (hrel.groupKey_eq.trans hdkey)
  have hkept := kept_of_front hlatest hkey
    (fun d hd hdkey => hpayload ht d hd (hdkey.trans hkey)) hs
  have hkept' := kept_of_front hlatest' hkey'
    (fun d hd hdkey => (hpayload hu d hd (hdkey.trans hkey')).trans hpay) hs'
  have hone := countP_finding hs hs' hcount hsingles hrevs
  rw [hkept, hkept'] at hone
  by_cases hm : matchVerdict lower t (ep.shifted offset) tol = .matched
  · by_cases hm' : matchVerdict lower u (ep.shifted offset) tol = .matched
    · exact iff_of_true hm hm'
    · simp [hm, hm'] at hone
  · by_cases hm' : matchVerdict lower u (ep.shifted offset) tol = .matched
    · simp [hm, hm'] at hone
    · exact iff_of_false hm hm'

theorem clear_of_latest (h : Unseen lower float deadline tol offset ds) {d : Detection}
    (hd : Latest lower float deadline ds d)
    (hsame : ∀ d', Latest lower float deadline ds d' → groupKey d' = groupKey d →
      payloadKey lower d' = payloadKey lower d) : Clear lower d.entities := by
  by_contra hclear
  obtain ⟨k, hk⟩ := Option.ne_none_iff_exists'.mp hd.2.2.1
  obtain ⟨es, es', hes, hes', ep, hlabel, htime, hyes, hno⟩ := exists_order_of_not_clear hclear
  have hfront : ∀ e : List Entity, e.Perm d.entities → Latest lower float deadline
      ({ d with entities := e } :: ds.erase d) { d with entities := e } := by
    intro e he
    exact hd.reordered (upTo_front hd.1 he) List.mem_cons_self ⟨e, he, rfl⟩
  have hkeyOf : ∀ e : List Entity, groupKey { d with entities := e } = some k := fun _ => hk
  have hpay : ∀ e : List Entity, e.Perm d.entities →
      payloadKey lower d = payloadKey lower { d with entities := e } :=
    fun e he => Reordered.payloadKey_eq ⟨e, he, rfl⟩
  have hiff := matched_iff_of_front h hlabel (upTo_front hd.1 hes) (upTo_front hd.1 hes')
    (hfront es hes) (hfront es' hes') (hkeyOf es) (hkeyOf es')
    (fun d' hd' hkey => (hsame d' hd' (hkey.trans hk.symm)).trans (hpay es hes))
    ((hpay es hes).symm.trans (hpay es' hes'))
    (by
      rw [singlesOf, singlesOf, List.filter_cons, List.filter_cons, if_neg (by simp [hkeyOf]),
        if_neg (by simp [hkeyOf])])
    (by
      intro k' hk'
      rw [revisionsOf, revisionsOf, Grouping.members, Grouping.members, List.filter_cons,
        List.filter_cons, if_neg (by simp [hkeyOf, hk'.symm]), if_neg (by simp [hkeyOf, hk'.symm])])
  rw [matched_iff_of_untimed htime, matched_iff_of_untimed htime, hyes, hno] at hiff
  exact Bool.false_ne_true (hiff.mp rfl)

/-- An episode with an interval is surfaced when the intervals meet. -/
theorem matched_iff_of_timed {d : Detection} {ep : Episode} (h : identityMatch lower d ep = true)
    (htime : ep.interval ≠ none) :
    matchVerdict lower d ep tol = .matched ↔ temporal d ep tol = .inside := by
  have huntimed : temporal d ep tol ≠ .untimed := by
    obtain ⟨i, hi⟩ := Option.ne_none_iff_exists'.mp htime
    rw [temporal, hi]
    cases d.interval with
    | none => simp
    | some di =>
      show (if _ then _ else _) ≠ _
      split <;> simp
  rw [matchVerdict, h]
  cases htemp : temporal d ep tol with
  | untimed => exact absurd htemp huntimed
  | inside => simp
  | out => simp
  | unknown => simp

theorem returns_of_unseen (h : Unseen lower float deadline tol offset ds) :
    (selectRevisions lower float ds deadline).isSome := by
  obtain ⟨s, _, hs, _⟩ := h ⟨"", some "malicious", [], none, none, none, []⟩ rfl ds ds
    (upTo_of_perm Reordered.refl (.refl ds)) (upTo_of_perm Reordered.refl (.refl ds))
  exact Option.isSome_iff_exists.mpr ⟨s, hs⟩

theorem interval_eq_of_latest (h : Unseen lower float deadline tol offset ds) {t u : Detection}
    (ht : Latest lower float deadline ds t) (hu : Latest lower float deadline ds u)
    (hkey : groupKey u = groupKey t)
    (hsame : ∀ d, Latest lower float deadline ds d → groupKey d = groupKey t →
      payloadKey lower d = payloadKey lower t)
    (hnamed : Named t) : u.interval = t.interval := by
  by_contra hne
  obtain ⟨k, hk⟩ := Option.ne_none_iff_exists'.mp ht.2.2.1
  have hk' : groupKey u = some k := hkey.trans hk
  obtain ⟨j, hj⟩ := exists_interval_of_ne (Ne.symm hne) tol offset
  obtain ⟨e, he, hvalue⟩ := hnamed
  have hclear := clear_of_latest h ht hsame
  have hpay : payloadKey lower t = payloadKey lower u := (hsame u hu hkey).symm
  have hpaysome : (payloadKey lower t).isSome :=
    payloadKey_isSome_iff.mpr ((selectRevisions_isSome_iff.mp (returns_of_unseen h)).2 t ht)
  obtain ⟨hperm, hbehavior⟩ := perm_of_payloadKey hpaysome hpay
  have hrole : (entityRoles lower t.entities).lookup e.value = some (normRole lower e.role) :=
    (lookup_eq_some_of_clear hclear).mpr ⟨hvalue, List.mem_map.mpr ⟨e, he, rfl⟩⟩
  have hrole' : (entityRoles lower u.entities).lookup e.value = some (normRole lower e.role) := by
    rw [← lookup_congr hclear hperm]
    exact hrole
  -- both detections meet the probe, and the interval decides
  have hident : identityMatch lower t (probe t e (shiftInterval (some j) offset)) = true :=
    (identityMatch_probe rfl rfl hvalue _ hrole).mpr (Or.inr rfl)
  have hident' : identityMatch lower u (probe t e (shiftInterval (some j) offset)) = true :=
    (identityMatch_probe hbehavior.symm (tenantOf_of_groupKey hkey hu.2.2.1) hvalue _ hrole').mpr
      (Or.inr rfl)
  have hshift : shiftInterval (some j) offset ≠ none := by
    rw [shiftInterval]
    split <;> simp
  have htu : u ∈ ds.erase t := by
    have hdiff : u ≠ t := fun heq => hne (heq ▸ rfl)
    exact (List.mem_erase_of_ne hdiff).mpr hu.1
  have hmoved : ds.Perm (t :: u :: (ds.erase t).erase u) :=
    (List.perm_cons_erase ht.1).trans ((List.perm_cons_erase htu).cons t)
  have hfront : UpTo Reordered ds (t :: u :: (ds.erase t).erase u) :=
    upTo_of_perm Reordered.refl hmoved
  have hfront' : UpTo Reordered ds (u :: t :: (ds.erase t).erase u) :=
    upTo_of_perm Reordered.refl (hmoved.trans (.swap u t _))
  have hiff := @matched_iff_of_front lower float deadline tol offset ds h (probe t e (some j)) rfl
    t u _ _ hfront hfront' (ht.reordered hfront List.mem_cons_self (Reordered.refl t))
    (hu.reordered hfront' List.mem_cons_self (Reordered.refl u)) k hk hk'
    (fun d hd hdkey => hsame d hd (hdkey.trans hk.symm)) hpay
    (by simp [singlesOf, hk, hk'])
    (by
      intro k' hne'
      simp [revisionsOf, Grouping.members, hk, hk', hne'.symm])
  have hprobe : (probe t e (some j)).shifted offset =
      probe t e (shiftInterval (some j) offset) := rfl
  rw [hprobe, matched_iff_of_timed hident hshift, matched_iff_of_timed hident' hshift] at hiff
  exact hj t u _ rfl rfl rfl hiff

theorem settled_of_sound (h : ∀ episodes : List Episode, (episodes.map Episode.id).Nodup →
    ∃ s, Sound lower float ds episodes tol offset deadline s) :
    Settled lower float deadline ds := by
  have hunseen := unseen_of_sound h
  obtain ⟨hranked, hcomparable⟩ := selectRevisions_isSome_iff.mp (returns_of_unseen hunseen)
  refine ⟨hranked, hcomparable, ?_, ?_⟩
  · intro d hd helig hkey
    exact clear_of_single hunseen hd helig hkey
  · intro d hd hsame
    refine ⟨clear_of_latest hunseen hd hsame, ?_⟩
    intro hnamed d' hd' hkey
    exact interval_eq_of_latest hunseen hd hd' hkey hsame hnamed

end

/-- Whatever the episodes, the score of some detections is sound exactly when
    the detections are settled. -/
theorem sound_iff_settled (lower : String → String) (float : ℚ → Option ℚ)
    (detections : List Detection) (tol replayOffset : ℚ) (deadline : Option ℚ) :
    (∀ episodes : List Episode, (episodes.map Episode.id).Nodup →
      ∃ s, Sound lower float detections episodes tol replayOffset deadline s) ↔
      Settled lower float deadline detections := by
  constructor
  · intro h
    exact settled_of_sound h
  · intro h episodes hnodup
    exact sound_of_settled h hnodup tol replayOffset

/-! ### Two revisions of one rank -/

/-- A revision with an explicit counter, seen in some interval. -/
def sampleRevision (start stop : ℚ) (roles : List (Option String)) : Detection where
  entities := roles.map (fun role => ⟨"10.0.0.5", role⟩)
  behavior := some "c2"
  category := none
  tenant := none
  findingId := some "f1"
  interval := some ⟨start, stop⟩
  available := none
  revision := some 3
  severity := none
  state := none

def sampleEpisode : Episode where
  id := "beacon"
  label := some "malicious"
  entities := [⟨"10.0.0.5", some "initiator"⟩]
  behavior := some "c2"
  tenant := none
  interval := some ⟨0, 50⟩
  matchRequires := []

theorem sample_scores :
    (score String.toLower some [sampleRevision 0 10 [some "src"],
        sampleRevision 100 110 [some "src"]] [sampleEpisode] 0 0 none).map
          Report.relevantItems = some 1 ∧
      (score String.toLower some [sampleRevision 100 110 [some "src"],
        sampleRevision 0 10 [some "src"]] [sampleEpisode] 0 0 none).map
          Report.relevantItems = some 0 ∧
      score String.toLower some [sampleRevision 0 10 [some "src", none]] [sampleEpisode] 0 0 none =
        none := by
  decide +kernel

/-- Two revisions with the same counter and the same payload, in two
    intervals: the first of them is the item. And a value that is listed with
    and without a role: the payload cannot be sorted. -/
theorem order_shows :
    ([sampleEpisode].map Episode.id).Nodup ∧
      (¬ ∃ s, Sound String.toLower some
        [sampleRevision 0 10 [some "src"], sampleRevision 100 110 [some "src"]]
        [sampleEpisode] 0 0 none s) ∧
      ¬ ∃ s, Sound String.toLower some [sampleRevision 0 10 [some "src", none]]
        [sampleEpisode] 0 0 none s := by
  obtain ⟨hfirst, hsecond, hraises⟩ := sample_scores
  refine ⟨List.nodup_singleton _, ?_, ?_⟩
  · rintro ⟨s, hs⟩
    rw [hs.unordered _ (upTo_of_perm Reordered.refl (.refl _))] at hfirst
    rw [hs.unordered _ (upTo_of_perm Reordered.refl (.swap _ _ _))] at hsecond
    have hcounts : some 1 = some 0 := hfirst.symm.trans hsecond
    simp at hcounts
  · rintro ⟨s, hs⟩
    rw [hs.unordered _ (upTo_of_perm Reordered.refl (.refl _))] at hraises
    simp at hraises

end Benchmark
