import Mathlib.Data.Prod.Lex
import Mathlib.Data.String.Basic
import CernityNdr.Framework.Selection

/-! # Paging through Evidence

    The model of `build_query` and `fetch_observations` of
    `evidence-service/query.py`, and of a caller that follows `next` and
    `next_after` from page to page.

    Two bounds cut a page: at most `page_size` rows, and at most one day of
    the window. The cursor that a page hands over is the key of its last row
    in the first case, the end of the day in the second.

    * `fetch_spec`: what a page returns and what is left after it.
    * `paging_complete_iff`: when the pages are the rows of the window. -/

namespace EvidenceService

/-! ### Times -/

/-- Microseconds of a day. -/
def MAX_WINDOW : Int := 86400 * 1000000

/-- `datetime.max`, in microseconds since the epoch. -/
def DATETIME_MAX : Int := 253402300799999999

/-- `frm + MAX_WINDOW`; `none` where it raises. -/
def addWindow (frm : Int) : Option Int :=
  if frm + MAX_WINDOW ≤ DATETIME_MAX then some (frm + MAX_WINDOW) else none

/-- What the database makes of a time that is bound as a `DateTime64(3)`: less
    than a millisecond is cut off. -/
structure Binding where
  bind : Int → Int
  le : ∀ t, bind t ≤ t
  lt : ∀ t, t < bind t + 1000
  mono : ∀ t u, t ≤ u → bind t ≤ bind u
  whole : ∀ t, 1000 ∣ t → bind t = t

/-! ### Rows and queries -/

/-- A row of `ndr.evidence_observations`, with a time in whole milliseconds. -/
structure Row where
  tenantId : String
  obsId : String
  normalizedTime : Int
  entityValues : List String
  type : String
  /-- the file hashes of the observation -/
  hashes : List String
  capabilities : List String
  whole : 1000 ∣ normalizedTime
  named : obsId ≠ ""

/-- The arguments of `fetch_observations` that a caller keeps. -/
structure Query where
  grants : List String
  entity : Option String
  obsType : Option String
  fileHash : Option String
  pageSize : Nat

/-- The conditions that do not depend on the page. -/
def Query.wants (q : Query) (r : Row) : Bool :=
  q.grants.contains r.tenantId &&
    q.entity.all (r.entityValues.contains ·) &&
    q.obsType.all (fun t => t = "" || r.type = t) &&
    q.fileHash.all (r.hashes.contains ·)

/-- `(normalized_time, obs_id)`. -/
def rowKey (r : Row) : Int ×ₗ String := toLex (r.normalizedTime, r.obsId)

variable (b : Binding) (table : List Row) (q : Query)

/-- The `WHERE` clause of `build_query`. -/
def whereClause (frm upTo : Int) (after : String) (r : Row) : Bool :=
  r.normalizedTime < b.bind upTo &&
    (b.bind frm < r.normalizedTime || (r.normalizedTime = b.bind frm && after < r.obsId)) &&
    q.wants r

/-- `client.query` of `build_query`. -/
def queryRows (frm upTo : Int) (after : String) : List Row :=
  (Keyset.sort rowKey (table.filter (whereClause b q frm upTo after))).take (q.pageSize + 1)

/-- A page. Its observations are the rows, of which the caller gets the
    canonical text. -/
structure Page where
  observations : List Row
  capabilities : List String
  /-- `next` and `next_after` -/
  next : Option (Int × String)

/-- The page of the rows. -/
def pageOf (rows : List Row) (next : Option (Int × String)) : Page where
  observations := rows
  capabilities := (rows.flatMap (·.capabilities)).dedup.insertionSort (· ≤ ·)
  next := next

/-- `fetch_observations`; `none` where it raises. -/
def fetchObservations (frm stop : Int) (after : String) : Option Page :=
  (addWindow frm).map fun oneDay =>
    let capped := min stop oneDay
    let rows := queryRows b table q frm capped after
    if q.pageSize < rows.length then
      let rows := rows.take q.pageSize
      pageOf rows (rows.getLast?.map fun r => (r.normalizedTime, r.obsId))
    else if capped < stop then pageOf rows (some (capped, ""))
    else pageOf rows none

/-! ### The caller -/

/-- A caller that follows `next`: the cursor of its next call, and the pages
    so far. -/
structure Caller where
  cursor : Option (Int × String)
  raised : Bool
  pages : List Page

/-- One call. -/
def Caller.call (stop : Int) (c : Caller) : Caller :=
  match c.cursor with
  | none => c
  | some (frm, after) =>
    match fetchObservations b table q frm stop after with
    | none => { c with cursor := none, raised := true }
    | some page => { c with cursor := page.next, pages := c.pages ++ [page] }

/-- The caller after `n` calls. -/
def callerAfter (frm stop : Int) : Nat → Caller
  | 0 => ⟨some (frm, ""), false, []⟩
  | n + 1 => (callerAfter frm stop n).call b table q stop

/-- The rows of the window, in order. -/
def windowRows (frm stop : Int) : List Row :=
  Keyset.sort rowKey (table.filter fun r =>
    q.wants r && frm ≤ r.normalizedTime && r.normalizedTime < stop)

/-- The caller came to the end and has the rows of the window. -/
def Caller.Complete (frm stop : Int) (c : Caller) : Prop :=
  c.cursor = none ∧ c.raised = false ∧
    c.pages.flatMap (·.observations) = windowRows table q frm stop

/-! ### What is left after a cursor -/

/-- The rows that the caller wants, in order. -/
def wanted : List Row := Keyset.sort rowKey (table.filter q.wants)

/-- The key that a cursor stands for. -/
def cursorKey (c : Int × String) : Int ×ₗ String := toLex (b.bind c.1, c.2)

/-- What is left of the window after a cursor. -/
def remaining (stop : Int) (c : Int × String) : List Row :=
  (Keyset.after rowKey (cursorKey b c) (wanted table q)).filter (·.normalizedTime < b.bind stop)

variable {b table q}

theorem cursorKey_lt_iff {c : Int × String} {r : Row} : cursorKey b c < rowKey r ↔
    b.bind c.1 < r.normalizedTime ∨ r.normalizedTime = b.bind c.1 ∧ c.2 < r.obsId := by
  rw [cursorKey, rowKey, Prod.Lex.toLex_lt_toLex]
  exact or_congr_right (and_congr_left fun _ => eq_comm)

theorem empty_lt {s : String} (h : s ≠ "") : "" < s := by
  rw [String.lt_iff_toList_lt]
  cases hs : s.toList with
  | nil => exact absurd (String.toList_eq_nil_iff.mp hs) h
  | cons c cs => exact List.nil_lt_cons c cs

/-- A cursor at a fresh boundary is before all rows from this time on. -/
theorem cursorKey_boundary_lt_iff {t : Int} {r : Row} :
    cursorKey b (t, "") < rowKey r ↔ b.bind t ≤ r.normalizedTime := by
  have hnamed := empty_lt r.named
  rw [cursorKey_lt_iff, le_iff_lt_or_eq]
  simp only [hnamed, and_true]
  exact or_congr_right eq_comm

/-- A cursor at a row. -/
theorem cursorKey_row (r : Row) : cursorKey b (r.normalizedTime, r.obsId) = rowKey r := by
  rw [cursorKey, b.whole _ r.whole, rowKey]

variable {stop frm : Int} {after : String}

theorem ordered_wanted (hkeys : (table.map rowKey).Nodup) : Keyset.Ordered rowKey (wanted table q) :=
  Keyset.ordered_sort (hkeys.sublist (List.filter_sublist.map rowKey))

variable (b q stop) in
theorem ordered_remaining (hkeys : (table.map rowKey).Nodup) (c : Int × String) :
    Keyset.Ordered rowKey (remaining b table q stop c) :=
  ((ordered_wanted hkeys).filter _).filter _

theorem queryRows_eq (hkeys : (table.map rowKey).Nodup) (frm upTo : Int) (after : String) :
    queryRows b table q frm upTo after =
      (remaining b table q upTo (frm, after)).take (q.pageSize + 1) := by
  have hwhere : table.filter (whereClause b q frm upTo after) =
      (table.filter q.wants).filter fun r =>
        r.normalizedTime < b.bind upTo && cursorKey b (frm, after) < rowKey r := by
    rw [List.filter_filter]
    apply List.filter_congr
    intro r _
    simp only [whereClause, cursorKey_lt_iff, Bool.decide_or, Bool.decide_and]
  rw [queryRows, hwhere, Keyset.sort_filter (hkeys.sublist (List.filter_sublist.map rowKey)),
    remaining, Keyset.after, List.filter_filter]
  rfl

/-- What is left is cut by an earlier end of the window. -/
theorem remaining_split (hkeys : (table.map rowKey).Nodup) {upTo : Int} (hle : upTo ≤ stop)
    (c : Int × String) : remaining b table q stop c = remaining b table q upTo c ++
      (remaining b table q stop c).filter fun r => b.bind upTo ≤ r.normalizedTime := by
  have hcut := Keyset.append_split (ordered_remaining b q stop hkeys c)
    (p := fun r => r.normalizedTime < b.bind upTo) (by
      intro r r' hlt hr'
      simp only [decide_eq_true_eq] at hr' ⊢
      rw [rowKey, rowKey, Prod.Lex.toLex_lt_toLex] at hlt
      rcases hlt with hlt | ⟨heq, -⟩
      · exact hlt.trans hr'
      · exact heq.trans_lt hr')
  have hfront : (remaining b table q stop c).filter (fun r => r.normalizedTime < b.bind upTo) =
      remaining b table q upTo c := by
    rw [remaining, remaining, List.filter_filter]
    apply List.filter_congr
    intro r _
    simp only [← Bool.decide_and, decide_eq_decide]
    exact and_iff_left_of_imp fun h => h.trans_le (b.mono _ _ hle)
  have hrest : (remaining b table q stop c).filter (fun r => b.bind upTo ≤ r.normalizedTime) =
      (remaining b table q stop c).filter fun r => !decide (r.normalizedTime < b.bind upTo) := by
    apply List.filter_congr
    intro r _
    rw [← decide_not, decide_eq_decide, not_lt]
  rw [hrest, ← hfront]
  exact hcut

/-- What is left after a day that ends inside the window. -/
theorem remaining_boundary {t : Int} (after : String) (hstart : b.bind frm < b.bind t) :
    remaining b table q stop (t, "") =
      (remaining b table q stop (frm, after)).filter fun r => b.bind t ≤ r.normalizedTime := by
  rw [remaining, remaining, List.filter_filter, Keyset.after, Keyset.after, List.filter_filter,
    List.filter_filter]
  apply List.filter_congr
  intro r _
  simp only [cursorKey_boundary_lt_iff, ← Bool.decide_and, decide_eq_decide, and_assoc]
  constructor
  · rintro ⟨hstop, ht⟩
    exact ⟨ht, hstop, cursorKey_lt_iff.mpr (Or.inl (hstart.trans_le ht))⟩
  · rintro ⟨ht, hstop, -⟩
    exact ⟨hstop, ht⟩

/-- What is left after a row of what is left. -/
theorem remaining_row (hkeys : (table.map rowKey).Nodup) {c : Int × String} {front rest : List Row}
    {r : Row} (h : remaining b table q stop c = front ++ r :: rest) :
    remaining b table q stop (r.normalizedTime, r.obsId) = rest := by
  have hr : r ∈ remaining b table q stop c := by
    rw [h]
    simp
  have hlater : cursorKey b c < rowKey r := by
    simp only [remaining, Keyset.after, List.mem_filter, decide_eq_true_eq] at hr
    exact hr.1.2
  have hordered := ordered_remaining b q stop hkeys c
  have hafter : Keyset.after rowKey (rowKey r) (remaining b table q stop c) =
      remaining b table q stop (r.normalizedTime, r.obsId) := by
    rw [remaining, remaining, cursorKey_row, Keyset.after, Keyset.after, Keyset.after,
      List.filter_filter, List.filter_filter, List.filter_filter]
    apply List.filter_congr
    intro r' _
    simp only [← Bool.decide_and, decide_eq_decide, and_assoc]
    constructor
    · rintro ⟨hr', hstop, -⟩
      exact ⟨hstop, hr'⟩
    · rintro ⟨hstop, hr'⟩
      exact ⟨hr', hstop, hlater.trans hr'⟩
  rw [← hafter, h]
  rw [h] at hordered
  exact Keyset.after_last hordered

/-! ### One call -/

variable (b table q) in
/-- What a call makes smaller: the rows that are left, and the time. -/
def work (stop : Int) (c : Int × String) : Nat :=
  (remaining b table q stop c).length + (b.bind stop - b.bind c.1).toNat

/-- A day later is later for the database too. -/
theorem bind_lt_addWindow (frm : Int) : b.bind frm < b.bind (frm + MAX_WINDOW) := by
  have hle := b.le frm
  have hlt := b.lt (frm + MAX_WINDOW)
  have hday : 1000 ≤ MAX_WINDOW := by decide
  omega

/-- A page that is cut by its size. -/
theorem work_row {c : Int × String} (hkeys : (table.map rowKey).Nodup) {front rest : List Row}
    {r : Row} (h : remaining b table q stop c = front ++ r :: rest) :
    work b table q stop (r.normalizedTime, r.obsId) < work b table q stop c := by
  have hr : r ∈ remaining b table q stop c := by
    rw [h]
    simp
  simp only [remaining, Keyset.after, List.mem_filter, decide_eq_true_eq, cursorKey_lt_iff] at hr
  obtain ⟨⟨-, hlater⟩, -⟩ := hr
  have htime : b.bind c.1 ≤ b.bind r.normalizedTime := by
    rw [b.whole _ r.whole]
    rcases hlater with hlt | ⟨heq, -⟩
    · exact hlt.le
    · exact heq.ge
  have hlength : (remaining b table q stop c).length = front.length + (rest.length + 1) := by
    rw [h]
    simp
  rw [work, work, remaining_row hkeys h, hlength]
  have htime' : b.bind (r.normalizedTime, r.obsId).1 = b.bind r.normalizedTime := rfl
  omega

/-- A page that is cut by the day. -/
theorem work_boundary (hday : frm + MAX_WINDOW < stop) :
    work b table q stop (frm + MAX_WINDOW, "") < work b table q stop (frm, after) := by
  have hlt := bind_lt_addWindow (b := b) frm
  have hle := b.mono _ _ hday.le
  have hlength : (remaining b table q stop (frm + MAX_WINDOW, "")).length ≤
      (remaining b table q stop (frm, after)).length := by
    rw [remaining_boundary after hlt]
    exact List.length_filter_le _ _
  rw [work, work]
  dsimp only
  omega

variable (b stop) in
/-- **One call** returns the front of what is left, and hands over a cursor
    after which the rest is left. -/
theorem fetch_spec (hkeys : (table.map rowKey).Nodup) (hsize : 1 ≤ q.pageSize)
    (hfit : frm ≤ DATETIME_MAX - MAX_WINDOW) (after : String) :
    ∃ page, fetchObservations b table q frm stop after = some page ∧
      page.observations ++ (page.next.map (remaining b table q stop)).getD [] =
        remaining b table q stop (frm, after) ∧
      ∀ c, page.next = some c →
        c.1 < stop ∧ work b table q stop c < work b table q stop (frm, after) := by
  have hadd : addWindow frm = some (frm + MAX_WINDOW) := by
    rw [addWindow, if_pos (by omega)]
  have hsplit := remaining_split (b := b) (q := q) hkeys (min_le_left stop (frm + MAX_WINDOW))
    (frm, after)
  rw [fetchObservations, hadd, Option.map_some]
  refine ⟨_, rfl, ?_⟩
  dsimp only
  rw [queryRows_eq hkeys]
  set capped := min stop (frm + MAX_WINDOW) with hcapped
  set rows := remaining b table q capped (frm, after) with hrows
  by_cases hfull : q.pageSize < (rows.take (q.pageSize + 1)).length
  · -- the page cap: the last row of the page is the cursor
    rw [if_pos hfull, List.take_take, min_eq_left (Nat.le_succ _)]
    rw [List.length_take] at hfull
    have hne : rows.take q.pageSize ≠ [] := by
      apply List.ne_nil_of_length_pos
      rw [List.length_take]
      omega
    obtain ⟨front, r, hfront⟩ := (List.eq_nil_or_concat' _).resolve_left hne
    have hleft : remaining b table q stop (frm, after) =
        front ++ r :: (rows.drop q.pageSize ++ (remaining b table q stop (frm, after)).filter
          fun r => b.bind capped ≤ r.normalizedTime) := by
      have hcut : rows = front ++ [r] ++ rows.drop q.pageSize := by
        rw [← hfront, List.take_append_drop]
      conv_lhs => rw [hsplit, hcut]
      simp
    have hlast : (rows.take q.pageSize).getLast? = some r := by
      rw [hfront, List.getLast?_concat]
    rw [hlast]
    refine ⟨?_, ?_⟩
    · show rows.take q.pageSize ++ remaining b table q stop (r.normalizedTime, r.obsId) = _
      rw [remaining_row hkeys hleft, hfront]
      conv_rhs => rw [hleft]
      simp
    · intro c hc
      obtain rfl := Option.some.inj hc
      refine ⟨?_, work_row hkeys hleft⟩
      have hr : r ∈ rows := List.mem_of_mem_take (hfront ▸ by simp : r ∈ rows.take q.pageSize)
      simp only [hrows, remaining, List.mem_filter, decide_eq_true_eq] at hr
      exact (hr.2.trans_le (b.le capped)).trans_le (min_le_left _ _)
  · rw [if_neg hfull]
    have hall : rows.take (q.pageSize + 1) = rows := by
      apply List.take_of_length_le
      rw [List.length_take] at hfull
      omega
    rw [hall]
    by_cases hday : capped < stop
    · -- the window cap: the end of the day is the cursor
      have honeDay : capped = frm + MAX_WINDOW := by
        rw [hcapped] at hday ⊢
        exact min_eq_right (le_of_not_ge fun h => by
          rw [min_eq_left h] at hday
          exact lt_irrefl _ hday)
      rw [if_pos hday]
      refine ⟨?_, ?_⟩
      · show rows ++ remaining b table q stop (capped, "") = _
        rw [remaining_boundary after (honeDay ▸ bind_lt_addWindow frm)]
        exact hsplit.symm
      · intro c hc
        obtain rfl := Option.some.inj hc
        refine ⟨hday, ?_⟩
        rw [honeDay]
        exact work_boundary (honeDay ▸ hday)
    · have hend : capped = stop := le_antisymm (min_le_left _ _) (not_lt.mp hday)
      rw [if_neg hday]
      refine ⟨?_, ?_⟩
      · show rows ++ [] = _
        rw [List.append_nil, hrows, hend]
      · intro c hc
        cases hc

/-! ### Runs of calls -/

/-- The call is within the range of a `datetime`. -/
def Fits (c : Int × String) : Prop := c.1 ≤ DATETIME_MAX - MAX_WINDOW

instance : DecidablePred Fits := fun _ => inferInstanceAs (Decidable (_ ≤ _))

theorem fetch_eq_none {c : Int × String} (h : ¬Fits c) :
    fetchObservations b table q c.1 stop c.2 = none := by
  unfold Fits at h
  rw [fetchObservations, addWindow, if_neg (by omega)]
  rfl

/-- The pages so far, and what is left after the cursor, are the whole. -/
def Caller.Accounts (b : Binding) (table : List Row) (q : Query) (frm stop : Int) (c : Caller) :
    Prop :=
  c.pages.flatMap (·.observations) ++ (c.cursor.map (remaining b table q stop)).getD [] =
    remaining b table q stop (frm, "")

theorem accounts_call (hkeys : (table.map rowKey).Nodup) (hsize : 1 ≤ q.pageSize) {c : Caller}
    (h : c.Accounts b table q frm stop) (hfits : ∀ k, c.cursor = some k → Fits k) :
    (c.call b table q stop).Accounts b table q frm stop ∧
      (c.call b table q stop).raised = c.raised ∧
      ∀ k k', c.cursor = some k → (c.call b table q stop).cursor = some k' →
        work b table q stop k' < work b table q stop k := by
  unfold Caller.call
  cases hcursor : c.cursor with
  | none => exact ⟨h, rfl, fun k _ hk => nomatch hk⟩
  | some k =>
    obtain ⟨page, hpage, hleft, hnext⟩ := fetch_spec b stop hkeys hsize
      (hfits k hcursor) k.2
    simp only [hpage]
    refine ⟨?_, trivial, ?_⟩
    · rw [Caller.Accounts, hcursor] at h
      rw [Caller.Accounts, ← h, List.flatMap_append, List.append_assoc, Option.map_some,
        Option.getD_some, ← hleft]
      simp
    · intro k₁ k' hk₁ hk'
      rw [← Option.some.inj hk₁]
      exact (hnext k' hk').2

/-- While every call is within the range, nothing raises and every page is
    accounted for. -/
theorem accounts_callerAfter (hkeys : (table.map rowKey).Nodup) (hsize : 1 ≤ q.pageSize)
    (hfits : ∀ n k, (callerAfter b table q frm stop n).cursor = some k → Fits k) (n : Nat) :
    (callerAfter b table q frm stop n).Accounts b table q frm stop ∧
      (callerAfter b table q frm stop n).raised = false := by
  induction n with
  | zero => exact ⟨rfl, rfl⟩
  | succ n ih =>
    obtain ⟨haccounts, hraised, -⟩ := accounts_call hkeys hsize ih.1 (hfits n)
    exact ⟨haccounts, hraised.trans ih.2⟩

/-- The calls come to an end. -/
theorem exists_end (hkeys : (table.map rowKey).Nodup) (hsize : 1 ≤ q.pageSize)
    (hfits : ∀ n k, (callerAfter b table q frm stop n).cursor = some k → Fits k) :
    ∃ n, (callerAfter b table q frm stop n).cursor = none := by
  have hdown : ∀ w n k, (callerAfter b table q frm stop n).cursor = some k →
      work b table q stop k ≤ w → ∃ m, (callerAfter b table q frm stop m).cursor = none := by
    intro w
    induction w with
    | zero =>
      intro n k hk hw
      obtain ⟨-, -, hless⟩ := accounts_call hkeys hsize
        (accounts_callerAfter hkeys hsize hfits n).1 (hfits n)
      refine ⟨n + 1, ?_⟩
      cases hnext : (callerAfter b table q frm stop (n + 1)).cursor with
      | none => rfl
      | some k' =>
        have := hless k k' hk hnext
        omega
    | succ w ih =>
      intro n k hk hw
      obtain ⟨-, -, hless⟩ := accounts_call hkeys hsize
        (accounts_callerAfter hkeys hsize hfits n).1 (hfits n)
      cases hnext : (callerAfter b table q frm stop (n + 1)).cursor with
      | none => exact ⟨n + 1, hnext⟩
      | some k' =>
        have := hless k k' hk hnext
        exact ih (n + 1) k' hnext (by omega)
  exact hdown _ 0 _ rfl le_rfl

/-- In a window that ends a day before `datetime.max` every call is within
    the range. -/
theorem fits_of_stop (hkeys : (table.map rowKey).Nodup) (hsize : 1 ≤ q.pageSize) (hwin : frm < stop)
    (hstop : stop ≤ DATETIME_MAX - MAX_WINDOW) (n : Nat) :
    ∀ k, (callerAfter b table q frm stop n).cursor = some k → Fits k := by
  have hbefore : ∀ n k, (callerAfter b table q frm stop n).cursor = some k → k.1 < stop := by
    intro n
    induction n with
    | zero =>
      intro k hk
      rw [← Option.some.inj hk]
      exact hwin
    | succ n ih =>
      intro k hk
      rw [callerAfter, Caller.call] at hk
      cases hcursor : (callerAfter b table q frm stop n).cursor with
      | none =>
        rw [hcursor] at hk
        cases hcursor.symm.trans hk
      | some c =>
        obtain ⟨page, hpage, -, hnext⟩ := fetch_spec b stop hkeys hsize
          ((ih c hcursor).le.trans hstop) c.2
        rw [hcursor] at hk
        simp only [hpage] at hk
        exact (hnext k hk).1
  exact fun k hk => (hbefore n k hk).le.trans hstop

/-- A caller that has ended stays as it is. -/
theorem callerAfter_of_ended {n m : Nat} (h : (callerAfter b table q frm stop n).cursor = none)
    (hle : n ≤ m) : callerAfter b table q frm stop m = callerAfter b table q frm stop n := by
  induction m, hle using Nat.le_induction with
  | base => rfl
  | succ m _ ih =>
    rw [callerAfter, ih, Caller.call, h]

/-- What is left at the start are the rows between the bounds of the
    database. -/
theorem remaining_start (hkeys : (table.map rowKey).Nodup) :
    remaining b table q stop (frm, "") = Keyset.sort rowKey (table.filter fun r =>
      q.wants r && b.bind frm ≤ r.normalizedTime && r.normalizedTime < b.bind stop) := by
  have hwhere : (table.filter fun r =>
      q.wants r && b.bind frm ≤ r.normalizedTime && r.normalizedTime < b.bind stop) =
      (table.filter q.wants).filter fun r =>
        b.bind frm ≤ r.normalizedTime && r.normalizedTime < b.bind stop := by
    rw [List.filter_filter]
    apply List.filter_congr
    intro r _
    rw [Bool.and_assoc, Bool.and_comm]
  rw [hwhere, Keyset.sort_filter (hkeys.sublist (List.filter_sublist.map rowKey)), remaining,
    Keyset.after, List.filter_filter]
  apply List.filter_congr
  intro r _
  rw [Bool.and_comm]
  simp only [cursorKey_boundary_lt_iff]

/-- The bounds of the database select the rows of the window. -/
def SameBounds (b : Binding) (table : List Row) (q : Query) (frm stop : Int) : Prop :=
  ∀ r ∈ table, q.wants r = true → (b.bind frm ≤ r.normalizedTime ∧ r.normalizedTime < b.bind stop ↔
    frm ≤ r.normalizedTime ∧ r.normalizedTime < stop)

/-- Bounds in whole milliseconds are the bounds of the database. -/
theorem sameBounds_of_whole (hfrm : 1000 ∣ frm) (hstop : 1000 ∣ stop) :
    SameBounds b table q frm stop := by
  intro r _ _
  rw [b.whole frm hfrm, b.whole stop hstop]

theorem remaining_start_iff (hkeys : (table.map rowKey).Nodup) :
    remaining b table q stop (frm, "") = windowRows table q frm stop ↔
      SameBounds b table q frm stop := by
  rw [remaining_start hkeys, windowRows]
  constructor
  · intro h r hr hwants
    have hmem := congrArg (r ∈ ·) h
    simp only [(Keyset.perm_sort rowKey _).mem_iff, List.mem_filter, Bool.and_eq_true,
      decide_eq_true_eq, hr, hwants, true_and] at hmem
    exact iff_of_eq hmem
  · intro h
    congr 1
    apply List.filter_congr
    intro r hr
    by_cases hwants : q.wants r = true
    · simp only [hwants, Bool.true_and, ← Bool.decide_and, decide_eq_decide]
      exact h r hr hwants
    · simp [hwants]

/-- **The pages are the rows of the window**, each once and in order, exactly
    when no call starts in the last day of a `datetime` and the bounds of the
    database select the same rows. -/
theorem paging_complete_iff (b : Binding) (table : List Row) (q : Query) (frm stop : Int)
    (hkeys : (table.map rowKey).Nodup) (hsize : 1 ≤ q.pageSize) :
    (∃ n, (callerAfter b table q frm stop n).Complete table q frm stop) ↔
      (∀ n k, (callerAfter b table q frm stop n).cursor = some k → Fits k) ∧
        SameBounds b table q frm stop := by
  constructor
  · rintro ⟨n, hend, hraised, hpages⟩
    have hfits : ∀ m k, (callerAfter b table q frm stop m).cursor = some k → Fits k := by
      intro m k hk
      by_contra hnot
      have hraise : callerAfter b table q frm stop (m + 1) =
          { callerAfter b table q frm stop m with cursor := none, raised := true } := by
        rw [callerAfter, Caller.call, hk]
        simp only [fetch_eq_none hnot]
      rcases Nat.lt_or_ge m n with hlt | hge
      · -- the call raised before the end
        rw [callerAfter_of_ended (by rw [hraise]) hlt, hraise] at hraised
        cases hraised
      · rw [callerAfter_of_ended hend hge, hend] at hk
        cases hk
    refine ⟨hfits, ?_⟩
    have haccounts := (accounts_callerAfter hkeys hsize hfits n).1
    rw [Caller.Accounts, hend, hpages] at haccounts
    rw [← remaining_start_iff hkeys, ← haccounts]
    exact List.append_nil _
  · rintro ⟨hfits, hbounds⟩
    obtain ⟨n, hend⟩ := exists_end hkeys hsize hfits
    obtain ⟨haccounts, hraised⟩ := accounts_callerAfter hkeys hsize hfits n
    refine ⟨n, hend, hraised, ?_⟩
    rw [Caller.Accounts, hend, (remaining_start_iff hkeys).mpr hbounds] at haccounts
    rw [← haccounts]
    exact (List.append_nil _).symm

/-- A database that cuts a bound time to milliseconds. -/
def cutting : Binding where
  bind t := t - t % 1000
  le t := by omega
  lt t := by omega
  mono t u h := by omega
  whole t h := by omega

def observation (obsId : String) (time : Int) (h : obsId ≠ "") : Row where
  tenantId := "a"
  obsId := obsId
  normalizedTime := 1000 * time
  entityValues := []
  type := "conn"
  hashes := []
  capabilities := []
  whole := Int.dvd_mul_right 1000 time
  named := h

/-- Two rows of one millisecond, read one by one. -/
theorem tied_rows_complete : ∃ n,
    (callerAfter cutting [observation "y" 7 (by decide), observation "x" 7 (by decide)]
      ⟨["a"], none, none, none, 1⟩ 0 (3 * MAX_WINDOW) n).Complete
      [observation "y" 7 (by decide), observation "x" 7 (by decide)] ⟨["a"], none, none, none, 1⟩ 0
      (3 * MAX_WINDOW) := by
  have hkeys : ([observation "y" 7 (by decide), observation "x" 7 (by decide)].map rowKey).Nodup := by
    decide
  refine (paging_complete_iff cutting _ _ _ _ hkeys le_rfl).mpr ⟨?_, ?_⟩
  · exact fits_of_stop hkeys le_rfl (by decide) (by decide)
  · exact sameBounds_of_whole (by decide) (by decide)

/-- The last millisecond before `datetime.max`: the first call raises. -/
theorem last_day_raises : ¬∀ (b : Binding) (table : List Row) (q : Query) (frm stop : Int),
    (table.map rowKey).Nodup → 1 ≤ q.pageSize → frm < stop → stop ≤ DATETIME_MAX →
      1000 ∣ frm → 1000 ∣ stop →
        ∃ n, (callerAfter b table q frm stop n).Complete table q frm stop := by
  intro h
  obtain ⟨n, hend, hraised, -⟩ := h cutting [] ⟨["a"], none, none, none, 1⟩ 253402300798000000
    253402300799000000 List.nodup_nil le_rfl (by decide) (by decide) (by decide) (by decide)
  have hone : (callerAfter cutting [] ⟨["a"], none, none, none, 1⟩ 253402300798000000
      253402300799000000 1).raised = true := rfl
  cases n with
  | zero => cases hend
  | succ n =>
    rw [callerAfter_of_ended rfl (Nat.le_add_left 1 n), hone] at hraised
    cases hraised

end EvidenceService
