import Mathlib.Data.Finset.Basic
import CernityNdr.Framework.Run

/-! # Threads and One Lock

    Threads that answer one request each. What a thread does before it takes
    the lock depends on its request alone (`start`): it answers at once, or
    it waits for the lock. Inside it makes one step after another (`body`) on
    a shared store, until it answers and gives the lock back. The steps of
    different threads interleave in any order; a thread that waits while the
    lock is taken makes no progress.

    * `inv_run`: what every step inside keeps, as if no other thread ran,
      holds of every interleaving (`Rules`).
    * `changes`: what the steps of one thread changed in the store. -/

namespace Mutex

/-- `θ` are the threads, `ρ` the requests, `κ` the tasks behind the lock,
    `α` the answers. -/
inductive Phase (ρ κ α : Type)
  | idle
  | waiting (r : ρ) (k : κ)
  | inside (r : ρ) (k : κ)
  | done (r : ρ) (a : α)

structure System (θ τ ρ κ α : Type) where
  store : τ
  holder : Option θ
  phase : θ → Phase ρ κ α

inductive Input (θ ρ ε : Type)
  /-- a thread starts with a request -/
  | arrive (t : θ) (r : ρ)
  /-- a thread goes on; `e` is what the environment does in the step -/
  | advance (t : θ) (e : ε)

variable {θ τ ρ κ α ε : Type} [DecidableEq θ]

def Input.thread : Input θ ρ ε → θ
  | arrive t _ => t
  | advance t _ => t

namespace System

/-- No thread has started. -/
def initial (store : τ) : System θ τ ρ κ α := ⟨store, none, fun _ => .idle⟩

def setPhase (s : System θ τ ρ κ α) (t : θ) (p : Phase ρ κ α) : System θ τ ρ κ α :=
  { s with phase := Function.update s.phase t p }

end System

/-- Where a request starts. -/
def begun (r : ρ) : κ ⊕ α → Phase ρ κ α
  | .inl k => .waiting r k
  | .inr a => .done r a

/-- What a step inside leaves. -/
def left (s : System θ τ ρ κ α) (t : θ) (r : ρ) : τ × (κ ⊕ α) → System θ τ ρ κ α
  | (store, .inl k) => { s with store := store }.setPhase t (.inside r k)
  | (store, .inr a) => { s with store := store, holder := none }.setPhase t (.done r a)

variable (start : ρ → κ ⊕ α) (body : κ → ε → τ → τ × (κ ⊕ α))

def step (s : System θ τ ρ κ α) (i : Input θ ρ ε) : System θ τ ρ κ α :=
  match i with
  | .arrive t r =>
    match s.phase t with
    | .idle => s.setPhase t (begun r (start r))
    | _ => s
  | .advance t e =>
    match s.phase t with
    | .waiting r k =>
      match s.holder with
      | none => { s with holder := some t }.setPhase t (.inside r k)
      | some _ => s
    | .inside r k => left s t r (body k e s.store)
    | _ => s

/-! ### What a thread changed -/

/-- A change, when there is one. -/
def change [DecidableEq τ] (before after : τ) : List (τ × τ) :=
  if after = before then [] else [(before, after)]

/-- The store before and after every step of the thread `t` that changed it. -/
def changes [DecidableEq τ] (t : θ) (s : System θ τ ρ κ α) : List (Input θ ρ ε) → List (τ × τ)
  | [] => []
  | i :: is =>
    (if i.thread = t then change s.store (step start body s i).store else []) ++
      changes t (step start body s i) is

variable {start body} [DecidableEq τ]

@[simp] theorem change_self (x : τ) : change x x = [] := if_pos rfl

theorem change_of_ne {x y : τ} (h : y ≠ x) : change x y = [(x, y)] := if_neg h

theorem changes_snoc (t : θ) (s : System θ τ ρ κ α) (is : List (Input θ ρ ε)) (i : Input θ ρ ε) :
    changes start body t s (is ++ [i]) = changes start body t s is ++
      if i.thread = t then change (Machine.run (step start body) s is).store
        (step start body (Machine.run (step start body) s is) i).store else [] := by
  induction is generalizing s with
  | nil => simp [changes]
  | cons j is ih =>
    rw [List.cons_append, changes, changes, ih, List.append_assoc, Machine.run_cons]

/-! ### The rule -/

/-- What a proof about the threads has to show of each of their steps: `P`
    is the invariant of the store, `Q r k x l` what holds of a thread inside
    when the store is `x` and the thread has made the changes `l`, and
    `R r a l` what holds of one that answered. -/
structure Rules (start : ρ → κ ⊕ α) (body : κ → ε → τ → τ × (κ ⊕ α)) (P : τ → Prop)
    (Q : ρ → κ → τ → List (τ × τ) → Prop) (R : ρ → α → List (τ × τ) → Prop) : Prop where
  refuse : ∀ r a, start r = .inr a → R r a []
  enter : ∀ r k x, start r = .inl k → P x → Q r k x []
  proceed : ∀ r k e x l y k', P x → Q r k x l → body k e x = (y, .inl k') →
    P y ∧ Q r k' y (l ++ change x y)
  leave : ∀ r k e x l y a, P x → Q r k x l → body k e x = (y, .inr a) →
    P y ∧ R r a (l ++ change x y)

variable {P : τ → Prop} {Q : ρ → κ → τ → List (τ × τ) → Prop}
  {R : ρ → α → List (τ × τ) → Prop}

/-- What holds of a thread in a phase. -/
def Accounts (start : ρ → κ ⊕ α) (Q : ρ → κ → τ → List (τ × τ) → Prop)
    (R : ρ → α → List (τ × τ) → Prop) (store : τ) (l : List (τ × τ)) : Phase ρ κ α → Prop
  | .idle => l = []
  | .waiting r k => start r = .inl k ∧ l = []
  | .inside r k => Q r k store l
  | .done r a => R r a l

/-- The store, the lock and every thread, with the changes `l t` that the
    thread `t` made. -/
structure Inv (start : ρ → κ ⊕ α) (P : τ → Prop) (Q : ρ → κ → τ → List (τ × τ) → Prop)
    (R : ρ → α → List (τ × τ) → Prop) (s : System θ τ ρ κ α) (l : θ → List (τ × τ)) : Prop where
  store : P s.store
  holder : ∀ t r k, s.phase t = .inside r k → s.holder = some t
  threads : ∀ t, Accounts start Q R s.store (l t) (s.phase t)

omit [DecidableEq τ] in
/-- Outside the lock a thread does not look at the store. -/
theorem Accounts.of_outside {x y : τ} {l : List (τ × τ)} {p : Phase ρ κ α}
    (h : Accounts start Q R x l p) (hp : ∀ r k, p ≠ .inside r k) : Accounts start Q R y l p := by
  cases p with
  | inside r k => exact absurd rfl (hp r k)
  | idle => exact h
  | waiting r k => exact h
  | done r a => exact h

omit [DecidableEq θ] [DecidableEq τ] in
theorem Inv.initial {x : τ} (h : P x) :
    Inv start P Q R (.initial x : System θ τ ρ κ α) fun _ => [] := by
  constructor
  · exact h
  · intro t r k hp
    cases hp
  · intro t
    rfl

omit [DecidableEq τ] in
/-- A thread leaves the store alone and is not inside afterwards, or took
    the free lock. -/
theorem Inv.outside {s : System θ τ ρ κ α} {l : θ → List (τ × τ)} (h : Inv start P Q R s l)
    {t : θ} {p : Phase ρ κ α} {holder : Option θ} (hp : Accounts start Q R s.store (l t) p)
    (hin : ∀ r k, p = .inside r k → holder = some t)
    (hout : ∀ t' r k, t' ≠ t → s.phase t' = .inside r k → holder = some t') :
    Inv start P Q R ({ s with holder := holder }.setPhase t p) l := by
  constructor
  · exact h.store
  · intro t' r k hphase
    by_cases heq : t' = t
    · subst heq
      exact hin r k (by simpa [System.setPhase] using hphase)
    · exact hout t' r k heq (by simpa [System.setPhase, Function.update_of_ne heq] using hphase)
  · intro t'
    by_cases heq : t' = t
    · subst heq
      simpa [System.setPhase] using hp
    · simpa [System.setPhase, Function.update_of_ne heq] using h.threads t'

/-- A step inside. The other threads are outside, so what holds of them
    holds with the new store. -/
theorem Inv.inside {s : System θ τ ρ κ α} {l : θ → List (τ × τ)} (h : Inv start P Q R s l)
    {t : θ} {r : ρ} {k : κ} (ht : s.phase t = .inside r k) {y : τ} (hy : P y)
    {p : Phase ρ κ α} {holder : Option θ}
    (hp : Accounts start Q R y (l t ++ change s.store y) p)
    (hin : ∀ r k, p = .inside r k → holder = some t) :
    Inv start P Q R ({ s with store := y, holder := holder }.setPhase t p)
      (Function.update l t (l t ++ change s.store y)) := by
  have hothers : ∀ t' r k, t' ≠ t → s.phase t' ≠ .inside r k := by
    intro t' r' k' hne hphase
    have hsame := (h.holder t' r' k' hphase).symm.trans (h.holder t r k ht)
    exact hne (Option.some.inj hsame)
  constructor
  · exact hy
  · intro t' r' k' hphase
    by_cases heq : t' = t
    · subst heq
      exact hin r' k' (by simpa [System.setPhase] using hphase)
    · have hold : s.phase t' = .inside r' k' := by
        simpa [System.setPhase, Function.update_of_ne heq] using hphase
      exact absurd hold (hothers t' r' k' heq)
  · intro t'
    by_cases heq : t' = t
    · subst heq
      simpa [System.setPhase] using hp
    · simpa [System.setPhase, Function.update_of_ne heq] using
        (h.threads t').of_outside (y := y) fun r k => hothers t' r k heq

/-- One step of one thread. -/
theorem Inv.step (rules : Rules start body P Q R) {s : System θ τ ρ κ α} {l : θ → List (τ × τ)}
    (h : Inv start P Q R s l) (i : Input θ ρ ε) :
    Inv start P Q R (Mutex.step start body s i) (Function.update l i.thread
      (l i.thread ++ change s.store (Mutex.step start body s i).store)) := by
  -- a step that does nothing
  have hsame : ∀ {t : θ}, Inv start P Q R s (Function.update l t (l t ++ change s.store s.store)) := by
    intro t
    rw [change_self, List.append_nil, Function.update_eq_self]
    exact h
  -- a step that leaves the store alone
  have houter : ∀ {t : θ} {p : Phase ρ κ α} {holder : Option θ},
      Inv start P Q R ({ s with holder := holder }.setPhase t p) l →
      Inv start P Q R ({ s with holder := holder }.setPhase t p) (Function.update l t
        (l t ++ change s.store ({ s with holder := holder }.setPhase t p).store)) := by
    intro t p holder hinv
    have hstore : ({ s with holder := holder }.setPhase t p).store = s.store := rfl
    rw [hstore, change_self, List.append_nil, Function.update_eq_self]
    exact hinv
  cases i with
  | arrive t r =>
    simp only [Mutex.step, Input.thread]
    have hacc := h.threads t
    cases hphase : s.phase t with
    | idle =>
      rw [hphase] at hacc
      refine houter (h.outside ?_ ?_ fun t' r' k' _ hp => h.holder t' r' k' hp)
      · cases hstart : start r with
        | inl k => exact ⟨hstart, hacc⟩
        | inr a => exact (show l t = [] from hacc) ▸ rules.refuse r a hstart
      · intro r' k' hbegun
        cases hstart : start r with
        | inl k => rw [hstart] at hbegun; cases hbegun
        | inr a => rw [hstart] at hbegun; cases hbegun
    | waiting r' k => exact hsame
    | inside r' k => exact hsame
    | done r' a => exact hsame
  | advance t e =>
    simp only [Mutex.step, Input.thread]
    have hacc := h.threads t
    cases hphase : s.phase t with
    | idle => exact hsame
    | done r a => exact hsame
    | waiting r k =>
      rw [hphase] at hacc
      cases hholder : s.holder with
      | some t' => exact hsame
      | none =>
        refine houter (h.outside ?_ (fun _ _ _ => rfl) fun t' r' k' _ hp => ?_)
        · exact (show l t = [] from hacc.2) ▸ rules.enter r k _ hacc.1 h.store
        · have hheld := h.holder t' r' k' hp
          rw [hholder] at hheld
          cases hheld
    | inside r k =>
      rw [hphase] at hacc
      cases hbody : body k e s.store with
      | mk y out =>
        cases out with
        | inl k' =>
          obtain ⟨hy, hq⟩ := rules.proceed r k e _ _ y k' h.store hacc hbody
          have hacc' : Accounts start Q R y (l t ++ change s.store y) (.inside r k') := hq
          simp only [hbody, left]
          exact h.inside hphase hy hacc' fun _ _ _ => h.holder t r k hphase
        | inr a =>
          obtain ⟨hy, hr⟩ := rules.leave r k e _ _ y a h.store hacc hbody
          have hacc' : Accounts start Q R y (l t ++ change s.store y) (.done r a) := hr
          simp only [hbody, left]
          refine h.inside hphase hy hacc' fun _ _ hp => ?_
          cases hp

/-- **Every interleaving** keeps what the rules ask of the single steps. -/
theorem inv_run (rules : Rules start body P Q R) {x : τ} (h : P x) (is : List (Input θ ρ ε)) :
    Inv start P Q R (Machine.run (step start body) (.initial x) is)
      fun t => changes start body t (.initial x) is := by
  induction is using List.reverseRecOn with
  | nil => exact .initial h
  | append_singleton is i ih =>
    have hchanges : (fun t => changes start body t (.initial x) (is ++ [i])) =
        Function.update (fun t => changes start body t (.initial x) is) i.thread
          (changes start body i.thread (.initial x) is ++
            change (Machine.run (step start body) (.initial x) is).store
              (step start body (Machine.run (step start body) (.initial x) is) i).store) := by
      funext t
      rw [changes_snoc]
      by_cases heq : i.thread = t
      · subst heq
        simp
      · rw [Function.update_of_ne (Ne.symm heq), if_neg heq, List.append_nil]
    rw [Machine.run_snoc, hchanges]
    exact ih.step rules i

/-! ### The requests that arrive -/

omit [DecidableEq τ] in
/-- Only the requests with which a thread starts matter. -/
theorem run_congr {start start' : ρ → κ ⊕ α} {is : List (Input θ ρ ε)}
    (h : ∀ t r, .arrive t r ∈ is → start r = start' r) (s : System θ τ ρ κ α) :
    Machine.run (step start body) s is = Machine.run (step start' body) s is := by
  induction is generalizing s with
  | nil => rfl
  | cons i is ih =>
    have hstep : step start body s i = step start' body s i := by
      cases i with
      | arrive t r => simp only [step, h t r List.mem_cons_self]
      | advance t e => rfl
    rw [Machine.run_cons, Machine.run_cons, hstep]
    exact ih (fun t r hmem => h t r (List.mem_cons_of_mem i hmem)) _

omit [DecidableEq τ] in
/-- What the store satisfies in every interleaving of threads that start with
    requests in `A`; `Q k x` holds of a thread inside when the store is `x`. -/
theorem store_run [Nonempty α] {A : ρ → Prop} {Q : κ → τ → Prop}
    (enter : ∀ r k x, A r → start r = .inl k → P x → Q k x)
    (proceed : ∀ k e x y k', P x → Q k x → body k e x = (y, .inl k') → P y ∧ Q k' y)
    (leave : ∀ k e x y a, P x → Q k x → body k e x = (y, .inr a) → P y)
    {x : τ} (h : P x) {is : List (Input θ ρ ε)} (his : ∀ t r, .arrive t r ∈ is → A r) :
    P (Machine.run (step start body) (.initial x) is).store := by
  classical
  -- no thread starts with another request, so those may as well be refused
  let start' : ρ → κ ⊕ α := fun r => if A r then start r else .inr (Classical.arbitrary α)
  have hstart : ∀ t r, Input.arrive t r ∈ is → start r = start' r :=
    fun t r hmem => (if_pos (his t r hmem)).symm
  have rules : Rules start' body P (fun _ k x _ => Q k x) fun _ _ _ => True := by
    constructor
    · exact fun _ _ _ => trivial
    · intro r k x hr hx
      by_cases hA : A r
      · exact enter r k x hA ((if_pos hA).symm.trans hr) hx
      · have hrefused : start' r = .inr (Classical.arbitrary α) := if_neg hA
        rw [hrefused] at hr
        cases hr
    · exact fun r k e x l y k' hx hq hbody => proceed k e x y k' hx hq hbody
    · exact fun r k e x l y a hx hq hbody => ⟨leave k e x y a hx hq hbody, trivial⟩
  rw [run_congr hstart]
  exact (inv_run rules h is).store

end Mutex

/-! ## Exclusive Claims

    Parties that claim keys in a shared set: `held d` is the key that party
    `d` holds, and `claimed` is the set. `Exclusive` says that the set is the
    set of the held keys and that no two parties hold one key. Taking a free
    key, dropping the own one and moving on with it keep this. -/

variable {ι κ : Type*}

/-- A key is claimed when a party holds it, and then one party does. -/
structure Exclusive (claimed : Finset κ) (held : ι → Option κ) : Prop where
  held_iff : ∀ k, k ∈ claimed ↔ ∃ d, held d = some k
  unique : ∀ d d' k, held d = some k → held d' = some k → d = d'

namespace Exclusive

variable [DecidableEq ι] [DecidableEq κ] {claimed : Finset κ} {held : ι → Option κ} {d : ι}
  {k : κ}

omit [DecidableEq ι] [DecidableEq κ] in
theorem initial : Exclusive (∅ : Finset κ) (fun _ : ι => none) := by
  constructor
  · simp
  · intro d d' k h
    cases h

/-- A party takes a free key. -/
theorem take (h : Exclusive claimed held) (hfree : k ∉ claimed) (hd : held d = none) :
    Exclusive (insert k claimed) (Function.update held d (some k)) := by
  have hnone : ∀ d', held d' ≠ some k := fun d' hd' => hfree ((h.held_iff k).mpr ⟨d', hd'⟩)
  constructor
  · intro k'
    rw [Finset.mem_insert, h.held_iff k']
    constructor
    · rintro (rfl | ⟨d', hd'⟩)
      · exact ⟨d, Function.update_self ..⟩
      · have hne : d' ≠ d := by
          intro heq
          rw [heq, hd] at hd'
          cases hd'
        exact ⟨d', by rw [Function.update_of_ne hne, hd']⟩
    · rintro ⟨d', hd'⟩
      by_cases heq : d' = d
      · subst heq
        rw [Function.update_self] at hd'
        exact Or.inl (Option.some.inj hd').symm
      · rw [Function.update_of_ne heq] at hd'
        exact Or.inr ⟨d', hd'⟩
  · intro d₁ d₂ k' h₁ h₂
    by_cases heq₁ : d₁ = d
    · by_cases heq₂ : d₂ = d
      · rw [heq₁, heq₂]
      · rw [heq₁, Function.update_self] at h₁
        rw [Function.update_of_ne heq₂, ← h₁] at h₂
        exact absurd h₂ (hnone d₂)
    · rw [Function.update_of_ne heq₁] at h₁
      by_cases heq₂ : d₂ = d
      · rw [heq₂, Function.update_self] at h₂
        rw [← h₂] at h₁
        exact absurd h₁ (hnone d₁)
      · rw [Function.update_of_ne heq₂] at h₂
        exact h.unique d₁ d₂ k' h₁ h₂

/-- A party drops the key that it holds. -/
theorem drop (h : Exclusive claimed held) (hd : held d = some k) :
    Exclusive (claimed.erase k) (Function.update held d none) := by
  have hother : ∀ d' k', Function.update held d none d' = some k' → d' ≠ d ∧ held d' = some k' := by
    intro d' k' hd'
    by_cases heq : d' = d
    · rw [heq, Function.update_self] at hd'
      cases hd'
    · rw [Function.update_of_ne heq] at hd'
      exact ⟨heq, hd'⟩
  constructor
  · intro k'
    rw [Finset.mem_erase, h.held_iff k']
    constructor
    · rintro ⟨hne, d', hd'⟩
      have heq : d' ≠ d := by
        intro heq
        rw [heq, hd] at hd'
        exact hne (Option.some.inj hd').symm
      exact ⟨d', by rw [Function.update_of_ne heq, hd']⟩
    · rintro ⟨d', hd'⟩
      obtain ⟨heq, hheld⟩ := hother d' k' hd'
      refine ⟨fun hk => heq ?_, d', hheld⟩
      rw [hk] at hheld
      exact h.unique d' d k hheld hd
  · intro d₁ d₂ k' h₁ h₂
    exact h.unique d₁ d₂ k' (hother d₁ k' h₁).2 (hother d₂ k' h₂).2

end Exclusive

/-! ## Sections under a Write Lock

    Several connections to one database. A section takes the write lock
    before it reads, so that no other section is open while it runs. It ends
    with a commit, with a rollback, or with its transaction open. A
    transaction that is left open keeps the lock: every later section raises
    at its start, and nothing of the transaction is ever committed.

    * `atomically_cases`: what a section can do. -/

/-- `κ` are the connections, `τ` is what is stored. -/
structure Database (κ τ : Type) where
  /-- what is committed -/
  tables : τ
  /-- the connection that left its transaction open -/
  holder : Option κ

/-- How the body of a section ends. -/
inductive Ending (ε α τ : Type)
  /-- with a commit, after which the call returns or raises -/
  | committed (res : Except ε α) (t : τ)
  | rolledBack (e : ε)
  | leftOpen (e : ε)

namespace Database

variable {κ τ ε α : Type}

/-- A database that no connection writes to. -/
def fresh (t : τ) : Database κ τ := ⟨t, none⟩

/-- Run a section on the connection `c`. `fails` says that the lock is not
    given although no transaction is open. -/
def atomically (db : Database κ τ) (c : κ) (busy : ε) (fails : Bool) (body : τ → Ending ε α τ) :
    Except ε α × Database κ τ :=
  if db.holder.isSome || fails then (.error busy, db)
  else
    match body db.tables with
    | .committed res t => (res, { db with tables := t })
    | .rolledBack e => (.error e, db)
    | .leftOpen e => (.error e, { db with holder := some c })

/-- A connection closes, which drops the transaction that it left open. -/
def close [DecidableEq κ] (db : Database κ τ) (c : κ) : Database κ τ :=
  if db.holder = some c then { db with holder := none } else db

/-- What a section can do. -/
inductive Section (db : Database κ τ) (body : τ → Ending ε α τ) :
    Except ε α → Database κ τ → Prop
  /-- the lock is not given, or the body raises -/
  | raised (e : ε) (db' : Database κ τ) (h : db'.tables = db.tables) : Section db body (.error e) db'
  | committed (res : Except ε α) (t : τ) (h : body db.tables = .committed res t) :
      Section db body res { db with tables := t }

theorem atomically_cases (db : Database κ τ) (c : κ) (busy : ε) (fails : Bool)
    (body : τ → Ending ε α τ) :
    Section db body (db.atomically c busy fails body).1 (db.atomically c busy fails body).2 := by
  unfold atomically
  split
  · exact .raised busy db rfl
  · cases h : body db.tables with
    | committed res t => exact .committed res t h
    | rolledBack e => exact .raised e db rfl
    | leftOpen e => exact .raised e _ rfl

@[simp] theorem tables_close [DecidableEq κ] (db : Database κ τ) (c : κ) :
    (db.close c).tables = db.tables := by
  unfold close
  split
  · rfl
  · rfl

end Database
