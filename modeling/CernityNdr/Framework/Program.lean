import Mathlib.Data.List.Basic

/-! # Programs That Ask and Act

    A program asks its environment, goes on with the answer, and makes calls
    that it gets no answer from. While the answers do not change a run is
    determined by them: `result` is what the program returns and `calls` the
    list of the calls that it makes, in order, its questions included.

    * `calls_bind`, `calls_each`: the calls of composed programs.
    * `calls_congr`: a program that gets the same answers makes the same
      calls. -/

/-- `A q` are the answers to the question `q`, `C` the calls. -/
inductive Program (Q : Type) (A : Q → Type) (C : Type) (α : Type)
  | pure (a : α)
  | ask (q : Q) (k : A q → Program Q A C α)
  | act (c : C) (k : Program Q A C α)

namespace Program

variable {Q : Type} {A : Q → Type} {C α β : Type}

def bind : Program Q A C α → (α → Program Q A C β) → Program Q A C β
  | pure a, f => f a
  | ask q k, f => ask q fun a => (k a).bind f
  | act c k, f => act c (k.bind f)

instance : Monad (Program Q A C) where
  pure := pure
  bind := bind

/-- One question. -/
def question (q : Q) : Program Q A C (A q) := ask q pure

/-- One call. -/
def call (c : C) : Program Q A C Unit := act c (pure ())

/-- The body for every item of a list, in order. -/
def each : List β → (β → Program Q A C Unit) → Program Q A C Unit
  | [], _ => pure ()
  | b :: bs, f => (f b).bind fun _ => each bs f

/-! ### Runs -/

variable (record : Q → C) (answer : (q : Q) → A q)

def result : Program Q A C α → α
  | pure a => a
  | ask q k => (k (answer q)).result
  | act _ k => k.result

/-- The calls in order; `record q` stands for the question `q`. -/
def calls : Program Q A C α → List C
  | pure _ => []
  | ask q k => record q :: (k (answer q)).calls
  | act c k => c :: k.calls

variable {record answer}

theorem bind_eq (m : Program Q A C α) (f : α → Program Q A C β) : m >>= f = m.bind f := rfl

theorem calls_bind (m : Program Q A C α) (f : α → Program Q A C β) :
    (m.bind f).calls record answer =
      m.calls record answer ++ (f (m.result answer)).calls record answer := by
  induction m with
  | pure a => rfl
  | ask q k ih => exact congrArg (record q :: ·) (ih (answer q))
  | act c k ih => exact congrArg (c :: ·) ih

theorem result_bind (m : Program Q A C α) (f : α → Program Q A C β) :
    (m.bind f).result answer = (f (m.result answer)).result answer := by
  induction m with
  | pure a => rfl
  | ask q k ih => exact ih (answer q)
  | act c k ih => exact ih

theorem calls_each (bs : List β) (f : β → Program Q A C Unit) :
    (each bs f).calls record answer = bs.flatMap fun b => (f b).calls record answer := by
  induction bs with
  | nil => rfl
  | cons b bs ih =>
    rw [each, calls_bind, ih]
    rfl

/-- A program that gets the same answers makes the same calls. -/
theorem calls_congr {answer' : (q : Q) → A q} {m : Program Q A C α}
    (h : ∀ q, record q ∈ m.calls record answer → answer' q = answer q) :
    m.calls record answer' = m.calls record answer := by
  induction m with
  | pure a => rfl
  | ask q k ih =>
    have hq : answer' q = answer q := h q List.mem_cons_self
    simp only [calls, hq]
    rw [ih (answer q) fun q' hq' => h q' (List.mem_cons_of_mem _ hq')]
  | act c k ih =>
    simp only [calls]
    rw [ih fun q' hq' => h q' (List.mem_cons_of_mem _ hq')]

/-! ### What a program never does -/

/-- Whatever the answers are, every call satisfies `P`. -/
def Makes (P : C → Prop) : Program Q A C α → Prop
  | pure _ => True
  | ask _ k => ∀ a, (k a).Makes P
  | act c k => P c ∧ k.Makes P

variable {P : C → Prop}

theorem makes_question (q : Q) : Makes P (question q : Program Q A C (A q)) := fun _ => trivial

theorem makes_call {c : C} (h : P c) : Makes P (call c : Program Q A C Unit) := ⟨h, trivial⟩

theorem Makes.bind {m : Program Q A C α} (h : m.Makes P) {f : α → Program Q A C β}
    (hf : ∀ a, (f a).Makes P) : (m.bind f).Makes P := by
  induction m with
  | pure a => exact hf a
  | ask q k ih => exact fun a => ih a (h a)
  | act c k ih => exact ⟨h.1, ih h.2⟩

theorem makes_each {bs : List β} {f : β → Program Q A C Unit} (h : ∀ b, (f b).Makes P) :
    (each bs f).Makes P := by
  induction bs with
  | nil => trivial
  | cons b bs ih => exact (h b).bind fun _ => ih

/-- Whatever the answers are, every question satisfies `R`. -/
def Asks (R : Q → Prop) : Program Q A C α → Prop
  | pure _ => True
  | ask q k => R q ∧ ∀ a, (k a).Asks R
  | act _ k => k.Asks R

variable {R : Q → Prop}

theorem asks_question {q : Q} (h : R q) : Asks R (question q : Program Q A C (A q)) :=
  ⟨h, fun _ => trivial⟩

theorem asks_call (c : C) : Asks R (call c : Program Q A C Unit) := trivial

theorem Asks.bind {m : Program Q A C α} (h : m.Asks R) {f : α → Program Q A C β}
    (hf : ∀ a, (f a).Asks R) : (m.bind f).Asks R := by
  induction m with
  | pure a => exact hf a
  | ask q k ih => exact ⟨h.1, fun a => ih a (h.2 a)⟩
  | act c k ih => exact ih h

theorem asks_each {bs : List β} {f : β → Program Q A C Unit} (h : ∀ b, (f b).Asks R) :
    (each bs f).Asks R := by
  induction bs with
  | nil => trivial
  | cons b bs ih => exact (h b).bind fun _ => ih

/-- Questions apart, the calls of a run satisfy `P`. -/
theorem Makes.of_mem_calls {m : Program Q A C α} (h : m.Makes P) {c : C}
    (hc : c ∈ m.calls record answer) : P c ∨ ∃ q, c = record q := by
  induction m with
  | pure a => cases hc
  | ask q k ih =>
    rcases List.mem_cons.mp hc with rfl | hc
    · exact Or.inr ⟨q, rfl⟩
    · exact ih (answer q) (h _) hc
  | act c' k ih =>
    rcases List.mem_cons.mp hc with rfl | hc
    · exact Or.inl h.1
    · exact ih h.2 hc

/-! ### Runs against any environment -/

/-- A step of a run. -/
inductive Event (Q : Type) (A : Q → Type) (C : Type)
  | asked (q : Q) (a : A q)
  | called (c : C)

/-- `m.Runs events b`: with some answers the program takes the steps `events`
    and returns `b`. -/
def Runs : Program Q A C α → List (Event Q A C) → α → Prop
  | pure a, events, b => events = [] ∧ b = a
  | ask q k, events, b => ∃ a rest, events = .asked q a :: rest ∧ (k a).Runs rest b
  | act c k, events, b => ∃ rest, events = .called c :: rest ∧ k.Runs rest b

/-- The run against an environment that answers knowing what has happened:
    its steps, and what the program returns. -/
def against (env : List (Event Q A C) → (q : Q) → A q) :
    Program Q A C α → List (Event Q A C) → List (Event Q A C) × α
  | pure a, _ => ([], a)
  | ask q k, past =>
    let run := (k (env past q)).against env (past ++ [.asked q (env past q)])
    (.asked q (env past q) :: run.1, run.2)
  | act c k, past =>
    let run := k.against env (past ++ [.called c])
    (.called c :: run.1, run.2)

theorem runs_against (env : List (Event Q A C) → (q : Q) → A q) (m : Program Q A C α)
    (past : List (Event Q A C)) : m.Runs (m.against env past).1 (m.against env past).2 := by
  induction m generalizing past with
  | pure a => exact ⟨rfl, rfl⟩
  | ask q k ih => exact ⟨_, _, rfl, ih _ _⟩
  | act c k ih => exact ⟨_, rfl, ih _⟩

/-- An environment that gives the answers of a run takes the program through
    that run. -/
theorem against_of_runs {ans : (q : Q) → A q} {m : Program Q A C α} {events : List (Event Q A C)}
    {b : α} (h : m.Runs events b) (hans : ∀ q a, .asked q a ∈ events → a = ans q)
    (past : List (Event Q A C)) : m.against (fun _ q => ans q) past = (events, b) := by
  induction m generalizing events past with
  | pure a =>
    obtain ⟨rfl, rfl⟩ := h
    rfl
  | ask q k ih =>
    obtain ⟨a, rest, rfl, h⟩ := h
    obtain rfl := hans q a List.mem_cons_self
    rw [against, ih _ h fun q' a' hmem => hans q' a' (List.mem_cons_of_mem _ hmem)]
  | act c k ih =>
    obtain ⟨rest, rfl, h⟩ := h
    rw [against, ih h fun q' a' hmem => hans q' a' (List.mem_cons_of_mem _ hmem)]

theorem runs_bind {m : Program Q A C α} {f : α → Program Q A C β} {events : List (Event Q A C)}
    {b : β} : (m.bind f).Runs events b ↔
      ∃ front a rest, events = front ++ rest ∧ m.Runs front a ∧ (f a).Runs rest b := by
  induction m generalizing events with
  | pure a =>
    constructor
    · intro h
      exact ⟨[], a, events, rfl, ⟨rfl, rfl⟩, h⟩
    · rintro ⟨front, a', rest, rfl, ⟨rfl, rfl⟩, h⟩
      exact h
  | ask q k ih =>
    constructor
    · rintro ⟨a, tail, rfl, h⟩
      obtain ⟨front, a', rest, rfl, hfront, hrest⟩ := (ih a).mp h
      exact ⟨_ :: front, a', rest, rfl, ⟨a, front, rfl, hfront⟩, hrest⟩
    · rintro ⟨_, a', rest, rfl, ⟨a, front, rfl, hfront⟩, hrest⟩
      exact ⟨a, front ++ rest, rfl, (ih a).mpr ⟨front, a', rest, rfl, hfront, hrest⟩⟩
  | act c k ih =>
    constructor
    · rintro ⟨tail, rfl, h⟩
      obtain ⟨front, a', rest, rfl, hfront, hrest⟩ := ih.mp h
      exact ⟨_ :: front, a', rest, rfl, ⟨front, rfl, hfront⟩, hrest⟩
    · rintro ⟨_, a', rest, rfl, ⟨front, rfl, hfront⟩, hrest⟩
      exact ⟨front ++ rest, rfl, ih.mpr ⟨front, a', rest, rfl, hfront, hrest⟩⟩

/-! ### Programs that may raise -/

variable {ε : Type}

/-- A program that raises or returns. -/
abbrev Attempt (Q : Type) (A : Q → Type) (C ε : Type) := ExceptT ε (Program Q A C)

/-- The steps of an attempt, and how it ends. -/
def Attempts (m : Attempt Q A C ε α) (events : List (Event Q A C)) (r : Except ε α) : Prop :=
  Runs m.run events r

theorem attempts_pure {a : α} {events : List (Event Q A C)} {r : Except ε α} :
    Attempts (Pure.pure a : Attempt Q A C ε α) events r ↔ events = [] ∧ r = .ok a := Iff.rfl

theorem attempts_throw {e : ε} {events : List (Event Q A C)} {r : Except ε α} :
    Attempts (throw e : Attempt Q A C ε α) events r ↔ events = [] ∧ r = .error e := Iff.rfl

/-- An attempt ends where its first part raises, or goes on. -/
theorem attempts_bind {m : Attempt Q A C ε α} {f : α → Attempt Q A C ε β}
    {events : List (Event Q A C)} {r : Except ε β} :
    Attempts (m >>= f) events r ↔
      (∃ e, Attempts m events (.error e) ∧ r = .error e) ∨
        ∃ front a rest, events = front ++ rest ∧ Attempts m front (.ok a) ∧
          Attempts (f a) rest r := by
  have hbind : Attempts (m >>= f) events r ↔
      (m.run.bind (ExceptT.bindCont f)).Runs events r := Iff.rfl
  rw [hbind, runs_bind]
  constructor
  · rintro ⟨front, a | a, rest, rfl, hfront, hrest⟩
    · obtain ⟨rfl, rfl⟩ := hrest
      exact Or.inl ⟨a, by rwa [List.append_nil], rfl⟩
    · exact Or.inr ⟨front, a, rest, rfl, hfront, hrest⟩
  · rintro (⟨e, hm, rfl⟩ | ⟨front, a, rest, rfl, hfront, hrest⟩)
    · exact ⟨events, .error e, [], (List.append_nil _).symm, hm, rfl, rfl⟩
    · exact ⟨front, .ok a, rest, rfl, hfront, hrest⟩

end Program
