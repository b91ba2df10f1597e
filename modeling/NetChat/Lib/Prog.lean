/-
Sequential programs over an interface of operations: a program is the tree
of the operations it issues, one branch for each result an operation can
have. Nothing here says what the operations do; `Threads` gives them a
shared state and lets several programs interleave.

A path through the tree is a log: the operations issued so far with the
results they had. `Path p l q` says that `p`, having seen the log `l`, is
left with `q`; `Runs` and `Issues` are its two ends, a value returned and an
operation about to be issued. Their equations (`runs_bind`, `issues_op`, ...)
turn a question about a program into a case split along its text.
-/
import Mathlib.Logic.Basic

namespace Interleave

/-- A program that issues operations of `Op`, the result of `o` having type
`Res o`, and returns an `α` or terminates the process it runs in. -/
inductive Prog (Op : Type) (Res : Op → Type) (α : Type) : Type
  | ret (a : α)
  | op (o : Op) (k : Res o → Prog Op Res α)
  | terminate

/-- One operation with the result it had. -/
structure Entry (Op : Type) (Res : Op → Type) where
  op : Op
  res : Res op

instance {Op : Type} {Res : Op → Type} [DecidableEq Op] [∀ o, DecidableEq (Res o)] : DecidableEq (Entry Op Res)
  | ⟨o, r⟩, ⟨o', r'⟩ =>
    if h : o = o' then
      if hr : h ▸ r = r' then isTrue (by subst h; subst hr; rfl)
      else isFalse (by rintro ⟨⟩; exact hr rfl)
    else isFalse (by rintro ⟨⟩; exact h rfl)

theorem Entry.of_op {Op : Type} {Res : Op → Type} {x : Entry Op Res} {o : Op} (h : x.op = o) :
    ∃ r, x = ⟨o, r⟩ := by
  obtain ⟨o', r⟩ := x
  cases h
  exact ⟨r, rfl⟩

namespace Prog

variable {Op : Type} {Res : Op → Type} {α β : Type}

def bind : Prog Op Res α → (α → Prog Op Res β) → Prog Op Res β
  | .ret a, f => f a
  | .op o k, f => .op o fun r => (k r).bind f
  | .terminate, _ => .terminate

instance : Monad (Prog Op Res) where
  pure := .ret
  bind := .bind

@[simp] theorem pure_eq (a : α) : (pure a : Prog Op Res α) = .ret a := rfl

@[simp] theorem bind_eq (p : Prog Op Res α) (f : α → Prog Op Res β) : p >>= f = p.bind f := rfl

@[simp] theorem ret_bind (a : α) (f : α → Prog Op Res β) : (ret a).bind f = f a := rfl

@[simp] theorem op_bind (o : Op) (k : Res o → Prog Op Res α) (f : α → Prog Op Res β) :
    (op o k).bind f = .op o fun r => (k r).bind f := rfl

@[simp] theorem terminate_bind (f : α → Prog Op Res β) :
    (terminate : Prog Op Res α).bind f = .terminate := rfl

theorem bind_assoc {γ : Type} (p : Prog Op Res α) (f : α → Prog Op Res β) (g : β → Prog Op Res γ) :
    (p.bind f).bind g = p.bind fun a => (f a).bind g := by
  induction p with
  | ret a => rfl
  | op o k ih => simp only [op_bind, ih]
  | terminate => rfl

/-! ## Paths -/

/-- `p`, having issued the operations of `l` and seen their results, is left
with `q`. -/
inductive Path : Prog Op Res α → List (Entry Op Res) → Prog Op Res α → Prop
  | nil {p : Prog Op Res α} : Path p [] p
  | cons {o : Op} {k : Res o → Prog Op Res α} {r : Res o} {l : List (Entry Op Res)} {q : Prog Op Res α} :
      Path (k r) l q → Path (.op o k) (⟨o, r⟩ :: l) q

/-- `p` returns `a` after the log `l`. -/
def Runs (p : Prog Op Res α) (l : List (Entry Op Res)) (a : α) : Prop := Path p l (.ret a)

/-- `p` issues `o` after the log `l`. -/
def Issues (p : Prog Op Res α) (l : List (Entry Op Res)) (o : Op) : Prop := ∃ k, Path p l (.op o k)

theorem Path.append {p q s : Prog Op Res α} {l m : List (Entry Op Res)} (h : Path p l q) (h' : Path q m s) :
    Path p (l ++ m) s := by
  induction h with
  | nil => exact h'
  | cons _ ih => exact .cons (ih h')

theorem Path.snoc {p : Prog Op Res α} {l : List (Entry Op Res)} {o : Op} {k : Res o → Prog Op Res α}
    (h : Path p l (.op o k)) (r : Res o) : Path p (l ++ [⟨o, r⟩]) (k r) :=
  h.append (.cons .nil)

theorem path_op {o : Op} {k : Res o → Prog Op Res α} {l : List (Entry Op Res)} {q : Prog Op Res α} :
    Path (.op o k) l q ↔ (l = [] ∧ q = .op o k) ∨ ∃ r l', l = ⟨o, r⟩ :: l' ∧ Path (k r) l' q := by
  constructor
  · intro h
    cases h with
    | nil => exact .inl ⟨rfl, rfl⟩
    | cons h => exact .inr ⟨_, _, rfl, h⟩
  · rintro (⟨rfl, rfl⟩ | ⟨r, l', rfl, h⟩)
    · exact .nil
    · exact .cons h

theorem path_ret {a : α} {l : List (Entry Op Res)} {q : Prog Op Res α} :
    Path (.ret a) l q ↔ l = [] ∧ q = .ret a := by
  constructor
  · intro h
    cases h
    exact ⟨rfl, rfl⟩
  · rintro ⟨rfl, rfl⟩
    exact .nil

theorem path_terminate {l : List (Entry Op Res)} {q : Prog Op Res α} :
    Path .terminate l q ↔ l = [] ∧ q = .terminate := by
  constructor
  · intro h
    cases h
    exact ⟨rfl, rfl⟩
  · rintro ⟨rfl, rfl⟩
    exact .nil

theorem Path.bind {p q : Prog Op Res α} {l : List (Entry Op Res)} (f : α → Prog Op Res β) (h : Path p l q) :
    Path (p.bind f) l (q.bind f) := by
  induction h with
  | nil => exact .nil
  | cons _ ih => exact .cons ih

/-- A log determines what the program is left with. -/
theorem Path.det {p q q' : Prog Op Res α} {l : List (Entry Op Res)} (h : Path p l q) (h' : Path p l q') :
    q = q' := by
  induction h with
  | nil => cases h'; rfl
  | cons _ ih => cases h' with | cons h' => exact ih h'

theorem Issues.det {p : Prog Op Res α} {l : List (Entry Op Res)} {o o' : Op} (h : Issues p l o) (h' : Issues p l o') :
    o = o' := by
  obtain ⟨k, h⟩ := h
  obtain ⟨k', h'⟩ := h'
  cases h.det h'
  rfl

/-- A program that is about to issue something has not returned. -/
theorem Issues.not_runs {p : Prog Op Res α} {l : List (Entry Op Res)} {o : Op} {a : α} (h : Issues p l o) :
    ¬ Runs p l a := by
  intro hr
  obtain ⟨k, h⟩ := h
  cases h.det hr

/-- Every prefix of a path is a path, and what is issued next is on the log. -/
theorem Path.split {p q : Prog Op Res α} {l : List (Entry Op Res)} {e : Entry Op Res} {m : List (Entry Op Res)}
    (h : Path p (l ++ e :: m) q) : Issues p l e.op := by
  induction l generalizing p with
  | nil => cases h with | cons _ => exact ⟨_, .nil⟩
  | cons x l ih =>
    cases h with
    | cons h =>
      obtain ⟨k, hk⟩ := ih h
      exact ⟨k, .cons hk⟩

/-! ## The two ends of a path, along the program's text -/

@[simp] theorem runs_ret {a b : α} {l : List (Entry Op Res)} :
    Runs (.ret a : Prog Op Res α) l b ↔ l = [] ∧ b = a := by
  simp [Runs, path_ret]

@[simp] theorem runs_op {o : Op} {k : Res o → Prog Op Res α} {l : List (Entry Op Res)} {b : α} :
    Runs (.op o k) l b ↔ ∃ r l', l = ⟨o, r⟩ :: l' ∧ Runs (k r) l' b := by
  simp [Runs, path_op]

@[simp] theorem runs_terminate {l : List (Entry Op Res)} {b : α} :
    ¬ Runs (.terminate : Prog Op Res α) l b := by
  simp [Runs, path_terminate]

@[simp] theorem issues_ret {a : α} {l : List (Entry Op Res)} {o : Op} :
    ¬ Issues (.ret a : Prog Op Res α) l o := by
  simp [Issues, path_ret]

@[simp] theorem issues_op {o' : Op} {k : Res o' → Prog Op Res α} {l : List (Entry Op Res)} {o : Op} :
    Issues (.op o' k) l o ↔ (l = [] ∧ o = o') ∨ ∃ r l', l = ⟨o', r⟩ :: l' ∧ Issues (k r) l' o := by
  constructor
  · rintro ⟨k', h⟩
    rcases path_op.mp h with ⟨rfl, heq⟩ | ⟨r, l', rfl, hr⟩
    · cases heq
      exact .inl ⟨rfl, rfl⟩
    · exact .inr ⟨r, l', rfl, k', hr⟩
  · rintro (⟨rfl, rfl⟩ | ⟨r, l', rfl, k', h⟩)
    · exact ⟨k, .nil⟩
    · exact ⟨k', .cons h⟩

@[simp] theorem issues_terminate {l : List (Entry Op Res)} {o : Op} :
    ¬ Issues (.terminate : Prog Op Res α) l o := by
  simp [Issues, path_terminate]

theorem runs_bind {p : Prog Op Res α} {f : α → Prog Op Res β} {l : List (Entry Op Res)} {b : β} :
    Runs (p.bind f) l b ↔ ∃ a l₁ l₂, l = l₁ ++ l₂ ∧ Runs p l₁ a ∧ Runs (f a) l₂ b := by
  induction p generalizing l with
  | ret a =>
    constructor
    · intro h
      exact ⟨a, [], l, rfl, .nil, h⟩
    · rintro ⟨a', l₁, l₂, rfl, h₁, h₂⟩
      obtain ⟨rfl, rfl⟩ := runs_ret.mp h₁
      exact h₂
  | op o k ih =>
    simp only [op_bind, runs_op, ih]
    constructor
    · rintro ⟨r, l', rfl, a, l₁, l₂, rfl, h₁, h₂⟩
      exact ⟨a, ⟨o, r⟩ :: l₁, l₂, rfl, ⟨r, l₁, rfl, h₁⟩, h₂⟩
    · rintro ⟨a, _, l₂, rfl, ⟨r, l₁, rfl, h₁⟩, h₂⟩
      exact ⟨r, l₁ ++ l₂, rfl, a, l₁, l₂, rfl, h₁, h₂⟩
  | terminate => simp

theorem issues_bind {p : Prog Op Res α} {f : α → Prog Op Res β} {l : List (Entry Op Res)} {o : Op} :
    Issues (p.bind f) l o ↔
      Issues p l o ∨ ∃ a l₁ l₂, l = l₁ ++ l₂ ∧ Runs p l₁ a ∧ Issues (f a) l₂ o := by
  induction p generalizing l with
  | ret a =>
    constructor
    · intro h
      exact .inr ⟨a, [], l, rfl, .nil, h⟩
    · rintro (h | ⟨a', l₁, l₂, rfl, h₁, h₂⟩)
      · exact absurd h issues_ret
      · obtain ⟨rfl, rfl⟩ := runs_ret.mp h₁
        exact h₂
  | op o' k ih =>
    simp only [op_bind, issues_op, runs_op, ih]
    constructor
    · rintro (h | ⟨r, l', rfl, h | ⟨a, l₁, l₂, rfl, h₁, h₂⟩⟩)
      · exact .inl (.inl h)
      · exact .inl (.inr ⟨r, l', rfl, h⟩)
      · exact .inr ⟨a, ⟨o', r⟩ :: l₁, l₂, rfl, ⟨r, l₁, rfl, h₁⟩, h₂⟩
    · rintro ((h | ⟨r, l', rfl, h⟩) | ⟨a, _, l₂, rfl, ⟨r, l₁, rfl, h₁⟩, h₂⟩)
      · exact .inl h
      · exact .inr ⟨r, l', rfl, .inl h⟩
      · exact .inr ⟨r, l₁ ++ l₂, rfl, .inr ⟨a, l₁, l₂, rfl, h₁, h₂⟩⟩
  | terminate => simp

/-- Of two places at which a list is split, one is the other, or before or after it. -/
theorem split_cases {γ : Type} {l₁ l₁' l₂ l₂' : List γ} {x x' : γ} (h : l₁ ++ x :: l₂ = l₁' ++ x' :: l₂') :
    (l₁ = l₁' ∧ x = x' ∧ l₂ = l₂') ∨ (∃ mid, l₁' = l₁ ++ x :: mid ∧ l₂ = mid ++ x' :: l₂') ∨
      ∃ mid, l₁ = l₁' ++ x' :: mid ∧ l₂' = mid ++ x :: l₂ := by
  rcases List.append_eq_append_iff.mp h with ⟨a, rfl, ha⟩ | ⟨a, rfl, ha⟩
  · cases a with
    | nil =>
      obtain ⟨rfl, rfl⟩ := List.cons.inj ha
      exact .inl ⟨(List.append_nil _).symm, rfl, rfl⟩
    | cons y a =>
      obtain ⟨rfl, rfl⟩ := List.cons.inj ha
      exact .inr (.inl ⟨a, rfl, rfl⟩)
  · cases a with
    | nil =>
      obtain ⟨rfl, rfl⟩ := List.cons.inj ha
      exact .inl ⟨List.append_nil _, rfl, rfl⟩
    | cons y a =>
      obtain ⟨rfl, rfl⟩ := List.cons.inj ha
      exact .inr (.inr ⟨a, rfl, rfl⟩)

/-- A list is split at its first entry with `P` in one way. -/
theorem split_first_unique {γ : Type} {P : γ → Prop} {l₁ l₁' l₂ l₂' : List γ} {x x' : γ}
    (h : l₁ ++ x :: l₂ = l₁' ++ x' :: l₂') (hx : P x) (hx' : P x') (h₁ : ∀ y ∈ l₁, ¬ P y) (h₁' : ∀ y ∈ l₁', ¬ P y) :
    l₁ = l₁' ∧ x = x' ∧ l₂ = l₂' := by
  rcases split_cases h with hsame | ⟨mid, rfl, -⟩ | ⟨mid, rfl, -⟩
  · exact hsame
  · exact absurd hx (h₁' x (by simp))
  · exact absurd hx' (h₁ x' (by simp))

/-- A list in which no entry with `P` follows another is split at an entry with `P`
in one way. -/
theorem split_unique {γ : Type} {P : γ → Prop} {l l₁ l₁' l₂ l₂' : List γ} {x x' : γ} (hl : l = l₁ ++ x :: l₂)
    (hl' : l = l₁' ++ x' :: l₂') (hx : P x) (hx' : P x')
    (honce : ∀ a y b, l = a ++ y :: b → P y → ∀ z ∈ b, ¬ P z) : l₁ = l₁' ∧ x = x' ∧ l₂ = l₂' := by
  rcases split_cases (hl.symm.trans hl') with hsame | ⟨mid, -, rfl⟩ | ⟨mid, -, rfl⟩
  · exact hsame
  · exact absurd hx' (honce _ _ _ hl hx x' (by simp))
  · exact absurd hx (honce _ _ _ hl' hx' x (by simp))

/-! ## What holds on every path -/

/-- On every path of `p`, the operations issued satisfy `P` and a value
returned satisfies `Q`. -/
def Sat (P : Op → Prop) (Q : α → Prop) : Prog Op Res α → Prop
  | .ret a => Q a
  | .op o k => P o ∧ ∀ r, (k r).Sat P Q
  | .terminate => True

variable {P : Op → Prop} {Q : α → Prop}

@[simp] theorem sat_ret {a : α} : (ret a : Prog Op Res α).Sat P Q ↔ Q a := Iff.rfl

@[simp] theorem sat_op {o : Op} {k : Res o → Prog Op Res α} :
    (op o k).Sat P Q ↔ P o ∧ ∀ r, (k r).Sat P Q := Iff.rfl

@[simp] theorem sat_terminate : (terminate : Prog Op Res α).Sat P Q := trivial

theorem Sat.bind {R : β → Prop} {p : Prog Op Res α} {f : α → Prog Op Res β} (hp : p.Sat P Q)
    (hf : ∀ a, Q a → (f a).Sat P R) : (p.bind f).Sat P R := by
  induction p with
  | ret a => exact hf a hp
  | op o k ih => exact ⟨hp.1, fun r => ih r (hp.2 r)⟩
  | terminate => trivial

theorem Sat.path {p q : Prog Op Res α} {l : List (Entry Op Res)} (hp : p.Sat P Q) (h : Path p l q) :
    (∀ e ∈ l, P e.op) ∧ q.Sat P Q := by
  induction h with
  | nil => exact ⟨by simp, hp⟩
  | cons _ ih =>
    obtain ⟨hl, hq⟩ := ih (hp.2 _)
    exact ⟨by simpa using ⟨hp.1, hl⟩, hq⟩

theorem Sat.issues {p : Prog Op Res α} {l : List (Entry Op Res)} {o : Op} (hp : p.Sat P Q)
    (h : Issues p l o) : P o := by
  obtain ⟨k, hk⟩ := h
  exact (hp.path hk).2.1

theorem Sat.runs {p : Prog Op Res α} {l : List (Entry Op Res)} {a : α} (hp : p.Sat P Q) (h : Runs p l a) :
    (∀ e ∈ l, P e.op) ∧ Q a :=
  hp.path h

/-! ## What a result leads to -/

/-- Wherever `p` issues an operation, a result leaves it with what `Q` says. -/
def Meets (Q : Entry Op Res → Prog Op Res α → Prop) : Prog Op Res α → Prop
  | .ret _ => True
  | .op o k => ∀ r, Q ⟨o, r⟩ (k r) ∧ (k r).Meets Q
  | .terminate => True

theorem Meets.path {Q : Entry Op Res → Prog Op Res α → Prop} {p q : Prog Op Res α} {l : List (Entry Op Res)}
    {x : Entry Op Res} (hp : p.Meets Q) (h : Path p (l ++ [x]) q) : Q x q := by
  induction l generalizing p with
  | nil =>
    cases h with
    | cons h =>
      obtain rfl := Path.nil.det h
      exact (hp _).1
  | cons y l ih =>
    cases h with
    | cons h => exact ih (hp _).2 h

theorem Meets.bind {Q : Entry Op Res → Prog Op Res α → Prop} {Q' : Entry Op Res → Prog Op Res β → Prop}
    {p : Prog Op Res α} {f : α → Prog Op Res β} (hp : p.Meets Q) (hq : ∀ x q, Q x q → Q' x (q.bind f))
    (hf : ∀ a, (f a).Meets Q') : (p.bind f).Meets Q' := by
  induction p with
  | ret a => exact hf a
  | op o k ih => exact fun r => ⟨hq _ _ (hp r).1, ih r (hp r).2⟩
  | terminate => trivial

end Prog

end Interleave
