/-
Threads over a shared state. Each thread runs its body again and again; a
step picks a thread, lets its next operation happen on the state with a
result the state allows, and goes on. Which thread moves and which result an
operation has is up to the schedule, so the reachable configurations are
those of every interleaving and of every outcome.

The configuration remembers what happened: each thread the log of its
current turn, the configuration the history of all events, latest first,
each with the log its thread had at that point. The rules below read a
statement about the past off the history: `Reachable.event` gives back the
configuration in which an event happened, `Reachable.log_history` finds the
events of a turn in the history.
-/
import Mathlib.Logic.Function.Basic
import NetChat.Lib.Prog

namespace Interleave

/-- A thread: what is left of its current turn, and what the turn has done. -/
structure Thread (Op : Type) (Res : Op → Type) where
  rest : Prog Op Res Unit
  log : List (Entry Op Res)

/-- An operation that happened, with its result: in which thread, and after
which log of the thread's turn. -/
structure Event (Tid Op : Type) (Res : Op → Type) where
  tid : Tid
  pre : List (Entry Op Res)
  act : Entry Op Res

instance {Tid Op : Type} {Res : Op → Type} [DecidableEq Tid] [DecidableEq Op] [∀ o, DecidableEq (Res o)] :
    DecidableEq (Event Tid Op Res)
  | ⟨t, p, x⟩, ⟨t', p', x'⟩ => decidable_of_iff (t = t' ∧ p = p' ∧ x = x') (by simp)

/-- What each thread runs, and what an operation with a given result does to
the state (`none` when the state does not allow it, or not yet). -/
structure Machine (Tid Op : Type) (Res : Op → Type) (State : Type) where
  body : Tid → Prog Op Res Unit
  step : State → Entry Op Res → Option State

structure Config (Tid Op : Type) (Res : Op → Type) (State : Type) where
  state : State
  threads : Tid → Thread Op Res
  history : List (Event Tid Op Res)
  crashed : Bool

def Prog.isTerminate {Op : Type} {Res : Op → Type} {α : Type} : Prog Op Res α → Bool
  | .terminate => true
  | _ => false

namespace Machine

variable {Tid Op : Type} {Res : Op → Type} {State : Type} [DecidableEq Tid]

/-- A thread whose turn is left with `p`: a turn that returned starts over. -/
def resume (M : Machine Tid Op Res State) (t : Tid) (log : List (Entry Op Res)) : Prog Op Res Unit → Thread Op Res
  | .ret _ => ⟨M.body t, []⟩
  | p => ⟨p, log⟩

def init (M : Machine Tid Op Res State) (s : State) : Config Tid Op Res State :=
  ⟨s, fun t => ⟨M.body t, []⟩, [], false⟩

/-- The configuration after thread `t` did `x`, is left with `p` and the state
is `s`. -/
def after (M : Machine Tid Op Res State) (c : Config Tid Op Res State) (t : Tid) (x : Entry Op Res)
    (p : Prog Op Res Unit) (s : State) : Config Tid Op Res State where
  state := s
  threads := Function.update c.threads t (M.resume t ((c.threads t).log ++ [x]) p)
  history := ⟨t, (c.threads t).log, x⟩ :: c.history
  crashed := p.isTerminate

/-- One step, with the event it is. A process that terminated takes none. -/
inductive Step (M : Machine Tid Op Res State) :
    Config Tid Op Res State → Event Tid Op Res → Config Tid Op Res State → Prop
  | mk {c : Config Tid Op Res State} {t : Tid} {o : Op} {k : Res o → Prog Op Res Unit} {r : Res o} {s : State} :
      c.crashed = false → (c.threads t).rest = .op o k → M.step c.state ⟨o, r⟩ = some s →
      Step M c ⟨t, (c.threads t).log, o, r⟩ (M.after c t ⟨o, r⟩ (k r) s)

/-- Reachable from `s` by steps that each meet `ok`, a condition on the
configuration before the step and on its event. -/
inductive ReachableWhen (M : Machine Tid Op Res State)
    (ok : Config Tid Op Res State → Event Tid Op Res → Prop) (s : State) : Config Tid Op Res State → Prop
  | init : ReachableWhen M ok s (M.init s)
  | step {c c' : Config Tid Op Res State} {e : Event Tid Op Res} :
      ReachableWhen M ok s c → Step M c e c' → ok c e → ReachableWhen M ok s c'

/-- Reachable by any steps. -/
abbrev Reachable (M : Machine Tid Op Res State) (s : State) : Config Tid Op Res State → Prop :=
  M.ReachableWhen (fun _ _ => True) s

/-- Zero or more steps that each meet `ok`. -/
inductive Steps (M : Machine Tid Op Res State) (ok : Config Tid Op Res State → Event Tid Op Res → Prop) :
    Config Tid Op Res State → Config Tid Op Res State → Prop
  | refl {c : Config Tid Op Res State} : Steps M ok c c
  | tail {c c' c'' : Config Tid Op Res State} {e : Event Tid Op Res} :
      Steps M ok c c' → Step M c' e c'' → ok c' e → Steps M ok c c''

variable {M : Machine Tid Op Res State} {ok : Config Tid Op Res State → Event Tid Op Res → Prop}
  {s : State} {c c' c'' : Config Tid Op Res State} {e : Event Tid Op Res}

/-! ## One step -/

theorem Step.state (h : M.Step c e c') : M.step c.state e.act = some c'.state := by
  cases h with | mk _ _ hs => exact hs

theorem Step.history (h : M.Step c e c') : c'.history = e :: c.history := by
  cases h with | mk _ _ _ => rfl

theorem Step.log (h : M.Step c e c') : (c.threads e.tid).log = e.pre := by
  cases h with | mk _ _ _ => rfl

theorem Step.running (h : M.Step c e c') : c.crashed = false := by
  cases h with | mk hc _ _ => exact hc

theorem Step.other {t : Tid} (h : M.Step c e c') (ht : t ≠ e.tid) : c'.threads t = c.threads t := by
  cases h with | mk _ _ _ => simp [after, Function.update_of_ne ht]

/-- The stepping thread is in the same turn with one more entry on its log, or
its turn ended. -/
theorem Step.self (h : M.Step c e c') :
    (c'.threads e.tid).log = e.pre ++ [e.act] ∨ (c'.threads e.tid).log = [] := by
  cases h with
  | @mk _ _ k r _ _ _ _ =>
    simp only [after, Function.update_self]
    cases k r <;> simp [resume]

/-! ## Runs -/

theorem ReachableWhen.mono {ok' : Config Tid Op Res State → Event Tid Op Res → Prop}
    (hok : ∀ c e, ok c e → ok' c e) (h : M.ReachableWhen ok s c) : M.ReachableWhen ok' s c := by
  induction h with
  | init => exact .init
  | step _ hs hk ih => exact .step ih hs (hok _ _ hk)

theorem ReachableWhen.reachable (h : M.ReachableWhen ok s c) : M.Reachable s c :=
  h.mono fun _ _ _ => trivial

theorem Steps.trans (h : M.Steps ok c c') (h' : M.Steps ok c' c'') : M.Steps ok c c'' := by
  induction h' with
  | refl => exact h
  | tail _ hs hk ih => exact .tail ih hs hk

theorem ReachableWhen.steps (h : M.ReachableWhen ok s c) (h' : M.Steps ok c c') : M.ReachableWhen ok s c' := by
  induction h' with
  | refl => exact h
  | tail _ hs hk ih => exact .step ih hs hk

theorem ReachableWhen.steps_init (h : M.ReachableWhen ok s c) : M.Steps ok (M.init s) c := by
  induction h with
  | init => exact .refl
  | step _ hs hk ih => exact .tail ih hs hk

/-- **The invariant rule**: what holds at the start and is kept by every step
from a reachable configuration holds in every reachable configuration. -/
theorem ReachableWhen.invariant (I : Config Tid Op Res State → Prop) (hinit : I (M.init s))
    (hstep : ∀ c e c', M.ReachableWhen ok s c → I c → M.Step c e c' → ok c e → I c')
    (h : M.ReachableWhen ok s c) : I c := by
  induction h with
  | init => exact hinit
  | step hr hs hk ih => exact hstep _ _ _ hr ih hs hk

/-- The same for a property of the shared state alone. -/
theorem ReachableWhen.state_invariant (I : State → Prop) (hinit : I s)
    (hstep : ∀ s x s', I s → M.step s x = some s' → I s') (h : M.ReachableWhen ok s c) : I c.state :=
  h.invariant (fun c => I c.state) hinit fun _ _ _ _ hi hs _ => hstep _ _ _ hi hs.state

theorem Steps.state_invariant (I : State → Prop) (hstep : ∀ s x s', I s → M.step s x = some s' → I s')
    (h : M.Steps ok c c') (hc : I c.state) : I c'.state := by
  induction h with
  | refl => exact hc
  | tail _ hs _ ih => exact hstep _ _ _ ih hs.state

theorem Steps.history (h : M.Steps ok c c') : ∃ later, c'.history = later ++ c.history := by
  induction h with
  | refl => exact ⟨[], rfl⟩
  | tail _ hs _ ih =>
    obtain ⟨later, hl⟩ := ih
    exact ⟨_ :: later, by rw [hs.history, hl, List.cons_append]⟩

/-! ## Turns -/

/-- A thread is where its log says it is in its body. -/
theorem ReachableWhen.path (h : M.ReachableWhen ok s c) (t : Tid) :
    (M.body t).Path (c.threads t).log (c.threads t).rest := by
  induction h with
  | init => exact .nil
  | @step c c' e _ hs _ ih =>
    by_cases ht : t = e.tid
    · subst ht
      cases hs with
      | @mk _ o k r _ _ hr _ =>
        rw [hr] at ih
        have hp := ih.snoc r
        simp only [after, Function.update_self]
        cases hk : k r with
        | ret => exact .nil
        | op | terminate => rw [hk] at hp; exact hp
    · rw [hs.other ht]
      exact ih

/-- An event happens where the body of its thread issues its operation. -/
theorem Step.issues (hr : M.ReachableWhen ok s c) (h : M.Step c e c') : (M.body e.tid).Issues e.pre e.act.op := by
  cases h with
  | @mk t o k r _ _ hrest _ =>
    have hp := hr.path t
    rw [hrest] at hp
    exact ⟨k, hp⟩

/-- A turn ends exactly when the body returns. -/
theorem Step.turn (hr : M.ReachableWhen ok s c) (h : M.Step c e c') :
    ((c'.threads e.tid).log = e.pre ++ [e.act] ∧ ¬ (M.body e.tid).Runs (e.pre ++ [e.act]) ()) ∨
      ((c'.threads e.tid).log = [] ∧ (M.body e.tid).Runs (e.pre ++ [e.act]) ()) := by
  cases h with
  | @mk t o k r _ _ hrest _ =>
    have hp := hr.path t
    rw [hrest] at hp
    have hp := hp.snoc r
    simp only [after, Function.update_self]
    cases hk : k r with
    | ret => rw [hk] at hp; exact .inr ⟨rfl, hp⟩
    | op | terminate =>
      rw [hk] at hp
      exact .inl ⟨rfl, fun hrun => by cases Prog.Path.det hp hrun⟩

/-- A step ends the process exactly when its thread's body is left with `terminate`. -/
theorem Step.crashed (hr : M.ReachableWhen ok s c) (h : M.Step c e c') :
    c'.crashed = true ↔ (M.body e.tid).Path (e.pre ++ [e.act]) .terminate := by
  cases h with
  | @mk t o k r _ _ hrest _ =>
    have hp := hr.path t
    rw [hrest] at hp
    have hp := hp.snoc r
    constructor
    · intro hc
      simp only [after] at hc
      cases hk : k r with
      | terminate => rwa [hk] at hp
      | ret | op => rw [hk] at hc; cases hc
    · intro hterm
      simp only [after]
      rw [hp.det hterm]
      rfl

/-- **A thread about to issue `o`**: a step of another leaves it there; its own step
is `o`, and its turn goes on as far as its body does. -/
theorem Step.about_to (hr : M.ReachableWhen ok s c) (h : M.Step c e c') {t : Tid} {o : Op}
    (ho : (M.body t).Issues (c.threads t).log o) :
    (e.tid ≠ t ∧ (c'.threads t).log = (c.threads t).log) ∨
      e.tid = t ∧ e.act.op = o ∧ ∀ o', (M.body t).Issues ((c.threads t).log ++ [e.act]) o' →
        (c'.threads t).log = (c.threads t).log ++ [e.act] := by
  by_cases ht : e.tid = t
  · subst ht
    rw [h.log] at ho ⊢
    refine .inr ⟨rfl, (h.issues hr).det ho, fun o' ho' => ?_⟩
    rcases h.turn hr with ⟨hl, -⟩ | ⟨-, hrun⟩
    · exact hl
    · exact absurd hrun ho'.not_runs
  · exact .inl ⟨ht, by rw [h.other (Ne.symm ht)]⟩

/-- Nothing in `mid` starts a turn of thread `t`. -/
def SameTurn (t : Tid) (mid : List (Event Tid Op Res)) : Prop := ∀ y ∈ mid, y.tid = t → y.pre ≠ []

omit [DecidableEq Tid] in
theorem SameTurn.cons {t : Tid} {mid : List (Event Tid Op Res)} (h : SameTurn t mid) (he : e.tid = t → e.pre ≠ []) :
    SameTurn t (e :: mid) := by
  intro y hy
  rcases List.mem_cons.mp hy with rfl | hy
  · exact he
  · exact h y hy

/-- What a thread did in its current turn is in the history, and it started no
other turn since. -/
theorem ReachableWhen.log_since (h : M.ReachableWhen ok s c) {t : Tid} {p q : List (Entry Op Res)}
    {x : Entry Op Res} (hl : (c.threads t).log = p ++ x :: q) :
    ∃ mid past, c.history = mid ++ ⟨t, p, x⟩ :: past ∧ SameTurn t mid := by
  induction h generalizing p q with
  | init => simp [Machine.init] at hl
  | @step c c' e hr hs _ ih =>
    rw [hs.history]
    by_cases ht : t = e.tid
    · subst ht
      rcases hs.self with hl' | hl'
      · rw [hl'] at hl
        rcases List.eq_nil_or_concat q with rfl | ⟨q, y, rfl⟩
        · obtain ⟨hp, hx⟩ := List.append_inj' hl rfl
          cases hx
          exact ⟨[], c.history, by simp [← hp], by simp [SameTurn]⟩
        · rw [List.concat_eq_append, ← List.cons_append, ← List.append_assoc] at hl
          obtain ⟨hp, -⟩ := List.append_inj' hl rfl
          obtain ⟨mid, past, hh, hmid⟩ := ih (hs.log.trans hp)
          exact ⟨e :: mid, past, by rw [hh, List.cons_append], hmid.cons fun _ => by simp [hp]⟩
      · simp [hl'] at hl
    · rw [hs.other ht] at hl
      obtain ⟨mid, past, hh, hmid⟩ := ih hl
      exact ⟨e :: mid, past, by rw [hh, List.cons_append], hmid.cons fun h => absurd h.symm ht⟩

theorem ReachableWhen.log_history (h : M.ReachableWhen ok s c) {t : Tid} {p q : List (Entry Op Res)}
    {x : Entry Op Res} (hl : (c.threads t).log = p ++ x :: q) : ⟨t, p, x⟩ ∈ c.history := by
  obtain ⟨mid, past, hh, -⟩ := h.log_since hl
  rw [hh]
  simp

theorem ReachableWhen.log_mem_history (h : M.ReachableWhen ok s c) {t : Tid} {x : Entry Op Res}
    (hx : x ∈ (c.threads t).log) : ∃ e ∈ c.history, e.tid = t ∧ e.act = x := by
  obtain ⟨p, q, hl⟩ := List.append_of_mem hx
  exact ⟨_, h.log_history hl, rfl, rfl⟩

/-- A thread that started no turn since an event is still in its turn, or
between turns. -/
theorem ReachableWhen.log_of_sameTurn (h : M.ReachableWhen ok s c) {mid past : List (Event Tid Op Res)}
    (hh : c.history = mid ++ e :: past) (hmid : SameTurn e.tid mid) :
    (c.threads e.tid).log = [] ∨ ∃ q, (c.threads e.tid).log = e.pre ++ e.act :: q := by
  induction h generalizing mid with
  | init => simp [Machine.init] at hh
  | @step c c' e' _ hs _ ih =>
    rw [hs.history] at hh
    cases mid with
    | nil =>
      simp only [List.nil_append, List.cons.injEq] at hh
      obtain ⟨rfl, -⟩ := hh
      rcases hs.self with hl | hl
      · exact .inr ⟨[], hl⟩
      · exact .inl hl
    | cons y mid =>
      simp only [List.cons_append, List.cons.injEq] at hh
      obtain ⟨rfl, hh⟩ := hh
      have hlog := ih hh fun z hz => hmid z (List.mem_cons_of_mem _ hz)
      by_cases ht : e.tid = e'.tid
      · rw [ht, hs.log] at hlog
        rcases hlog with hlog | ⟨q, hlog⟩
        · exact absurd hlog (hmid e' (by simp) ht.symm)
        · rw [ht]
          rcases hs.self with hl | hl
          · exact .inr ⟨q ++ [e'.act], by rw [hl, hlog, List.append_assoc, List.cons_append]⟩
          · exact .inl hl
      · rw [hs.other ht]
        exact hlog

/-- Over steps that start no turn of a thread, its log grows or its turn ends. -/
theorem Steps.log_sameTurn (h : M.Steps ok c c') {t : Tid} {later : List (Event Tid Op Res)}
    (hl : c'.history = later ++ c.history) (hturn : SameTurn t later) :
    (c'.threads t).log = [] ∨ (c.threads t).log ≠ [] ∧ (c.threads t).log <+: (c'.threads t).log := by
  induction h generalizing later with
  | refl =>
    by_cases hnil : (c.threads t).log = []
    · exact .inl hnil
    · exact .inr ⟨hnil, List.prefix_refl _⟩
  | @tail c₁ c₂ e hs h₁ _ ih =>
    rw [h₁.history] at hl
    obtain ⟨later', hl'⟩ := hs.history
    rw [hl', ← List.cons_append] at hl
    obtain rfl := List.append_cancel_right hl
    have ih := ih hl' fun y hy => hturn y (List.mem_cons_of_mem _ hy)
    by_cases ht : t = e.tid
    · rw [ht] at ih hturn ⊢
      rcases h₁.self with hself | hself
      · rw [h₁.log] at ih
        rcases ih with ih | ⟨hne, hpre⟩
        · exact absurd ih (hturn e (by simp) rfl)
        · exact .inr ⟨hne, hself ▸ hpre.trans (List.prefix_append _ _)⟩
      · exact .inl hself
    · rw [h₁.other ht]
      exact ih

/-- A thread that never moved is at its start. -/
theorem ReachableWhen.fresh (h : M.ReachableWhen ok s c) {t : Tid} (ht : ∀ e ∈ c.history, e.tid ≠ t) :
    c.threads t = ⟨M.body t, []⟩ := by
  induction h with
  | init => rfl
  | @step c c' e _ hs _ ih =>
    rw [hs.history] at ht
    have hne : t ≠ e.tid := fun h => ht e (by simp) h.symm
    rw [hs.other hne]
    exact ih fun e' he' => ht e' (List.mem_cons_of_mem _ he')

/-! ## The past -/

/-- **The configuration an event happened in.** -/
theorem ReachableWhen.event (h : M.ReachableWhen ok s c) {later earlier : List (Event Tid Op Res)}
    (he : c.history = later ++ e :: earlier) :
    ∃ c₁ c₂, M.ReachableWhen ok s c₁ ∧ c₁.history = earlier ∧ M.Step c₁ e c₂ ∧ ok c₁ e ∧ M.Steps ok c₂ c := by
  induction h generalizing later with
  | init => simp [Machine.init] at he
  | @step c c' e' hr hs hk ih =>
    rw [hs.history] at he
    cases later with
    | nil =>
      simp only [List.nil_append, List.cons.injEq] at he
      obtain ⟨rfl, rfl⟩ := he
      exact ⟨c, c', hr, rfl, hs, hk, .refl⟩
    | cons x later =>
      simp only [List.cons_append, List.cons.injEq] at he
      obtain ⟨rfl, he⟩ := he
      obtain ⟨c₁, c₂, h₁, h₂, h₃, h₄, h₅⟩ := ih he
      exact ⟨c₁, c₂, h₁, h₂, h₃, h₄, .tail h₅ hs hk⟩

theorem ReachableWhen.event_mem (h : M.ReachableWhen ok s c) (he : e ∈ c.history) :
    ∃ c₁ c₂, M.ReachableWhen ok s c₁ ∧ M.Step c₁ e c₂ ∧ ok c₁ e ∧ M.Steps ok c₂ c := by
  obtain ⟨later, earlier, he⟩ := List.append_of_mem he
  obtain ⟨c₁, c₂, h₁, -, h₃, h₄, h₅⟩ := h.event he
  exact ⟨c₁, c₂, h₁, h₃, h₄, h₅⟩

/-- The configuration in which a thread did what is on its log. -/
theorem ReachableWhen.log_event (h : M.ReachableWhen ok s c) {t : Tid} {p q : List (Entry Op Res)} {x : Entry Op Res}
    (hl : (c.threads t).log = p ++ x :: q) :
    ∃ c₁ c₂, M.ReachableWhen ok s c₁ ∧ M.Step c₁ ⟨t, p, x⟩ c₂ ∧ ok c₁ ⟨t, p, x⟩ ∧ M.Steps ok c₂ c :=
  h.event_mem (h.log_history hl)

/-- The same with the rest of the log: what the turn did after `x` it did after that
configuration. -/
theorem ReachableWhen.log_between (h : M.ReachableWhen ok s c) {t : Tid} {p q : List (Entry Op Res)} {x : Entry Op Res}
    (hl : (c.threads t).log = p ++ x :: q) :
    ∃ c₁ c₂ mid, M.ReachableWhen ok s c₁ ∧ M.Step c₁ ⟨t, p, x⟩ c₂ ∧ M.Steps ok c₂ c ∧
      c.history = mid ++ ⟨t, p, x⟩ :: c₁.history ∧ SameTurn t mid ∧
      ∀ y ∈ q, ∃ c₃ c₄ p', M.Steps ok c₂ c₃ ∧ M.Step c₃ ⟨t, p', y⟩ c₄ ∧ M.Steps ok c₄ c := by
  induction h generalizing q with
  | init => simp [Machine.init] at hl
  | @step c c' e hr hs hk ih =>
    by_cases ht : t = e.tid
    · subst ht
      rcases hs.self with hl' | hl'
      · rw [hl'] at hl
        rcases List.eq_nil_or_concat q with rfl | ⟨q, z, rfl⟩
        · obtain ⟨rfl, hx⟩ := List.append_inj' hl rfl
          cases hx
          exact ⟨c, c', [], hr, hs, .refl, hs.history, by simp [SameTurn], by simp⟩
        · rw [List.concat_eq_append, ← List.cons_append, ← List.append_assoc] at hl
          obtain ⟨hp, hz⟩ := List.append_inj' hl rfl
          obtain ⟨c₁, c₂, mid, h₁, h₂, h₃, hh, hmid, hq⟩ := ih (hs.log.trans hp)
          refine ⟨c₁, c₂, e :: mid, h₁, h₂, .tail h₃ hs hk, by rw [hs.history, hh, List.cons_append],
            hmid.cons fun _ => by simp [hp], fun y hy => ?_⟩
          rw [List.concat_eq_append, List.mem_append, List.mem_singleton] at hy
          rcases hy with hy | rfl
          · obtain ⟨c₃, c₄, p', h₄, h₅, h₆⟩ := hq y hy
            exact ⟨c₃, c₄, p', h₄, h₅, .tail h₆ hs hk⟩
          · cases hz
            exact ⟨c, c', e.pre, h₃, hs, .refl⟩
      · simp [hl'] at hl
    · rw [hs.other ht] at hl
      obtain ⟨c₁, c₂, mid, h₁, h₂, h₃, hh, hmid, hq⟩ := ih hl
      refine ⟨c₁, c₂, e :: mid, h₁, h₂, .tail h₃ hs hk, by rw [hs.history, hh, List.cons_append],
        hmid.cons fun h => absurd h.symm ht, fun y hy => ?_⟩
      obtain ⟨c₃, c₄, p', h₄, h₅, h₆⟩ := hq y hy
      exact ⟨c₃, c₄, p', h₄, h₅, .tail h₆ hs hk⟩

/-- What every event of a stretch of the run preserves holds after it. -/
theorem Steps.preserves (I : State → Prop) (hr : M.ReachableWhen ok s c) (h : M.Steps ok c c')
    {later : List (Event Tid Op Res)} (hl : c'.history = later ++ c.history)
    (hk : ∀ c₁ e c₂, M.ReachableWhen ok s c₁ → M.Step c₁ e c₂ → e ∈ later → I c₁.state → I c₂.state)
    (hc : I c.state) : I c'.state := by
  induction h generalizing later with
  | refl => exact hc
  | @tail c₁ c₂ e hs h₁ _ ih =>
    rw [h₁.history] at hl
    obtain ⟨later', hl'⟩ := hs.history
    rw [hl', ← List.cons_append] at hl
    have hlater := List.append_cancel_right hl
    subst hlater
    exact hk c₁ e c₂ (hr.steps hs) h₁ (by simp)
      (ih hl' fun c₁ e c₂ hr h₁ he => hk c₁ e c₂ hr h₁ (List.mem_cons_of_mem _ he))

/-- What every event of a stretch of the run keeps is the same after it. -/
theorem Steps.keeps {β : Type} (get : State → β) (hr : M.ReachableWhen ok s c) (h : M.Steps ok c c')
    {later : List (Event Tid Op Res)} (hl : c'.history = later ++ c.history)
    (hk : ∀ c₁ e c₂, M.ReachableWhen ok s c₁ → M.Step c₁ e c₂ → e ∈ later → get c₂.state = get c₁.state) :
    get c'.state = get c.state :=
  h.preserves (fun s => get s = get c.state) hr hl
    (fun c₁ e c₂ hr h₁ he hi => (hk c₁ e c₂ hr h₁ he).trans hi) rfl

/-- What a turn did before an event is in the history before it. -/
theorem ReachableWhen.pre_since (h : M.ReachableWhen ok s c) {later earlier : List (Event Tid Op Res)}
    (he : c.history = later ++ e :: earlier) {p q : List (Entry Op Res)} {x : Entry Op Res}
    (hx : e.pre = p ++ x :: q) :
    ∃ mid past, earlier = mid ++ ⟨e.tid, p, x⟩ :: past ∧ SameTurn e.tid mid := by
  obtain ⟨c₁, c₂, h₁, rfl, h₃, -, -⟩ := h.event he
  exact h₁.log_since (by rw [h₃.log, hx])

theorem ReachableWhen.pre_history (h : M.ReachableWhen ok s c) {later earlier : List (Event Tid Op Res)}
    (he : c.history = later ++ e :: earlier) {p q : List (Entry Op Res)} {x : Entry Op Res}
    (hx : e.pre = p ++ x :: q) : ⟨e.tid, p, x⟩ ∈ earlier := by
  obtain ⟨mid, past, hh, -⟩ := h.pre_since he hx
  rw [hh]
  simp

theorem ReachableWhen.pre_past (h : M.ReachableWhen ok s c) (he : e ∈ c.history) {p q : List (Entry Op Res)}
    {x : Entry Op Res} (hx : e.pre = p ++ x :: q) : ⟨e.tid, p, x⟩ ∈ c.history := by
  obtain ⟨later, earlier, hh⟩ := List.append_of_mem he
  have hin := h.pre_history hh hx
  rw [hh]
  exact List.mem_append_right _ (List.mem_cons_of_mem _ hin)

theorem ReachableWhen.pre_mem (h : M.ReachableWhen ok s c) {later earlier : List (Event Tid Op Res)}
    (he : c.history = later ++ e :: earlier) {x : Entry Op Res} (hx : x ∈ e.pre) :
    ∃ g ∈ earlier, g.tid = e.tid ∧ g.act = x := by
  obtain ⟨p, q, hpre⟩ := List.append_of_mem hx
  exact ⟨_, h.pre_history he hpre, rfl, rfl⟩

/-- What a turn that began after `g` did, it did after `g`. -/
theorem ReachableWhen.pre_after (h : M.ReachableWhen ok s c) {g : Event Tid Op Res}
    {later since past : List (Event Tid Op Res)} (hh : c.history = later ++ e :: (since ++ g :: past))
    (hb : ∃ y ∈ since, y.tid = e.tid ∧ y.pre = []) {x : Entry Op Res} (hx : x ∈ e.pre) :
    ∃ c₁ c₂ p, M.ReachableWhen ok s c₁ ∧ M.Step c₁ ⟨e.tid, p, x⟩ c₂ ∧ ok c₁ ⟨e.tid, p, x⟩ ∧ g ∈ c₁.history := by
  obtain ⟨y, hy, hty, hstart⟩ := hb
  obtain ⟨p, q, hpre⟩ := List.append_of_mem hx
  obtain ⟨mid, past', hmid, hturn⟩ := h.pre_since hh hpre
  have hlate : ∀ between, mid ≠ since ++ between := fun between hs =>
    hturn y (by rw [hs]; exact List.mem_append_left _ hy) hty hstart
  have hh' : c.history = (later ++ e :: mid) ++ ⟨e.tid, p, x⟩ :: past' := by
    rw [hh, hmid]
    simp
  obtain ⟨c₁, c₂, h₁, hh₁, hs, hk, -⟩ := h.event hh'
  refine ⟨c₁, c₂, p, h₁, hs, hk, ?_⟩
  rcases Prog.split_cases hmid with ⟨hsame, -, -⟩ | ⟨between, hafter, -⟩ | ⟨between, -, hbefore⟩
  · exact absurd (hsame.symm.trans (List.append_nil _).symm) (hlate [])
  · exact absurd hafter (hlate _)
  · rw [hh₁, hbefore]
    simp

/-- **The last write**: a part of the state that each operation writes or leaves
has its first value until it is written, and then the value last written. -/
theorem ReachableWhen.last_write (h : M.ReachableWhen ok s c) {β : Type} (get : State → β) (writes : Op → Option β)
    (hstep : ∀ s x s', M.step s x = some s' → get s' = (writes x.op).getD (get s)) :
    ((∀ e ∈ c.history, writes e.act.op = none) ∧ get c.state = get s) ∨
      ∃ later e earlier, c.history = later ++ e :: earlier ∧ (∀ e' ∈ later, writes e'.act.op = none) ∧
        writes e.act.op = some (get c.state) := by
  induction h with
  | init => exact .inl ⟨by simp [Machine.init], rfl⟩
  | @step c c' e _ hs _ ih =>
    have hget := hstep _ _ _ hs.state
    rw [hs.history]
    cases hw : writes e.act.op with
    | some b =>
      rw [hw, Option.getD_some] at hget
      exact .inr ⟨[], e, c.history, rfl, by simp, by rw [hw, hget]⟩
    | none =>
      rw [hw, Option.getD_none] at hget
      rcases ih with ⟨hall, hsame⟩ | ⟨later, e₁, earlier, hh, hlater, he⟩
      · exact .inl ⟨by simpa [hw] using hall, hget.trans hsame⟩
      · exact .inr ⟨e :: later, e₁, earlier, by rw [hh, List.cons_append], by simpa [hw] using hlater,
          by rw [he, hget]⟩

/-- **The rest of a turn.** After an event, its turn went on with `q`, all of it
later, and is still at that point or has returned. -/
theorem ReachableWhen.turn_after (h : M.ReachableWhen ok s c) {later earlier : List (Event Tid Op Res)}
    (he : c.history = later ++ e :: earlier) :
    ∃ q, (∀ a x b, q = a ++ x :: b → ⟨e.tid, e.pre ++ e.act :: a, x⟩ ∈ later) ∧
      ((c.threads e.tid).log = e.pre ++ e.act :: q ∨ (M.body e.tid).Runs (e.pre ++ e.act :: q) ()) := by
  induction h generalizing later with
  | init => simp [Machine.init] at he
  | @step c c' e' hr hs hk ih =>
    rw [hs.history] at he
    cases later with
    | nil =>
      simp only [List.nil_append, List.cons.injEq] at he
      obtain ⟨rfl, rfl⟩ := he
      refine ⟨[], by simp, ?_⟩
      rcases hs.turn hr with ⟨hl, -⟩ | ⟨-, hl⟩
      · exact .inl hl
      · exact .inr hl
    | cons x later =>
      simp only [List.cons_append, List.cons.injEq] at he
      obtain ⟨rfl, he⟩ := he
      obtain ⟨q, hq, hl⟩ := ih he
      have hq' : ∀ a x b, q = a ++ x :: b → ⟨e.tid, e.pre ++ e.act :: a, x⟩ ∈ e' :: later :=
        fun a x b hab => List.mem_cons_of_mem _ (hq a x b hab)
      rcases hl with hl | hl
      · by_cases ht : e.tid = e'.tid
        · have hpre : e'.pre = e.pre ++ e.act :: q := by rw [← hs.log, ← ht, hl]
          have hadd : e'.pre ++ [e'.act] = e.pre ++ e.act :: (q ++ [e'.act]) := by simp [hpre]
          refine ⟨q ++ [e'.act], fun a x b hab => ?_, ?_⟩
          · rcases List.eq_nil_or_concat b with rfl | ⟨b, y, rfl⟩
            · obtain ⟨rfl, hx⟩ := List.append_inj' hab rfl
              cases hx
              rw [ht, ← hpre]
              simp
            · rw [List.concat_eq_append, ← List.cons_append, ← List.append_assoc] at hab
              exact hq' a x b (List.append_inj' hab rfl).1
          · rcases hs.turn hr with ⟨hl', -⟩ | ⟨-, hl'⟩
            · exact .inl (by rw [ht, hl', hadd])
            · exact .inr (by rw [ht, ← hadd]; exact hl')
        · exact ⟨q, hq', .inl (by rw [hs.other ht, hl])⟩
      · exact ⟨q, hq', .inr hl⟩

/-! ## Going on -/

/-- The state after these operations, if it allows them. -/
def stepAll (M : Machine Tid Op Res State) (s : State) : List (Entry Op Res) → Option State
  | [] => some s
  | x :: l => (M.step s x).bind fun s' => M.stepAll s' l

omit [DecidableEq Tid] in
theorem stepAll_cons {x : Entry Op Res} {l : List (Entry Op Res)} {s' : State} :
    M.stepAll s (x :: l) = some s' ↔ ∃ s₁, M.step s x = some s₁ ∧ M.stepAll s₁ l = some s' :=
  Option.bind_eq_some_iff

omit [DecidableEq Tid] in
theorem stepAll_append {l m : List (Entry Op Res)} {s' : State} :
    M.stepAll s (l ++ m) = some s' ↔ ∃ s₁, M.stepAll s l = some s₁ ∧ M.stepAll s₁ m = some s' := by
  induction l generalizing s with
  | nil => simp [stepAll]
  | cons x l ih =>
    simp only [List.cons_append, stepAll_cons, ih]
    constructor
    · rintro ⟨s₁, hx, s₂, hl, hm⟩
      exact ⟨s₂, ⟨s₁, hx, hl⟩, hm⟩
    · rintro ⟨s₂, ⟨s₁, hx, hl⟩, hm⟩
      exact ⟨s₁, hx, s₂, hl, hm⟩

omit [DecidableEq Tid] in
/-- What each of the operations preserves holds after them. -/
theorem stepAll_preserves (I : State → Prop) {l : List (Entry Op Res)} {s' : State} (h : M.stepAll s l = some s')
    (hk : ∀ s x s', x ∈ l → M.step s x = some s' → I s → I s') (hs : I s) : I s' := by
  induction l generalizing s with
  | nil =>
    obtain rfl := Option.some.inj h
    exact hs
  | cons x l ih =>
    obtain ⟨s₁, hx, hl⟩ := stepAll_cons.mp h
    exact ih hl (fun s x s' hx => hk s x s' (List.mem_cons_of_mem _ hx)) (hk s x s₁ (by simp) hx hs)

/-- Run alone from a state, whatever its operations give, `p` does only what `P`
allows and keeps `I`. -/
def Alone (M : Machine Tid Op Res State) {α : Type} (I : State → Prop) (P : Entry Op Res → Prop) :
    Prog Op Res α → State → Prop
  | .ret _, _ => True
  | .op o k, s => ∀ r s', M.step s ⟨o, r⟩ = some s' → P ⟨o, r⟩ ∧ I s' ∧ M.Alone I P (k r) s'
  | .terminate, _ => True

omit [DecidableEq Tid] in
theorem alone_iff {α : Type} {I : State → Prop} {P : Entry Op Res → Prop} {p : Prog Op Res α} (hs : I s) :
    M.Alone I P p s ↔ ∀ l q s', p.Path l q → M.stepAll s l = some s' → I s' ∧ ∀ x ∈ l, P x := by
  induction p generalizing s with
  | ret a =>
    refine iff_of_true trivial fun l q s' hp hl => ?_
    obtain ⟨rfl, -⟩ := Prog.path_ret.mp hp
    obtain rfl := Option.some.inj hl
    exact ⟨hs, by simp⟩
  | op o k ih =>
    constructor
    · intro h l q s' hp hl
      rcases Prog.path_op.mp hp with ⟨rfl, -⟩ | ⟨r, l, rfl, hrest⟩
      · obtain rfl := Option.some.inj hl
        exact ⟨hs, by simp⟩
      · obtain ⟨s₁, hx, hl⟩ := stepAll_cons.mp hl
        obtain ⟨hP, hI, hk⟩ := h r s₁ hx
        obtain ⟨hs', hall⟩ := (ih r hI).mp hk l q s' hrest hl
        exact ⟨hs', by simpa using ⟨hP, hall⟩⟩
    · intro h r s₁ hx
      have hone := h [⟨o, r⟩] (k r) s₁ (.cons .nil) (stepAll_cons.mpr ⟨s₁, hx, rfl⟩)
      refine ⟨hone.2 _ (by simp), hone.1, (ih r hone.1).mpr fun l q s' hp hl => ?_⟩
      obtain ⟨hs', hall⟩ := h (⟨o, r⟩ :: l) q s' (.cons hp) (stepAll_cons.mpr ⟨s₁, hx, hl⟩)
      exact ⟨hs', fun x hx => hall x (List.mem_cons_of_mem _ hx)⟩
  | terminate =>
    refine iff_of_true trivial fun l q s' hp hl => ?_
    obtain ⟨rfl, -⟩ := Prog.path_terminate.mp hp
    obtain rfl := Option.some.inj hl
    exact ⟨hs, by simp⟩

/-- A thread can go along a path of what is left of its turn, to a further
operation, when the state allows it and the others stand still. -/
theorem ReachableWhen.go_on (h : M.ReachableWhen ok s c) (hc : c.crashed = false) {t : Tid}
    {l : List (Entry Op Res)} {o : Op} {k : Res o → Prog Op Res Unit} {s' : State}
    (hp : (c.threads t).rest.Path l (.op o k)) (hs : M.stepAll c.state l = some s')
    (hok : ∀ c e, e.tid = t → e.act ∈ l → ok c e) :
    ∃ c', M.ReachableWhen ok s c' ∧ c'.crashed = false ∧ c'.state = s' ∧
      c'.threads t = ⟨.op o k, (c.threads t).log ++ l⟩ := by
  induction l generalizing c with
  | nil =>
    obtain rfl := Option.some.inj hs
    rcases Prog.Path.det hp .nil with hrest
    exact ⟨c, h, hc, rfl, by rw [List.append_nil, hrest]⟩
  | cons x l ih =>
    obtain ⟨ox, r⟩ := x
    simp only [stepAll, Option.bind_eq_some_iff] at hs
    obtain ⟨s₁, hs₁, hs⟩ := hs
    generalize hrest : (c.threads t).rest = p at hp
    cases hp with
    | @cons _ k' _ _ _ hp =>
      have hstep := Step.mk hc hrest hs₁
      have hop : ∃ o₁ k₁, k' r = .op o₁ k₁ := by
        cases hk : k' r with
        | op o₁ k₁ => exact ⟨o₁, k₁, rfl⟩
        | ret => rw [hk, Prog.path_ret] at hp; cases hp.2
        | terminate => rw [hk, Prog.path_terminate] at hp; cases hp.2
      obtain ⟨o₁, k₁, hk⟩ := hop
      have hthread : (M.after c t ⟨ox, r⟩ (k' r) s₁).threads t = ⟨k' r, (c.threads t).log ++ [⟨ox, r⟩]⟩ := by
        simp only [after, Function.update_self, hk, resume]
      obtain ⟨c', hr, hc', hst, hth⟩ := ih (.step h hstep (hok _ _ rfl (by simp)))
        (by simp [after, hk, Prog.isTerminate])
        (by rw [hthread]; exact hp) hs fun c e ht he => hok c e ht (List.mem_cons_of_mem _ he)
      exact ⟨c', hr, hc', hst, by rw [hth, hthread, List.append_assoc]; rfl⟩

/-! ## Running a schedule -/

variable [DecidableEq Op]

/-- Thread `t` does `x` next, when that is what it issues and the state
allows the result. -/
def exec (M : Machine Tid Op Res State) (c : Config Tid Op Res State) (t : Tid) (x : Entry Op Res) :
    Option (Config Tid Op Res State) :=
  if c.crashed then none
  else match (c.threads t).rest with
    | .op o k =>
      if h : x.op = o then (M.step c.state x).map (M.after c t x (k (h ▸ x.res)))
      else none
    | _ => none

/-- The threads do these operations in this order, each of which must pass `check`. -/
def execAll (M : Machine Tid Op Res State) (check : Config Tid Op Res State → Event Tid Op Res → Bool)
    (c : Config Tid Op Res State) : List (Tid × Entry Op Res) → Option (Config Tid Op Res State)
  | [] => some c
  | (t, x) :: l =>
    if check c ⟨t, (c.threads t).log, x⟩ then (M.exec c t x).bind fun c' => M.execAll check c' l else none

theorem exec_step {t : Tid} {x : Entry Op Res} (h : M.exec c t x = some c') :
    M.Step c ⟨t, (c.threads t).log, x⟩ c' := by
  obtain ⟨o', r⟩ := x
  simp only [exec] at h
  split at h
  · cases h
  · rename_i hc
    split at h
    · rename_i o k hrest
      split at h
      · rename_i heq
        subst heq
        simp only [Option.map_eq_some_iff] at h
        obtain ⟨s, hs, rfl⟩ := h
        exact .mk (by simpa using hc) hrest hs
      · cases h
    · cases h

theorem ReachableWhen.execAll_from {check : Config Tid Op Res State → Event Tid Op Res → Bool}
    {l₀ l : List (Tid × Entry Op Res)} (hl : ∀ y ∈ l, y ∈ l₀)
    (hok : ∀ c e, (e.tid, e.act) ∈ l₀ → M.ReachableWhen ok s c → (∀ e ∈ c.history, (e.tid, e.act) ∈ l₀) →
      (c.threads e.tid).log = e.pre → check c e = true → ok c e)
    (hr : M.ReachableWhen ok s c) (hh : ∀ e ∈ c.history, (e.tid, e.act) ∈ l₀) (h : M.execAll check c l = some c') :
    M.ReachableWhen ok s c' := by
  induction l generalizing c with
  | nil => cases h; exact hr
  | cons y l ih =>
    obtain ⟨t, x⟩ := y
    simp only [Machine.execAll, Option.ite_none_right_eq_some, Option.bind_eq_some_iff] at h
    obtain ⟨hcheck, c₁, h₁, h₂⟩ := h
    have hs := exec_step h₁
    have hmem := hl (t, x) (by simp)
    refine ih (fun y hy => hl y (List.mem_cons_of_mem _ hy)) (.step hr hs (hok _ _ hmem hr hh rfl hcheck)) ?_ h₂
    rw [hs.history]
    intro e he
    rcases List.mem_cons.mp he with rfl | he
    · exact hmem
    · exact hh e he

/-- A schedule runs through reachable configurations when each of its
operations, after any part of the schedule and passing `check`, meets `ok`. -/
theorem ReachableWhen.execAll {check : Config Tid Op Res State → Event Tid Op Res → Bool}
    {l : List (Tid × Entry Op Res)}
    (hok : ∀ c e, (e.tid, e.act) ∈ l → M.ReachableWhen ok s c → (∀ e ∈ c.history, (e.tid, e.act) ∈ l) →
      (c.threads e.tid).log = e.pre → check c e = true → ok c e)
    (h : M.execAll check (M.init s) l = some c') : M.ReachableWhen ok s c' :=
  .execAll_from (fun _ hy => hy) hok .init (by simp [Machine.init]) h

end Machine

end Interleave
