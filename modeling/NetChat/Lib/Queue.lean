/-
First-in first-out queues in the state of a machine, and what threads carry
from one to the next. Each operation appends an element to a queue, takes
the first, empties it or leaves it alone: what was taken and what is left is
then, in order, what was appended, but for what an emptying dropped
(`IsQueue.steps` over a stretch of a run in which nothing empties it,
`IsQueue.sublist` over any run). A thread that gives away in a turn, in
order, all it took in the turn has given away, over any run, what it took,
but for what it holds (`Accounts.run`).
-/
import NetChat.Lib.Threads

namespace Interleave

/-- What an operation does to a queue. -/
inductive QueueAct (α : Type)
  | push (a : α)
  | pop (a : α)
  | clear
  | leave

/-- The queue after an operation, if it allows it. -/
def QueueAct.Acts {α : Type} (q : List α) : QueueAct α → List α → Prop
  | .push a, q' => q' = q ++ [a]
  | .pop a, q' => q = a :: q'
  | .clear, q' => q' = []
  | .leave, q' => q' = q

def QueueAct.pushed {α : Type} : QueueAct α → List α
  | .push a => [a]
  | _ => []

def QueueAct.popped {α : Type} : QueueAct α → List α
  | .pop a => [a]
  | _ => []

/-- What an operation takes and leaves is what was there and what it appends. -/
theorem QueueAct.Acts.balance {α : Type} {q q' : List α} {a : QueueAct α} (h : a.Acts q q') (hclear : a ≠ .clear) :
    a.popped ++ q' = q ++ a.pushed := by
  cases a with
  | push | pop | leave =>
    simp only [Acts] at h
    simp [h, popped, pushed]
  | clear => exact absurd rfl hclear

theorem QueueAct.Acts.sublist {α : Type} {q q' : List α} {a : QueueAct α} (h : a.Acts q q') :
    (a.popped ++ q').Sublist (q ++ a.pushed) := by
  cases a with
  | clear =>
    simp only [Acts] at h
    simp [h, popped]
  | push | pop | leave =>
    exact h.balance (by simp) ▸ List.Sublist.refl _

namespace Machine

variable {Tid Op : Type} {Res : Op → Type} {State α : Type}

/-! ## In order -/

/-- What `f` gives of the events of a history, which is latest first, in the order
in which they happened. -/
def inOrder (f : Event Tid Op Res → List α) (h : List (Event Tid Op Res)) : List α := h.reverse.flatMap f

@[simp] theorem inOrder_nil (f : Event Tid Op Res → List α) : inOrder f [] = [] := rfl

@[simp] theorem inOrder_cons (f : Event Tid Op Res → List α) (e : Event Tid Op Res) (h : List (Event Tid Op Res)) :
    inOrder f (e :: h) = inOrder f h ++ f e := by
  simp [inOrder]

theorem inOrder_append (f : Event Tid Op Res → List α) (h h' : List (Event Tid Op Res)) :
    inOrder f (h ++ h') = inOrder f h' ++ inOrder f h := by
  simp [inOrder]

theorem inOrder_congr {f g : Event Tid Op Res → List α} {h : List (Event Tid Op Res)}
    (hfg : ∀ e ∈ h, f e = g e) : inOrder f h = inOrder g h := by
  induction h with
  | nil => rfl
  | cons e h ih =>
    rw [inOrder_cons, inOrder_cons, hfg e (by simp), ih fun y hy => hfg y (List.mem_cons_of_mem _ hy)]

/-- What was appended, in order. -/
def pushed (act : Entry Op Res → QueueAct α) : List (Event Tid Op Res) → List α := inOrder fun e => (act e.act).pushed

/-- What was taken, in order. -/
def popped (act : Entry Op Res → QueueAct α) : List (Event Tid Op Res) → List α := inOrder fun e => (act e.act).popped

/-! ## Queues -/

/-- The part `get` of the state is a queue, on which an operation does `act`. -/
def IsQueue (M : Machine Tid Op Res State) (get : State → List α) (act : Entry Op Res → QueueAct α) : Prop :=
  ∀ s x s', M.step s x = some s' → (act x).Acts (get s) (get s')

variable [DecidableEq Tid] {M : Machine Tid Op Res State} {ok : Config Tid Op Res State → Event Tid Op Res → Prop}
  {s : State} {c c' : Config Tid Op Res State} {get : State → List α} {act : Entry Op Res → QueueAct α}

/-- **Nothing is lost, doubled or overtaken** while nothing empties the queue. -/
theorem IsQueue.steps (hq : M.IsQueue get act) (h : M.Steps ok c c') {later : List (Event Tid Op Res)}
    (hl : c'.history = later ++ c.history) (hclear : ∀ e ∈ later, act e.act ≠ .clear) :
    popped act later ++ get c'.state = get c.state ++ pushed act later := by
  induction h generalizing later with
  | refl =>
    obtain rfl := List.append_cancel_right (hl.symm.trans (List.nil_append _).symm)
    simp [popped, pushed]
  | @tail c₁ c₂ e hs h₁ _ ih =>
    rw [h₁.history] at hl
    obtain ⟨later', hl'⟩ := hs.history
    rw [hl', ← List.cons_append] at hl
    obtain rfl := List.append_cancel_right hl
    have ih := ih hl' fun y hy => hclear y (List.mem_cons_of_mem _ hy)
    have hact := (hq _ _ _ h₁.state).balance (hclear e (by simp))
    simp only [popped, pushed, inOrder_cons] at ih ⊢
    rw [List.append_assoc, hact, ← List.append_assoc, ih, List.append_assoc]

/-- The same of a whole run that begins with the queue empty. -/
theorem IsQueue.whole (hq : M.IsQueue get act) (h : M.ReachableWhen ok s c) (hs : get s = [])
    (hclear : ∀ e ∈ c.history, act e.act ≠ .clear) : popped act c.history ++ get c.state = pushed act c.history := by
  have hwhole := hq.steps h.steps_init (List.append_nil _).symm hclear
  rwa [show get (M.init s).state = [] from hs, List.nil_append] at hwhole

/-- **What is taken and what is left was appended**, each once and in this order. -/
theorem IsQueue.sublist (hq : M.IsQueue get act) (h : M.ReachableWhen ok s c) (hs : get s = []) :
    (popped act c.history ++ get c.state).Sublist (pushed act c.history) := by
  induction h with
  | init => simp [popped, pushed, Machine.init, hs]
  | @step c c' e _ hs _ ih =>
    have hact := (hq _ _ _ hs.state).sublist
    rw [hs.history]
    simp only [popped, pushed, inOrder_cons] at ih ⊢
    rw [List.append_assoc]
    refine ((List.Sublist.refl _).append hact).trans ?_
    rw [← List.append_assoc]
    exact ih.append (List.Sublist.refl _)

/-! ## What a thread holds -/

/-- What `f` gives of what thread `t` did, in order. -/
def did (t : Tid) (f : Entry Op Res → List α) : List (Event Tid Op Res) → List α :=
  inOrder fun e => if e.tid = t then f e.act else []

/-- What no other thread does, thread `t` did. -/
theorem did_eq {t : Tid} {f : Entry Op Res → List α} {h : List (Event Tid Op Res)}
    (hf : ∀ e ∈ h, f e.act ≠ [] → e.tid = t) : did t f h = inOrder (fun e => f e.act) h :=
  inOrder_congr fun e he => by
    by_cases ht : e.tid = t
    · rw [if_pos ht]
    · rw [if_neg ht]
      by_contra hne
      exact ht (hf e he (Ne.symm hne))

/-- After the log `l` of a turn thread `t` holds `hold l`: what its operations take in,
less what they give out, in order, and by the end of the turn nothing. -/
structure Accounts (M : Machine Tid Op Res State) (t : Tid) (takes gives : Entry Op Res → List α)
    (hold : List (Entry Op Res) → List α) : Prop where
  start : hold [] = []
  step : ∀ l x, (M.body t).Issues l x.op → hold l ++ takes x = gives x ++ hold (l ++ [x])
  turn : ∀ l, (M.body t).Runs l () → hold l = []

/-- **Over any run a thread gave out what it took in**, but for what it holds. -/
theorem Accounts.run {t : Tid} {takes gives : Entry Op Res → List α} {hold : List (Entry Op Res) → List α}
    (ha : M.Accounts t takes gives hold) (h : M.ReachableWhen ok s c) :
    did t takes c.history = did t gives c.history ++ hold (c.threads t).log := by
  induction h with
  | init => exact ha.start.symm
  | @step c c' e hr hs _ ih =>
    rw [hs.history]
    simp only [did, inOrder_cons] at ih ⊢
    rw [ih]
    by_cases ht : e.tid = t
    · subst ht
      have hstep := ha.step _ _ (hs.issues hr)
      have hnow : hold (c'.threads e.tid).log = hold (e.pre ++ [e.act]) := by
        rcases hs.turn hr with ⟨hl, -⟩ | ⟨hl, hrun⟩
        · rw [hl]
        · rw [hl, ha.start, ha.turn _ hrun]
      rw [if_pos rfl, if_pos rfl, hnow, hs.log, List.append_assoc, hstep, List.append_assoc]
    · rw [if_neg ht, if_neg ht, hs.other (Ne.symm ht)]
      simp

end Machine

end Interleave
