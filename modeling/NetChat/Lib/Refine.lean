/-
Operations carried out by smaller ones, and why the threads cannot tell. An
operation of a machine is implemented by a program over the operations of
another: the threads interleave inside it. When each implementation, whatever
the other threads do in between, takes effect at one of its steps as the
operation would, every run of the implemented machine is a run of the first
(`Coupling.refines`), with the same observable operations in the same order.

What the others may do in between is a relation a thread relies on; each step
of a thread must keep what every other relies on. `Along` is what is asked of an
implementation at a point of its text; it is closed under the relied-on
relation, so it is proved along the text alone.
-/
import NetChat.Lib.Threads

namespace Interleave

/-- How an operation is carried out: `act` takes effect with its last step and
gives the result, or gives up, and the turn with it; `fin` is what is left to
do then. -/
structure Impl (Op : Type) (Res : Op → Type) (α : Type) where
  act : Prog Op Res (Option α)
  fin : α → Prog Op Res Unit

variable {Tid Op Op' : Type} {Res : Op → Type} {Res' : Op' → Type} {State State' Obs : Type}

/-- What follows the `act` of an operation. -/
def Impl.next {α : Type} (i : Impl Op' Res' α) (k : α → Prog Op' Res' Unit) (out : Option α) : Prog Op' Res' Unit :=
  out.elim (.ret ()) fun r => (i.fin r).bind fun _ => k r

/-- `p` with its operations carried out by their implementations. -/
def Prog.implement (impl : (o : Op) → Impl Op' Res' (Res o)) : Prog Op Res Unit → Prog Op' Res' Unit
  | .ret _ => .ret ()
  | .op o k => (impl o).act.bind ((impl o).next fun r => (k r).implement impl)
  | .terminate => .terminate

/-- The machine with its operations carried out by their implementations, which may
depend on the thread. -/
def Machine.implement (M : Machine Tid Op Res State) (impl : Tid → (o : Op) → Impl Op' Res' (Res o))
    (step : State' → Entry Op' Res' → Option State') : Machine Tid Op' Res' State' where
  body t := (M.body t).implement (impl t)
  step := step

/-- How the two machines go together: which states, what a thread relies on the others
to keep of the two, what it must find before each of its steps, what it has between two
operations, having done those of its log, and what is seen from outside. -/
structure Coupling (M : Machine Tid Op Res State) (Op' : Type) (Res' : Op' → Type) (State' Obs : Type) where
  impl : Tid → (o : Op) → Impl Op' Res' (Res o)
  step : State' → Entry Op' Res' → Option State'
  inv : State' → State → Prop
  rely : Tid → State' × State → State' × State → Prop
  pre : Tid → Op' → State' → Prop
  between : Tid → List (Entry Op Res) → State' → State → Prop
  seen : Entry Op Res → Option Obs
  seen' : Entry Op' Res' → Option Obs
  rely_refl : ∀ t x, rely t x x
  rely_trans : ∀ t x y z, rely t x y → rely t y z → rely t x z
  between_rely : ∀ t l σ s σ' s', between t l σ s → rely t (σ, s) (σ', s') → between t l σ' s'

namespace Coupling

variable {M : Machine Tid Op Res State} (C : Coupling M Op' Res' State' Obs)

/-- The implemented machine. -/
def machine : Machine Tid Op' Res' State' := M.implement C.impl C.step

/-- A step of `t` keeps what the others rely on. -/
def Keeps (t : Tid) (x y : State' × State) : Prop := ∀ t', t' ≠ t → C.rely t' x y

/-- What a step that leaves a thread with `p` shows, when the value `p` returns shows `sees`. -/
def shows {α : Type} (sees : α → Option Obs) : Prog Op' Res' α → Option Obs
  | .ret a => sees a
  | _ => none

theorem shows_none {α : Type} (p : Prog Op' Res' α) : shows (fun _ => (none : Option Obs)) p = none := by
  cases p <;> rfl

/-- `t` may go on with `p`, whatever the others do, and when `p` returns has `Q`. -/
def Along {α : Type} (t : Tid) (sees : α → Option Obs) (Q : α → State' → State → Prop) :
    Prog Op' Res' α → State' → State → Prop
  | .ret a, σ, s => Q a σ s
  | .op o k, σ, s => C.inv σ s ∧ ∀ σ₁ s₁, C.rely t (σ, s) (σ₁, s₁) → C.inv σ₁ s₁ → C.pre t o σ₁ ∧
      ∀ r σ₂, C.step σ₁ ⟨o, r⟩ = some σ₂ →
        C.seen' ⟨o, r⟩ = shows sees (k r) ∧ C.Keeps t (σ₁, s₁) (σ₂, s₁) ∧ Along t sees Q (k r) σ₂ s₁
  | .terminate, _, _ => False

/-- What `t` has once it did the operations of `l` and all that belongs to them. -/
def Done (t : Tid) (l : List (Entry Op Res)) (_ : Unit) (σ : State') (s : State) : Prop := C.inv σ s ∧ C.between t l σ s

/-- What is asked of `fin`, after the operations of `l`. -/
abbrev Finishing (t : Tid) (l : List (Entry Op Res)) : Prog Op' Res' Unit → State' → State → Prop :=
  C.Along t (fun _ => none) (C.Done t l)

/-- The operation takes effect in the state that is stood for, or `t` gives up. -/
def Effect (t : Tid) (l : List (Entry Op Res)) (o : Op) : Option (Res o) → State' → State → Prop
  | none, σ, s => l = [] ∧ C.Done t [] () σ s
  | some r, σ, s => ∃ s', M.step s ⟨o, r⟩ = some s' ∧ C.Keeps t (σ, s) (σ, s') ∧
      C.Finishing t (l ++ [⟨o, r⟩]) ((C.impl t o).fin r) σ s'

/-- What is asked of `act`, where `t` issues `o` after the operations of `l`. -/
abbrev Acting (t : Tid) (l : List (Entry Op Res)) (o : Op) : Prog Op' Res' (Option (Res o)) → State' → State → Prop :=
  C.Along t (fun out => out.bind fun r => C.seen ⟨o, r⟩) (C.Effect t l o)

/-- Every operation is implemented: where a thread issues it, with what the thread has
there, its implementation does what is asked of it. -/
structure Implements : Prop where
  body_op : ∀ t, ∃ o k, M.body t = .op o k
  act_op : ∀ t o, ∃ o' k, (C.impl t o).act = .op o' k
  acts : ∀ t l o σ s, (M.body t).Issues l o → C.between t l σ s → C.inv σ s → C.Acting t l o (C.impl t o).act σ s
  turn : ∀ t l σ s, (M.body t).Runs l () → C.between t l σ s → C.between t [] σ s
  /-- An operation after which a thread may terminate has nothing left to do. -/
  last : ∀ t l o r, (M.body t).Path (l ++ [⟨o, r⟩]) .terminate → (C.impl t o).fin r = .ret ()

variable {C} {t : Tid} {l : List (Entry Op Res)} {σ σ' : State'} {s s' : State}

theorem Along.rely {α : Type} {sees : α → Option Obs} {Q : α → State' → State → Prop} {o : Op'}
    {k : Res' o → Prog Op' Res' α} (h : C.Along t sees Q (.op o k) σ s) (hr : C.rely t (σ, s) (σ', s'))
    (hi : C.inv σ' s') : C.Along t sees Q (.op o k) σ' s' :=
  ⟨hi, fun σ₁ s₁ h₁ => h.2 σ₁ s₁ (C.rely_trans _ _ _ _ hr h₁)⟩

variable (C) in
/-- A thread of the implemented machine, left with the first program, and the thread of
the machine it stands for: in the `act` of the operation that one issues next, or in the
`fin` of the one it issued last. -/
inductive CoupledThread (t : Tid) (σ : State') (s : State) : Prog Op' Res' Unit → Thread Op Res → Prop
  | acting {l : List (Entry Op Res)} {o : Op} {k : Res o → Prog Op Res Unit} {o' : Op'}
      {k' : Res' o' → Prog Op' Res' (Option (Res o))} :
      C.Acting t l o (.op o' k') σ s →
      CoupledThread t σ s ((Prog.op o' k').bind ((C.impl t o).next fun r => (k r).implement (C.impl t))) ⟨.op o k, l⟩
  | finishing {l : List (Entry Op Res)} {p : Prog Op Res Unit} {o' : Op'} {k' : Res' o' → Prog Op' Res' Unit} :
      C.Finishing t l (.op o' k') σ s → (M.body t).Path l p → p.isTerminate = false →
      CoupledThread t σ s ((Prog.op o' k').bind fun _ => p.implement (C.impl t)) (M.resume t l p)

variable (C) in
/-- What is seen of a run, latest first. -/
def observed (h : List (Event Tid Op Res)) : List (Tid × Obs) := h.filterMap fun e => (C.seen e.act).map (e.tid, ·)

variable (C) in
def observed' (h : List (Event Tid Op' Res')) : List (Tid × Obs) :=
  h.filterMap fun e => (C.seen' e.act).map (e.tid, ·)

variable (C) in
/-- A configuration of the implemented machine and one of the machine that it stands for. -/
structure Coupled (c' : Config Tid Op' Res' State') (c : Config Tid Op Res State) : Prop where
  crashed : c'.crashed = c.crashed
  observed : C.observed' c'.history = C.observed c.history
  inv : c'.crashed = false → C.inv c'.state c.state
  threads : c'.crashed = false → ∀ t, C.CoupledThread t c'.state c.state (c'.threads t).rest (c.threads t)

theorem CoupledThread.rely {p : Prog Op' Res' Unit} {th : Thread Op Res} (h : C.CoupledThread t σ s p th)
    (hr : C.rely t (σ, s) (σ', s')) (hi : C.inv σ' s') : C.CoupledThread t σ' s' p th := by
  cases h with
  | acting h => exact .acting (h.rely hr hi)
  | finishing h hp hterm => exact .finishing (h.rely hr hi) hp hterm

/-- A thread about to issue an operation. -/
theorem CoupledThread.ready (hC : C.Implements) {o : Op} {k : Res o → Prog Op Res Unit}
    (hp : (M.body t).Path l (.op o k)) (hb : C.between t l σ s) (hi : C.inv σ s) :
    C.CoupledThread t σ s ((Prog.op o k).implement (C.impl t)) ⟨.op o k, l⟩ := by
  obtain ⟨o', k', hact⟩ := hC.act_op t o
  have ha := hC.acts t l o σ s ⟨k, hp⟩ hb hi
  rw [hact] at ha
  rw [Prog.implement, hact]
  exact .acting ha

/-- A thread about to begin a turn. -/
theorem CoupledThread.again (hC : C.Implements) (hb : C.between t [] σ s) (hi : C.inv σ s) :
    C.CoupledThread t σ s ((M.body t).implement (C.impl t)) ⟨M.body t, []⟩ := by
  obtain ⟨o, k, hbody⟩ := hC.body_op t
  rw [hbody]
  exact .ready hC (by rw [hbody]; exact .nil) hb hi

/-- A thread between two operations, or two turns. -/
theorem CoupledThread.start (hC : C.Implements) {p : Prog Op Res Unit} {log : List (Entry Op' Res')}
    (hp : (M.body t).Path l p) (hterm : p.isTerminate = false) (hb : C.between t l σ s) (hi : C.inv σ s) :
    C.CoupledThread t σ s (C.machine.resume t log (p.implement (C.impl t))).rest (M.resume t l p) := by
  cases p with
  | op o k =>
    have hready := CoupledThread.ready hC hp hb hi
    obtain ⟨o', k', hact⟩ := hC.act_op t o
    rw [Prog.implement, hact] at hready ⊢
    exact hready
  | ret a => exact .again hC (hC.turn t l σ s hp hb) hi
  | terminate => cases hterm

theorem implement_isTerminate (hC : C.Implements) {p : Prog Op Res Unit} :
    (p.implement (C.impl t)).isTerminate = p.isTerminate := by
  cases p with
  | op o k =>
    obtain ⟨o', k', hact⟩ := hC.act_op t o
    rw [Prog.implement, hact]
    rfl
  | ret | terminate => rfl

theorem observed'_cons {e : Event Tid Op' Res'} {h : List (Event Tid Op' Res')} :
    C.observed' (e :: h) = ((C.seen' e.act).map (e.tid, ·)).toList ++ C.observed' h := by
  unfold observed'
  rw [List.filterMap_cons]
  cases C.seen' e.act <;> rfl

theorem observed_cons {e : Event Tid Op Res} {h : List (Event Tid Op Res)} :
    C.observed (e :: h) = ((C.seen e.act).map (e.tid, ·)).toList ++ C.observed h := by
  unfold observed
  rw [List.filterMap_cons]
  cases C.seen e.act <;> rfl

variable {s₀ : State} {σ₀ : State'} {c : Config Tid Op Res State} {c' c₁' : Config Tid Op' Res' State'}
  {e' : Event Tid Op' Res'}

/-- A thread finds what it must before its next step. -/
theorem Coupled.pre (hc : C.Coupled c' c) (hrun : c'.crashed = false) {o : Op'} {k : Res' o → Prog Op' Res' Unit}
    (hrest : (c'.threads t).rest = .op o k) : C.pre t o c'.state := by
  have hth := hc.threads hrun t
  rw [hrest] at hth
  generalize hp : Prog.op o k = p at hth
  generalize c.threads t = ct at hth
  cases hth with
  | acting ha =>
    rw [Prog.op_bind] at hp
    obtain ⟨rfl, -⟩ := Prog.op.inj hp
    exact (ha.2 _ _ (C.rely_refl _ _) (hc.inv hrun)).1
  | finishing hf =>
    rw [Prog.op_bind] at hp
    obtain ⟨rfl, -⟩ := Prog.op.inj hp
    exact (hf.2 _ _ (C.rely_refl _ _) (hc.inv hrun)).1

/-- Every thread has a next step. -/
theorem Coupled.next (hc : C.Coupled c' c) (hrun : c'.crashed = false) (t : Tid) :
    ∃ o k, (c'.threads t).rest = .op o k := by
  have hth := hc.threads hrun t
  generalize (c'.threads t).rest = p at hth ⊢
  generalize c.threads t = ct at hth
  cases hth with
  | acting | finishing => exact ⟨_, _, rfl⟩

section
variable [DecidableEq Tid]

/-- The thread that moved and the others, once the step is made. -/
theorem threads_after {f : Tid → Thread Op' Res'} {g : Tid → Thread Op Res} {th' : Thread Op' Res'} {th : Thread Op Res}
    (hold : ∀ t, C.CoupledThread t σ s (f t).rest (g t)) (hk : C.Keeps t (σ, s) (σ', s')) (hi : C.inv σ' s')
    (ht : C.CoupledThread t σ' s' th'.rest th) :
    ∀ u, C.CoupledThread u σ' s' (Function.update f t th' u).rest (Function.update g t th u) := by
  intro u
  by_cases hu : u = t
  · subst hu
    simpa using ht
  · rw [Function.update_of_ne hu, Function.update_of_ne hu]
    exact (hold u).rely (hk u hu) hi

/-- A step inside an implementation. -/
theorem Coupled.inside (hc : C.Coupled c' c) (hrun : c'.crashed = false) {x : Entry Op' Res'} {p : Prog Op' Res' Unit}
    {σ₂ : State'} (hterm : p.isTerminate = false) (hseen : C.seen' x = none)
    (hk : C.Keeps t (c'.state, c.state) (σ₂, c.state)) (hi : C.inv σ₂ c.state)
    (ht : C.CoupledThread t σ₂ c.state (C.machine.resume t ((c'.threads t).log ++ [x]) p).rest (c.threads t)) :
    C.Coupled (C.machine.after c' t x p σ₂) c where
  crashed := by rw [← hc.crashed, hrun]; exact hterm
  observed := by simp [Machine.after, observed'_cons, hseen, hc.observed]
  inv := fun _ => hi
  threads := fun _ => by
    have h := threads_after (hc.threads hrun) hk hi ht
    rwa [Function.update_eq_self] at h

/-- The step at which an operation takes effect. -/
theorem Coupled.effect (hc : C.Coupled c' c) (hrun : c'.crashed = false) {x : Entry Op' Res'} {p : Prog Op' Res' Unit}
    {σ₂ : State'} {y : Entry Op Res} {q : Prog Op Res Unit} {s' : State} (hterm : p.isTerminate = q.isTerminate)
    (hseen : C.seen' x = C.seen y) (hk : C.Keeps t (c'.state, c.state) (σ₂, s'))
    (hi : q.isTerminate = false → C.inv σ₂ s')
    (ht : q.isTerminate = false → C.CoupledThread t σ₂ s' (C.machine.resume t ((c'.threads t).log ++ [x]) p).rest
      (M.resume t ((c.threads t).log ++ [y]) q)) :
    C.Coupled (C.machine.after c' t x p σ₂) (M.after c t y q s') where
  crashed := hterm
  observed := by simp [Machine.after, observed'_cons, observed_cons, hseen, hc.observed]
  inv := fun h => hi (hterm.symm.trans h)
  threads := fun h =>
    have hq := hterm.symm.trans h
    threads_after (hc.threads hrun) hk (hi hq) (ht hq)

/-- **A step** of the implemented machine is a step of the machine, or none. -/
theorem Coupled.step (hC : C.Implements) (hr : M.Reachable s₀ c) (hc : C.Coupled c' c) (hs : C.machine.Step c' e' c₁') :
    ∃ c₁, M.Reachable s₀ c₁ ∧ C.Coupled c₁' c₁ := by
  cases hs with
  | @mk t o' k' r σ₂ hrun hrest hstep =>
    have hth := hc.threads hrun t
    rw [hrest] at hth
    have hpath := hr.path t
    generalize hp : Prog.op o' k' = p at hth
    generalize hct : c.threads t = ct at hth hpath
    cases hth with
    | @acting l o k o₁ k₁ ha =>
      rw [Prog.op_bind] at hp
      obtain ⟨rfl, hk⟩ := Prog.op.inj hp
      obtain rfl := eq_of_heq hk
      obtain ⟨hseen, hkeeps, hnext⟩ := (ha.2 _ _ (C.rely_refl _ _) (hc.inv hrun)).2 r σ₂ hstep
      dsimp only
      cases hq : k₁ r with
      | op o₂ k₂ =>
        rw [hq] at hseen hnext
        exact ⟨c, hr, hc.inside hrun rfl hseen hkeeps hnext.1 (hct ▸ .acting (k := k) hnext)⟩
      | terminate =>
        rw [hq] at hnext
        exact hnext.elim
      | ret out =>
        rw [hq] at hseen hnext
        cases out with
        | none =>
          -- it gave up: the turn is over before its first operation
          obtain ⟨rfl, hi, hb⟩ := hnext
          have hbody : Prog.op o k = M.body t := hpath.det .nil
          refine ⟨c, hr, hc.inside hrun rfl hseen hkeeps hi ?_⟩
          rw [hct, hbody]
          exact .again hC hb hi
        | some a =>
          obtain ⟨s', hs', hkeeps', hfin⟩ := hnext
          have hstep' := Machine.Step.mk (M := M) (t := t) (hc.crashed.symm.trans hrun) (by rw [hct]) hs'
          refine ⟨_, .step hr hstep' trivial, ?_⟩
          have hk : C.Keeps t (c'.state, c.state) (σ₂, s') := fun u hu =>
            C.rely_trans _ _ _ _ (hkeeps u hu) (hkeeps' u hu)
          cases hf : (C.impl t o).fin a with
          | op o₂ k₂ =>
            rw [hf] at hfin
            have hterm : (k a).isTerminate = false := by
              cases hka : k a with
              | terminate =>
                have hlast := hC.last t l o a (hka ▸ hpath.snoc a)
                rw [hf] at hlast
                cases hlast
              | ret | op => rfl
            refine hc.effect hrun ?_ hseen hk (fun _ => hfin.1) fun _ => ?_
            · rw [hterm, Prog.ret_bind, Impl.next, Option.elim_some, hf]
              rfl
            · simp only [Prog.ret_bind, Impl.next, Option.elim_some, hf, hct]
              exact .finishing hfin (hpath.snoc a) hterm
          | ret =>
            rw [hf] at hfin
            refine hc.effect hrun ?_ hseen hk (fun _ => hfin.1) fun hterm => ?_
            · simp [Impl.next, hf, implement_isTerminate hC]
            · simp only [Prog.ret_bind, Impl.next, Option.elim_some, hf, hct]
              exact .start hC (hpath.snoc a) hterm hfin.2 hfin.1
          | terminate =>
            rw [hf] at hfin
            exact hfin.elim
    | @finishing l p o₁ k₁ hf hp₁ hterm =>
      rw [Prog.op_bind] at hp
      obtain ⟨rfl, hk⟩ := Prog.op.inj hp
      obtain rfl := eq_of_heq hk
      obtain ⟨hseen, hkeeps, hnext⟩ := (hf.2 _ _ (C.rely_refl _ _) (hc.inv hrun)).2 r σ₂ hstep
      rw [shows_none] at hseen
      refine ⟨c, hr, ?_⟩
      dsimp only
      cases hq : k₁ r with
      | op o₂ k₂ =>
        rw [hq] at hnext
        exact hc.inside hrun rfl hseen hkeeps hnext.1 (hct ▸ .finishing hnext hp₁ hterm)
      | terminate =>
        rw [hq] at hnext
        exact hnext.elim
      | ret a =>
        rw [hq] at hnext
        refine hc.inside hrun ((implement_isTerminate hC).trans hterm) hseen hkeeps hnext.1 ?_
        rw [hct]
        exact .start hC hp₁ hterm hnext.2 hnext.1

/-- **The threads cannot tell**: a run of the implemented machine is a run of the machine,
of which the same is seen. -/
theorem refines (hC : C.Implements) (hi : C.inv σ₀ s₀) (hb : ∀ t, C.between t [] σ₀ s₀)
    (h : C.machine.Reachable σ₀ c') : ∃ c, M.Reachable s₀ c ∧ C.Coupled c' c := by
  induction h with
  | init =>
    refine ⟨_, .init, rfl, rfl, fun _ => hi, fun _ t => ?_⟩
    exact .again hC (hb t) hi
  | step _ hs _ ih =>
    obtain ⟨c, hr, hc⟩ := ih
    exact hc.step hC hr hs

end

end Coupling

end Interleave
