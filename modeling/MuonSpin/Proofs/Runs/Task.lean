/-!
# Tasks

A task is a computation on a shared state that is cut into atomic steps. Between two of its steps
others may change the state.

* `Task`, `Task.run`: tasks, and a task that runs undisturbed;
* `Task.Ensures`: whatever the others do, as long as it is allowed, the steps of the task are allowed
  themselves, and its result satisfies a postcondition; `Task.Ensures.bind`, `Task.Ensures.frame`;
* `Task.Settles`: the result of a task does not depend on what the others do; **`Task.Settles.bind`**:
  tasks that settle can be put one after the other.
-/

namespace MuonSpin

/-- A computation on a shared state, in atomic steps. -/
inductive Task (σ α : Type) where
  | done (a : α)
  /-- Looks at the state, changes it, and goes on. -/
  | step (next : σ → Task σ α) (after : σ → σ)

namespace Task

variable {σ α β : Type}

/-- The result of a task that is not disturbed, and the state afterwards. -/
def run : Task σ α → σ → α × σ
  | done a, s => (a, s)
  | step next after, s => (next s).run (after s)

/-- One task after the other. -/
def bind : Task σ α → (α → Task σ β) → Task σ β
  | done a, f => f a
  | step next after, f => step (fun s => (next s).bind f) after

instance : Monad (Task σ) where
  pure := done
  bind := bind

@[simp] theorem pure_bind (a : α) (f : α → Task σ β) : (pure a >>= f : Task σ β) = f a := rfl

@[simp] theorem bind_assoc {γ : Type} (t : Task σ α) (f : α → Task σ β) (g : β → Task σ γ) :
    t >>= f >>= g = t >>= fun a => f a >>= g := by
  show (t.bind f).bind g = t.bind fun a => (f a).bind g
  induction t with
  | done a => rfl
  | step next after ih => exact congrArg (step · after) (funext ih)

/-- A single step. -/
def atomic (f : σ → α × σ) : Task σ α := step (fun s => done (f s).1) fun s => (f s).2

@[simp] theorem run_pure (a : α) (s : σ) : (pure a : Task σ α).run s = (a, s) := rfl

@[simp] theorem run_atomic (f : σ → α × σ) (s : σ) : (atomic f).run s = f s := rfl

@[simp] theorem run_bind (t : Task σ α) (f : α → Task σ β) (s : σ) :
    (t >>= f).run s = (f (t.run s).1).run (t.run s).2 := by
  show (t.bind f).run s = _
  induction t generalizing s with
  | done a => rfl
  | step next after ih => exact ih s (after s)

/-- Some steps of a task that is not disturbed. -/
def advance : Nat → Task σ α → σ → Task σ α × σ
  | 0, t, s => (t, s)
  | _ + 1, done a, s => (done a, s)
  | n + 1, step next after, s => (next s).advance n (after s)

theorem exists_advance_eq_run (t : Task σ α) (s : σ) :
    ∃ n, t.advance n s = (done (t.run s).1, (t.run s).2) := by
  induction t generalizing s with
  | done a => exact ⟨0, rfl⟩
  | step next after ih =>
    obtain ⟨n, hn⟩ := ih s (after s)
    exact ⟨n + 1, hn⟩

/-! ## Disturbed tasks -/

/-- Changes that are allowed: none, and several one after the other. -/
structure Allows (R : σ → σ → Prop) : Prop where
  refl : ∀ s, R s s
  trans : ∀ {s s' s''}, R s s' → R s' s'' → R s s''

/-- The condition survives allowed changes. -/
def Stable (R : σ → σ → Prop) (pre : σ → Prop) : Prop := ∀ s s', R s s' → pre s → pre s'

theorem Stable.and {R : σ → σ → Prop} {pre pre' : σ → Prop} (h : Stable R pre)
    (h' : Stable R pre') : Stable R fun s => pre s ∧ pre' s :=
  fun s s' hR hs => ⟨h s s' hR hs.1, h' s s' hR hs.2⟩

/-- If all changes that others make before each step are allowed, so are the steps of the task, and
its result satisfies the postcondition, also after further changes. -/
def Ensures (R : σ → σ → Prop) (post : α → σ → Prop) : Task σ α → σ → Prop
  | done a, s => ∀ s', R s s' → post a s'
  | step next after, s => ∀ s', R s s' → R s' (after s') ∧ (next s').Ensures R post (after s')

section Ensures

variable {R : σ → σ → Prop} {post post' : α → σ → Prop} {s s' : σ} {t : Task σ α}

theorem Ensures.mono (h : t.Ensures R post s) (hpost : ∀ a s, post a s → post' a s) :
    t.Ensures R post' s := by
  induction t generalizing s with
  | done a => exact fun s' hs => hpost a s' (h s' hs)
  | step next after ih =>
    intro s' hs
    obtain ⟨hafter, hnext⟩ := h s' hs
    exact ⟨hafter, ih s' hnext⟩

theorem Ensures.grow (hR : Allows R) (h : t.Ensures R post s) (hs : R s s') :
    t.Ensures R post s' := by
  cases t with
  | done a => exact fun s'' hs' => h s'' (hR.trans hs hs')
  | step next after => exact fun s'' hs' => h s'' (hR.trans hs hs')

theorem Ensures.bind (hR : Allows R) {f : α → Task σ β} {post' : β → σ → Prop}
    (h : t.Ensures R post s) (hf : ∀ a s', post a s' → (f a).Ensures R post' s') :
    (t >>= f).Ensures R post' s := by
  show (t.bind f).Ensures R post' s
  induction t generalizing s with
  | done a => exact hf a s (h s (hR.refl s))
  | step next after ih =>
    intro s' hs
    obtain ⟨hafter, hnext⟩ := h s' hs
    exact ⟨hafter, ih s' hnext⟩

theorem Ensures.pure {a : α} (h : ∀ s', R s s' → post a s') :
    (pure a : Task σ α).Ensures R post s := h

theorem Ensures.atomic_bind {f : σ → β × σ} {g : β → Task σ α}
    (h : ∀ s', R s s' → R s' (f s').2 ∧ (g (f s').1).Ensures R post (f s').2) :
    (atomic f >>= g).Ensures R post s := h

/-- What survives allowed changes survives the task. -/
theorem Ensures.frame {F : σ → Prop} (hF : Stable R F) (h : t.Ensures R post s) (hs : F s) :
    t.Ensures R (fun a s => post a s ∧ F s) s := by
  induction t generalizing s with
  | done a => exact fun s' hR => ⟨h s' hR, hF s s' hR hs⟩
  | step next after ih =>
    intro s' hR
    obtain ⟨hafter, hnext⟩ := h s' hR
    exact ⟨hafter, ih s' hnext (hF _ _ hafter (hF _ _ hR hs))⟩

theorem Ensures.run (hR : Allows R) (h : t.Ensures R post s) : post (t.run s).1 (t.run s).2 := by
  induction t generalizing s with
  | done a => exact h s (hR.refl s)
  | step next after ih => exact ih s (h s (hR.refl s)).2

end Ensures

/-! ## Tasks that settle -/

/-- From states with the precondition the task always gives the same result, and the postcondition
holds then. -/
def Settles (R : σ → σ → Prop) (pre : σ → Prop) (t : Task σ α) (post : α → σ → Prop) : Prop :=
  ∃ a, ∀ s, pre s → t.Ensures R (fun b s' => b = a ∧ post a s') s

section Settles

variable {R : σ → σ → Prop} {pre : σ → Prop} {post : α → σ → Prop} {t : Task σ α}

theorem Settles.pure {a : α} (hstable : Stable R pre) (h : ∀ s, pre s → post a s) :
    Settles R pre (pure a) post :=
  ⟨a, fun s hs s' hR => ⟨rfl, h s' (hstable s s' hR hs)⟩⟩

theorem Settles.atomic {f : σ → α × σ} {a : α} (hpre : Stable R pre) (hpost : Stable R (post a))
    (h : ∀ s, pre s → (f s).1 = a ∧ R s (f s).2 ∧ post a (f s).2) :
    Settles R pre (atomic f) post := by
  refine ⟨a, fun s hs s' hR => ?_⟩
  obtain ⟨hvalue, hallowed, ha⟩ := h s' (hpre s s' hR hs)
  exact ⟨hallowed, fun s'' hR' => ⟨hvalue, hpost _ s'' hR' ha⟩⟩

theorem Settles.bind (hR : Allows R) {f : α → Task σ β} {post' : β → σ → Prop}
    (h : Settles R pre t post) (hf : ∀ a, Settles R (post a) (f a) post') :
    Settles R pre (t >>= f) post' := by
  obtain ⟨a, ha⟩ := h
  obtain ⟨b, hb⟩ := hf a
  refine ⟨b, fun s hs => (ha s hs).bind hR ?_⟩
  rintro _ s' ⟨rfl, hpost⟩
  exact hb s' hpost

theorem Settles.frame {F : σ → Prop} (hF : Stable R F) (h : Settles R pre t post) :
    Settles R (fun s => pre s ∧ F s) t fun a s => post a s ∧ F s := by
  obtain ⟨a, ha⟩ := h
  refine ⟨a, fun s hs => ((ha s hs.1).frame hF hs.2).mono ?_⟩
  rintro b s' ⟨⟨rfl, hpost⟩, hframe⟩
  exact ⟨rfl, hpost, hframe⟩

theorem Settles.of_pre {pre' : σ → Prop} (h : Settles R pre t post) (hpre : ∀ s, pre' s → pre s) :
    Settles R pre' t post := by
  obtain ⟨a, ha⟩ := h
  exact ⟨a, fun s hs => ha s (hpre s hs)⟩

/-- A task settles if it does so when there are states with the precondition. -/
theorem Settles.of_state (a : α) (h : ∀ s, pre s → Settles R pre t post) :
    Settles R pre t post := by
  by_cases hex : ∃ s, pre s
  · obtain ⟨s, hs⟩ := hex
    exact h s hs
  · exact ⟨a, fun s hs => absurd ⟨s, hs⟩ hex⟩

/-- **A disturbed task** that settles gives what it gives undisturbed, from any of the states. -/
theorem Settles.ensures_run (hR : Allows R) (h : Settles R pre t post) {s s' : σ} (hs : pre s)
    (hs' : pre s') : t.Ensures R (fun b s'' => b = (t.run s).1 ∧ post b s'') s' := by
  obtain ⟨a, ha⟩ := h
  have hrun : (t.run s).1 = a := ((ha s hs).run hR).1
  rw [hrun]
  refine (ha s' hs').mono fun b s'' hb => ?_
  obtain ⟨rfl, hpost⟩ := hb
  exact ⟨rfl, hpost⟩

end Settles

end Task

end MuonSpin
