import VirtualTree.Materialization

/-!
# Invariants of computations

A computation that may fail keeps what was done before the failure, so an invariant has to hold at
both ends.  `Keeps I m Q` says so: from a state with `I` the computation `m` comes to a state with `I`
whether it fails or not, and an answer it gives has `Q`.  The rules follow the ways in which
computations are put together.
-/

namespace VirtualTree

variable {ε σ α β : Type}

/-- The computation keeps the invariant `I`, and its answers have `Q`. -/
def Keeps (I : σ → Prop) (m : EStateM ε σ α) (Q : α → Prop) : Prop :=
  ∀ s, I s → match m s with
    | .ok a s' => I s' ∧ Q a
    | .error _ s' => I s'

/-- The state at which a computation ends, with an answer or with a failure. -/
def endState : EStateM.Result ε σ α → σ
  | .ok _ s => s
  | .error _ s => s

/-- The computation ended with an answer. -/
def succeeds : EStateM.Result ε σ α → Bool
  | .ok _ _ => true
  | .error _ _ => false

/-- The answer, if there is one. -/
def answer? : EStateM.Result ε σ α → Option α
  | .ok a _ => some a
  | .error _ _ => none

/-- A computation that succeeds and has nothing to answer is known by its end. -/
theorem ok_endState {r : EStateM.Result ε σ Unit} (h : succeeds r) : r = .ok () (endState r) := by
  cases r with
  | ok => rfl
  | error => cases h

/-- A computation that answers is known by its answer and its end. -/
theorem ok_of_answer? {r : EStateM.Result ε σ α} {a : α} (h : answer? r = some a) :
    r = .ok a (endState r) := by
  cases r with
  | ok b s => rw [Option.some.inj h]; rfl
  | error => cases h

theorem exists_of_succeeds {r : EStateM.Result ε σ α} (h : succeeds r) : ∃ a s, r = .ok a s := by
  cases r with
  | ok a s => exact ⟨a, s, rfl⟩
  | error => cases h

section Rules

variable {I : σ → Prop} {Q : α → Prop} {R : β → Prop}

/-- Two computations one after the other, from a given state. -/
theorem bind_apply (m : EStateM ε σ α) (f : α → EStateM ε σ β) (s : σ) :
    (m >>= f) s = match m s with
      | .ok a s' => f a s'
      | .error e s' => .error e s' := rfl

theorem get_bind (f : σ → EStateM ε σ β) (s : σ) : (get >>= f) s = f s s := rfl

theorem bind_ok {m : EStateM ε σ α} {f : α → EStateM ε σ β} {s s' : σ} {b : β}
    (h : (m >>= f) s = .ok b s') : ∃ a s₁, m s = .ok a s₁ ∧ f a s₁ = .ok b s' := by
  rw [bind_apply] at h
  split at h
  · exact ⟨_, _, ‹_›, h⟩
  · cases h

theorem ok_of_bind {x : Except ε α} {f : α → Except ε β} {b : β} (h : x >>= f = .ok b) :
    ∃ a, x = .ok a ∧ f a = .ok b := by
  cases x with
  | ok a => exact ⟨a, rfl, h⟩
  | error e => cases h

theorem bind_of_ok {m : EStateM ε σ α} {f : α → EStateM ε σ β} {s s₁ : σ} {a : α}
    (h : m s = .ok a s₁) : (m >>= f) s = f a s₁ := by
  rw [bind_apply, h]

theorem bind_of_error {m : EStateM ε σ α} {f : α → EStateM ε σ β} {s s₁ : σ} {e : ε}
    (h : m s = .error e s₁) : (m >>= f) s = .error e s₁ := by
  rw [bind_apply, h]

theorem forM_cons_of_ok {f : α → EStateM ε σ PUnit} {a : α} {l : List α} {s s₁ : σ}
    (h : f a s = .ok ⟨⟩ s₁) : (a :: l).forM f s = l.forM f s₁ :=
  bind_of_ok h

theorem Keeps.ok {m : EStateM ε σ α} (h : Keeps I m Q) {s s' : σ} {a : α} (hs : I s)
    (run : m s = .ok a s') : I s' ∧ Q a := by
  have := h s hs
  rw [run] at this
  exact this

theorem Keeps.endState {m : EStateM ε σ α} (h : Keeps I m Q) {s : σ} (hs : I s) :
    I (endState (m s)) := by
  have := h s hs
  unfold VirtualTree.endState
  split at this
  · exact this.1
  · exact this

theorem keeps_pure {a : α} (h : Q a) : Keeps I (pure a : EStateM ε σ α) Q :=
  fun _ hs => ⟨hs, h⟩

theorem keeps_throw (e : ε) : Keeps I (throw e : EStateM ε σ α) Q :=
  fun _ hs => hs

theorem Keeps.bind {m : EStateM ε σ α} {f : α → EStateM ε σ β} (hm : Keeps I m Q)
    (hf : ∀ a, Q a → Keeps I (f a) R) : Keeps I (m >>= f) R := by
  intro s hs
  rw [bind_apply]
  have := hm s hs
  split at this
  · exact hf _ this.2 _ this.1
  · exact this

theorem Keeps.mono {m : EStateM ε σ α} {Q' : α → Prop} (h : Keeps I m Q) (hQ : ∀ a, Q a → Q' a) :
    Keeps I m Q' := by
  intro s hs
  have := h s hs
  split at this
  · exact ⟨this.1, hQ _ this.2⟩
  · exact this

/-- What is done with the state may be looked at from a state that is known to have the invariant. -/
theorem keeps_get_bind {f : σ → EStateM ε σ α}
    (h : ∀ s, I s → match f s s with
      | .ok a s' => I s' ∧ Q a
      | .error _ s' => I s') : Keeps I (get >>= f) Q :=
  fun s hs => h s hs

theorem keeps_modify {f : σ → σ} (h : ∀ s, I s → I (f s)) :
    Keeps I (modify f : EStateM ε σ PUnit) fun _ => True :=
  fun s hs => ⟨h s hs, trivial⟩

theorem keeps_forM {f : α → EStateM ε σ PUnit} {l : List α}
    (h : ∀ a ∈ l, Keeps I (f a) fun _ => True) : Keeps I (l.forM f) fun _ => True := by
  induction l with
  | nil => exact keeps_pure trivial
  | cons a l ih =>
    exact (h a List.mem_cons_self).bind fun _ _ => ih fun b hb => h b (List.mem_cons_of_mem a hb)

theorem keeps_mapM {f : α → EStateM ε σ β} {l : List α} (h : ∀ a ∈ l, Keeps I (f a) R) :
    Keeps I (l.mapM f) fun bs => ∀ b ∈ bs, R b := by
  induction l with
  | nil =>
    rw [List.mapM_nil]
    exact keeps_pure fun b hb => by cases hb
  | cons a l ih =>
    rw [List.mapM_cons]
    apply (h a List.mem_cons_self).bind
    intro b hb
    apply (ih fun c hc => h c (List.mem_cons_of_mem a hc)).bind
    intro bs hbs
    apply keeps_pure
    intro c hc
    rcases List.mem_cons.1 hc with rfl | hc
    · exact hb
    · exact hbs c hc

end Rules

namespace Construct

/-- An edit inside a construction keeps what it keeps of the document. -/
theorem keeps_edit {I : Construction → Prop} {J : Document → Prop} {m : Edit α} {Q : α → Prop}
    (h : Keeps J m Q) (down : ∀ s, I s → J s.document)
    (up : ∀ s d, I s → J d → I { s with document := d }) : Keeps I (edit m) Q := by
  intro s hs
  have := h s.document (down s hs)
  unfold edit
  split at this
  · rename_i run
    rw [run]
    exact ⟨up s _ hs this.1, this.2⟩
  · rename_i run
    rw [run]
    exact up s _ hs this

end Construct

end VirtualTree
