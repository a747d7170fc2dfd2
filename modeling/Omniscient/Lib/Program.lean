import Mathlib.Tactic.TypeStar

/-! Programs that reach shared state through single atomic operations. Between two
operations of a program any other program may run, so what it does to the shared
state is what its operations do, whatever their answers. -/

/-- A computation that performs operations of `Op` and continues with the answers. -/
inductive Program (Op : Type) (Answer : Op → Type) (α : Type) where
  | done (value : α)
  | perform (op : Op) (next : Answer op → Program Op Answer α)

namespace Program

variable {Op : Type} {Answer : Op → Type} {α β ε : Type}

def bind : Program Op Answer α → (α → Program Op Answer β) → Program Op Answer β
  | .done value, after => after value
  | .perform op next, after => .perform op fun answer => (next answer).bind after

instance : Monad (Program Op Answer) where
  pure := .done
  bind := bind

def request (op : Op) : Program Op Answer (Answer op) := .perform op .done

/-- Every operation that the program may still perform is allowed. -/
def Only (allowed : Op → Prop) : Program Op Answer α → Prop
  | .done _ => True
  | .perform op next => allowed op ∧ ∀ answer, (next answer).Only allowed

variable {allowed : Op → Prop}

@[simp] theorem only_pure (value : α) : (pure value : Program Op Answer α).Only allowed := trivial

@[simp] theorem only_request (op : Op) : (request op : Program Op Answer (Answer op)).Only allowed ↔ allowed op :=
  ⟨fun only => only.1, fun allows => ⟨allows, fun _ => trivial⟩⟩

theorem only_bind {first : Program Op Answer α} {after : α → Program Op Answer β} (start : first.Only allowed)
    (rest : ∀ value, (after value).Only allowed) : (first >>= after).Only allowed := by
  induction first with
  | done value => exact rest value
  | perform op next ih => exact ⟨start.1, fun answer => ih answer (start.2 answer)⟩

theorem only_forM {items : List β} {body : β → Program Op Answer Unit}
    (each : ∀ item ∈ items, (body item).Only allowed) : (items.forM body).Only allowed := by
  induction items with
  | nil => exact trivial
  | cons item items ih =>
    apply only_bind (each item List.mem_cons_self)
    intro _
    exact ih fun other member => each other (List.mem_cons_of_mem _ member)

theorem only_throw (error : ε) : (throw error : ExceptT ε (Program Op Answer) α).run.Only allowed := trivial

theorem only_seq {first : ExceptT ε (Program Op Answer) α} {after : α → ExceptT ε (Program Op Answer) β}
    (start : first.run.Only allowed) (rest : ∀ value, (after value).run.Only allowed) :
    (first >>= after).run.Only allowed := by
  apply only_bind start
  intro result
  cases result with
  | ok value => exact rest value
  | error error => exact trivial

theorem only_ok {value : α} {after : α → ExceptT ε (Program Op Answer) β} :
    (ExceptT.mk (pure (.ok value)) >>= after).run.Only allowed ↔ (after value).run.Only allowed := Iff.rfl

/-- The program performs these operations one after another, whatever they are answered. -/
def Performs : Program Op Answer α → List Op → Prop
  | .done _, ops => ops = []
  | .perform op next, ops => ∃ rest, ops = op :: rest ∧ ∀ answer, (next answer).Performs rest

theorem performs_pure (value : α) : (pure value : Program Op Answer α).Performs [] := rfl

theorem performs_request (op : Op) : (request op : Program Op Answer (Answer op)).Performs [op] :=
  ⟨[], rfl, fun _ => rfl⟩

theorem performs_bind {first : Program Op Answer α} {after : α → Program Op Answer β} {ops more : List Op}
    (start : first.Performs ops) (rest : ∀ value, (after value).Performs more) :
    (first >>= after).Performs (ops ++ more) := by
  induction first generalizing ops with
  | done value =>
    obtain rfl : ops = [] := start
    exact rest value
  | perform op next ih =>
    obtain ⟨later, rfl, performs⟩ := start
    exact ⟨later ++ more, rfl, fun answer => ih answer (performs answer)⟩

theorem performs_forM {items : List β} {body : β → Program Op Answer Unit} {script : β → List Op}
    (each : ∀ item, (body item).Performs (script item)) : (items.forM body).Performs (items.flatMap script) := by
  induction items with
  | nil => exact performs_pure ()
  | cons item items ih =>
    rw [List.flatMap_cons]
    exact performs_bind (each item) fun _ => ih

def pending : Program Op Answer α → Option Op
  | .done _ => none
  | .perform op _ => some op

section
variable {σ : Type} (perform : σ → (op : Op) → Answer op × σ)

def exec : Program Op Answer α → σ → α × σ
  | .done value, state => (value, state)
  | .perform op next, state => (next (perform state op).1).exec (perform state op).2

variable {perform}

@[simp] theorem exec_pure (value : α) (state : σ) :
    (pure value : Program Op Answer α).exec perform state = (value, state) := rfl

@[simp] theorem exec_request (op : Op) (state : σ) :
    (request op : Program Op Answer (Answer op)).exec perform state = perform state op := rfl

@[simp] theorem exec_bind (first : Program Op Answer α) (after : α → Program Op Answer β) (state : σ) :
    (first >>= after).exec perform state =
      (after (first.exec perform state).1).exec perform (first.exec perform state).2 := by
  induction first generalizing state with
  | done value => rfl
  | perform op next ih => exact ih _ _

theorem exec_forM {items : List β} {body : β → Program Op Answer Unit} {state : σ} (kept : List β → σ → Prop)
    (start : kept [] state)
    (step : ∀ done item rest, items = done ++ item :: rest → ∀ state, kept done state →
      kept (done ++ [item]) ((body item).exec perform state).2) :
    kept items ((items.forM body).exec perform state).2 := by
  have loop (done rest : List β) (split : items = done ++ rest) (state : σ) (reached : kept done state) :
      kept items ((rest.forM body).exec perform state).2 := by
    induction rest generalizing done state with
    | nil =>
      rw [List.append_nil] at split
      exact split ▸ reached
    | cons item rest ih =>
      have unrolled : ((item :: rest).forM body).exec perform state =
          (rest.forM body).exec perform ((body item).exec perform state).2 := exec_bind ..
      rw [unrolled]
      exact ih (done ++ [item]) (by simpa using split) _ (step done item rest split state reached)
  exact loop [] items rfl state start

theorem exec_ok {value : α} {after : α → ExceptT ε (Program Op Answer) β} {state : σ} :
    (ExceptT.mk (pure (.ok value)) >>= after).run.exec perform state = (after value).run.exec perform state := rfl

theorem exec_returned {first : ExceptT ε (Program Op Answer) α} {after : α → ExceptT ε (Program Op Answer) β}
    {value : α} {state middle : σ} (returned : first.run.exec perform state = (.ok value, middle)) :
    (first >>= after).run.exec perform state = (after value).run.exec perform middle := by
  apply (exec_bind first.run _ state).trans
  rw [returned]
  rfl

theorem exec_failed {first : ExceptT ε (Program Op Answer) α} {after : α → ExceptT ε (Program Op Answer) β}
    {error : ε} {state middle : σ} (failed : first.run.exec perform state = (.error error, middle)) :
    (first >>= after).run.exec perform state = (.error error, middle) := by
  apply (exec_bind first.run _ state).trans
  rw [failed]
  rfl

end

section
variable {σ : Type} (moves : σ → (op : Op) → Answer op → σ → Prop) (holds : σ → Prop)

/-- From `state` on, an invariant holds whenever the program is interrupted, and a
postcondition where it is done. -/
def Safe : Program Op Answer α → (α → σ → Prop) → σ → Prop
  | .done value, post, state => holds state ∧ post value state
  | .perform op next, post, state =>
    holds state ∧ ∀ answer after, moves state op answer after → (next answer).Safe post after

variable {moves holds}

theorem Safe.now {program : Program Op Answer α} {post : α → σ → Prop} {state : σ}
    (safe : program.Safe moves holds post state) : holds state := by
  cases program with
  | done value => exact safe.1
  | perform op next => exact safe.1

theorem safe_pure {value : α} {post : α → σ → Prop} {state : σ} (now : holds state) (done : post value state) :
    (pure value : Program Op Answer α).Safe moves holds post state := ⟨now, done⟩

theorem safe_request {op : Op} {post : Answer op → σ → Prop} {state : σ} (now : holds state)
    (step : ∀ answer after, moves state op answer after → holds after ∧ post answer after) :
    (request op : Program Op Answer (Answer op)).Safe moves holds post state := ⟨now, step⟩

theorem safe_bind {first : Program Op Answer α} {after : α → Program Op Answer β} {post : β → σ → Prop} {state : σ}
    (safe : first.Safe moves holds (fun value state => (after value).Safe moves holds post state) state) :
    (first >>= after).Safe moves holds post state := by
  induction first generalizing state with
  | done value => exact safe.2
  | perform op next ih => exact ⟨safe.1, fun answer later moved => ih answer (safe.2 answer later moved)⟩

theorem Safe.weaken {program : Program Op Answer α} {post weaker : α → σ → Prop} {state : σ}
    (safe : program.Safe moves holds post state)
    (weaken : ∀ value state, holds state → post value state → weaker value state) :
    program.Safe moves holds weaker state := by
  induction program generalizing state with
  | done value => exact ⟨safe.1, weaken value state safe.1 safe.2⟩
  | perform op next ih => exact ⟨safe.1, fun answer later moved => ih answer (safe.2 answer later moved)⟩

theorem Safe.tracks {program : Program Op Answer α} {post : α → σ → Prop} {state : σ} (grows : σ → σ → Prop)
    (refl : ∀ state, grows state state) (trans : ∀ {a b c}, grows a b → grows b c → grows a c)
    (step : ∀ {state op answer after}, moves state op answer after → grows state after)
    (safe : program.Safe moves holds post state) :
    program.Safe moves holds (fun value after => post value after ∧ grows state after) state := by
  induction program generalizing state with
  | done value => exact ⟨safe.1, safe.2, refl state⟩
  | perform op next ih =>
    refine ⟨safe.1, fun answer later moved => ?_⟩
    exact (ih answer (safe.2 answer later moved)).weaken fun _ _ _ reached =>
      ⟨reached.1, trans (step moved) reached.2⟩

theorem safe_forM {items : List β} {body : β → Program Op Answer Unit} {state : σ} (kept : List β → σ → Prop)
    (now : holds state) (start : kept [] state)
    (step : ∀ done item rest, items = done ++ item :: rest → ∀ state, holds state → kept done state →
      (body item).Safe moves holds (fun _ => kept (done ++ [item])) state) :
    (items.forM body).Safe moves holds (fun _ => kept items) state := by
  have loop (done rest : List β) (split : items = done ++ rest) (state : σ) (now : holds state)
      (reached : kept done state) : (rest.forM body).Safe moves holds (fun _ => kept items) state := by
    induction rest generalizing done state with
    | nil =>
      rw [List.append_nil] at split
      exact ⟨now, split ▸ reached⟩
    | cons item rest ih =>
      apply safe_bind
      apply (step done item rest split state now reached).weaken
      intro _ later now reached
      exact ih (done ++ [item]) (by simpa using split) later now reached
  exact loop [] items rfl state now start

end

section
variable {γ : Type} (ready : γ → Op → Prop) (moves : γ → (op : Op) → Answer op → γ → Prop)

/-- From `stage` on, the program performs only what its stage is ready for, for
every answer that the protocol admits, and ends as the postcondition says. -/
def Follows : Program Op Answer α → (α → γ → Prop) → γ → Prop
  | .done value, post, stage => post value stage
  | .perform op next, post, stage =>
    ready stage op ∧ ∀ answer after, moves stage op answer after → (next answer).Follows post after

variable {ready moves}

theorem follows_request {op : Op} {post : Answer op → γ → Prop} {stage : γ} (now : ready stage op)
    (step : ∀ answer after, moves stage op answer after → post answer after) :
    (request op : Program Op Answer (Answer op)).Follows ready moves post stage := ⟨now, step⟩

theorem follows_bind {first : Program Op Answer α} {after : α → Program Op Answer β} {post : β → γ → Prop} {stage : γ}
    (follows : first.Follows ready moves (fun value stage => (after value).Follows ready moves post stage) stage) :
    (first >>= after).Follows ready moves post stage := by
  induction first generalizing stage with
  | done value => exact follows
  | perform op next ih => exact ⟨follows.1, fun answer later moved => ih answer (follows.2 answer later moved)⟩

theorem Follows.weaken {program : Program Op Answer α} {post weaker : α → γ → Prop} {stage : γ}
    (follows : program.Follows ready moves post stage) (weaken : ∀ value stage, post value stage → weaker value stage) :
    program.Follows ready moves weaker stage := by
  induction program generalizing stage with
  | done value => exact weaken value stage follows
  | perform op next ih => exact ⟨follows.1, fun answer later moved => ih answer (follows.2 answer later moved)⟩

theorem Follows.narrow {program : Program Op Answer α} {post : α → γ → Prop} {stage : γ} {narrower : γ → Op → Prop}
    (follows : program.Follows ready moves post stage) (only : program.Only allowed)
    (narrows : ∀ stage op, ready stage op → allowed op → narrower stage op) :
    program.Follows narrower moves post stage := by
  induction program generalizing stage with
  | done value => exact follows
  | perform op next ih =>
    exact ⟨narrows stage op follows.1 only.1, fun answer later moved => ih answer (follows.2 answer later moved) (only.2 answer)⟩

def either (returned : α → γ → Prop) (failed : ε → γ → Prop) : Except ε α → γ → Prop
  | .ok value, stage => returned value stage
  | .error error, stage => failed error stage

theorem follows_seq {first : ExceptT ε (Program Op Answer) α} {after : α → ExceptT ε (Program Op Answer) β}
    {middle : α → γ → Prop} {returned : β → γ → Prop} {failed : ε → γ → Prop} {stage : γ}
    (start : first.run.Follows ready moves (either middle failed) stage)
    (rest : ∀ value stage, middle value stage → (after value).run.Follows ready moves (either returned failed) stage) :
    (first >>= after).run.Follows ready moves (either returned failed) stage := by
  apply follows_bind
  apply start.weaken
  intro result stage reached
  cases result with
  | ok value => exact rest value stage reached
  | error error => exact reached

theorem follows_forM {items : List β} {body : β → Program Op Answer Unit} {stage : γ} (kept : List β → γ → Prop)
    (start : kept [] stage)
    (step : ∀ done item rest, items = done ++ item :: rest → ∀ stage, kept done stage →
      (body item).Follows ready moves (fun _ => kept (done ++ [item])) stage) :
    (items.forM body).Follows ready moves (fun _ => kept items) stage := by
  have loop (done rest : List β) (split : items = done ++ rest) (stage : γ) (reached : kept done stage) :
      (rest.forM body).Follows ready moves (fun _ => kept items) stage := by
    induction rest generalizing done stage with
    | nil =>
      rw [List.append_nil] at split
      exact split ▸ reached
    | cons item rest ih =>
      apply follows_bind
      apply (step done item rest split stage reached).weaken
      intro _ later reached
      exact ih (done ++ [item]) (by simpa using split) later reached
  exact loop [] items rfl stage start

theorem follows_ok {value : α} {after : α → ExceptT ε (Program Op Answer) β} {post : Except ε β → γ → Prop} {stage : γ} :
    (ExceptT.mk (pure (.ok value)) >>= after).run.Follows ready moves post stage ↔
      (after value).run.Follows ready moves post stage := Iff.rfl

end

end Program
