import Fexpr.Proofs.Evaluator.Confinement
import Fexpr.Proofs.Evaluator.Watching

/-!
# The log tells of every definition

What an evaluation changes in frames that were there before, it changes by `$define!`, and
`$define!` adds a record to the log when it is done. So nothing is changed without a record, and the
records of definitions are those of the invocations of `$define!` that were completed, in their
order. Main statement: `definitions_audited`.
-/

namespace Fexpr

/-- The name that a record tells the definition of. -/
def Record.definition? : Record → Option Text
  | defined n => some n
  | _ => none

/-- Whether `$define!` was invoked. -/
def Completion.isDefinition (c : Completion) : Bool := c.procedure = .builtin .define

/-- Records, in the order in which they were made, that tell of the definitions among completed
invocations, one record for each and in the same order, and of no others. -/
def Tells (made : List Record) (cs : List Completion) : Prop :=
  (made.filterMap Record.definition?).map (fun n ↦ some (.symbol n)) =
    (cs.filter Completion.isDefinition).map (·.operands.head?)

theorem Tells.append {made made' : List Record} {cs cs' : List Completion} (h : Tells made cs)
    (h' : Tells made' cs') : Tells (made ++ made') (cs ++ cs') := by
  rw [Tells, List.filterMap_append, List.map_append, h, h', List.filter_append, List.map_append]

namespace Store

/-- From `s` to `t` the log has grown by records that tell of the definitions among `cs`. -/
def Audit (s t : Store) (cs : List Completion) : Prop :=
  ∃ made, t.log = made ++ s.log ∧ Tells made.reverse cs

variable {s t u : Store} {cs ds : List Completion}

theorem Audit.of_log_eq (h : t.log = s.log) : s.Audit t [] := ⟨[], h, rfl⟩

theorem Audit.trans (h : s.Audit t cs) (h' : t.Audit u ds) : s.Audit u (cs ++ ds) := by
  obtain ⟨made, hlog, htells⟩ := h
  obtain ⟨made', hlog', htells'⟩ := h'
  refine ⟨made' ++ made, by rw [hlog', hlog, List.append_assoc], ?_⟩
  rw [List.reverse_append]
  exact htells.append htells'

end Store

/-! ## Computations without definitions -/

namespace Eval

variable {α β : Type}

/-- A computation that adds no record of a definition. -/
def Silent (x : Eval α) : Prop := ∀ s : Store, s.Audit (x.after s) []

namespace Silent

theorem pure (a : α) : Silent (Pure.pure a) := fun _ ↦ .of_log_eq rfl

theorem throw (e : Failure) : Silent (MonadExcept.throw e : Eval α) := fun _ ↦ .of_log_eq rfl

theorem fail (f : Fault) : Silent (Eval.fail f : Eval α) := throw _

theorem mismatch (x : Expected) (v : Value) : Silent (Eval.mismatch x v : Eval α) := fail _

theorem modifyGet {g : Store → α × Store} (h : ∀ s, (g s).2.log = s.log) :
    Silent (MonadStateOf.modifyGet g) := fun s ↦ .of_log_eq (h s)

theorem record {r : Record} (h : r.definition? = none) : Silent (Eval.record r) :=
  fun _ ↦ ⟨[r], rfl, by simp [Tells, h]⟩

theorem bind {x : Eval α} {k : α → Eval β} (hx : Silent x) (hk : ∀ a, Silent (k a)) :
    Silent (x >>= k) := by
  intro s
  have h := hx s
  rw [after] at h ⊢
  cases hr : x s with
  | ok a t =>
    rw [hr] at h
    rw [bind_of_ok hr]
    exact h.trans (hk a t)
  | error e t =>
    rw [hr] at h
    rw [bind_of_error hr]
    exact h

end Silent

theorem silent_freshTag : freshTag.Silent := .modifyGet fun _ ↦ rfl

theorem silent_newList (vs : List Value) : (newList vs).Silent := .modifyGet fun _ ↦ rfl

theorem silent_instantiate (d : Datum) : (instantiate d).Silent := .modifyGet fun _ ↦ rfl

theorem silent_elements (v : Value) : (elements v).Silent := by
  rw [elements]
  split
  · exact .pure _
  · exact .mismatch _ _

end Eval

namespace Combiner

theorem silent_wrap (v : Value) : (wrap v).Silent := by
  rw [wrap]
  split
  · exact .bind Eval.silent_freshTag fun _ ↦ .pure _
  · exact .mismatch _ _

theorem silent_unwrap (v : Value) : (unwrap v).Silent := by
  cases v with
  | applicative tag u => exact .pure u
  | _ => exact .mismatch _ _

theorem silent_operative (formals : Formals) (body : List Value) (closure : Option FrameId) :
    (operative formals body closure).Silent := by
  rw [operative]
  split
  · exact .fail _
  · exact .bind Eval.silent_freshTag fun _ ↦ .bind (Eval.silent_newList _) fun _ ↦ .pure _

theorem silent_bindOne (f : FrameId) (p : Formal) (v : Value) : (bindOne f p v).Silent := by
  cases p with
  | name n => exact .modifyGet fun _ ↦ rfl
  | misfit shown => exact .fail _

theorem silent_bindEach (f : FrameId) (ps : List Formal) (vs : List Value) :
    (bindEach f ps vs).Silent := by
  induction ps generalizing vs with
  | nil =>
    rw [bindEach.eq_def]
    exact .pure _
  | cons p ps ih =>
    cases vs with
    | nil => exact .pure _
    | cons v vs => exact .bind (silent_bindOne f p v) fun _ ↦ ih vs

/-- Binding operands is no definition. -/
theorem silent_bind (formals : Formals) (closure : Option FrameId) (operands : Value) :
    (bind formals closure operands).Silent := by
  rw [bind]
  refine .bind (Eval.silent_elements operands) fun vs ↦ ?_
  dsimp only
  split_ifs
  · exact .fail _
  · exact .fail _
  · refine .bind (.modifyGet fun _ ↦ rfl) fun f ↦ .bind (silent_bindEach f _ vs) fun _ ↦ ?_
    split
    · exact .pure _
    · exact .bind (Eval.silent_newList _) fun list ↦ .bind (silent_bindOne f _ list) fun _ ↦ .pure _

end Combiner

/-! ## Host functions -/

theorem Value.silent_read [CharacterNames] (v : Value) : v.read.Silent := by
  rw [read.eq_def]
  split
  case h_3 => exact .mismatch _ _
  all_goals
    split
    · exact Eval.silent_instantiate _
    · exact .fail _

theorem Value.silent_head (v : Value) : v.head.Silent := by
  cases v with
  | pair tag h t => exact .pure _
  | nil => exact .pure _
  | literal tag t => cases t <;> exact .pure _
  | text t => cases t <;> exact .pure _
  | _ => exact .mismatch _ _

theorem Value.silent_tail (v : Value) : v.tail.Silent := by
  cases v with
  | pair tag h t => exact .pure _
  | nil => exact .pure _
  | literal tag t => exact .bind Eval.silent_freshTag fun _ ↦ .pure _
  | text t => exact .pure _
  | _ => exact .mismatch _ _

namespace Builtin

theorem silent_runVau (env : Option FrameId) (formals : Value) (body : List Value) :
    (runVau env formals body).Silent := by
  rw [runVau]
  split
  · exact .fail _
  · split
    · exact .fail _
    · refine .bind (.modifyGet fun _ ↦ rfl) fun closure ↦ ?_
      refine .bind (Combiner.silent_operative _ body _) fun op ↦ ?_
      exact .bind (.record rfl) fun _ ↦ .pure _

theorem silent_runLess (a b : Value) : (runLess a b).Silent := by
  rw [runLess]
  split_ifs
  · exact .mismatch _ _
  · exact .mismatch _ _
  · exact .pure _

/-- No primitive but `$define!` defines a name, where what it evaluates does not. -/
theorem silent_run [CharacterNames] {ev : Evaluator} (hev : ∀ e env, (ev e env).Silent)
    (env : Option FrameId) {b : Builtin} (hb : b ≠ .define) (vs : List Value) :
    (b.run ev env vs).Silent := by
  rw [run.eq_def]
  split
  case h_1 e => exact hev e env
  case h_2 e => exact hev e env
  case h_3 e f => exact hev e (some f)
  case h_4 => exact .mismatch _ _
  case h_5 v => exact Combiner.silent_wrap v
  case h_6 v => exact Combiner.silent_unwrap v
  case h_7 => exact absurd rfl hb
  case h_8 formals body => exact silent_runVau env formals body
  case h_9 v => exact v.silent_read
  case h_15 v => exact v.silent_head
  case h_16 v => exact v.silent_tail
  case h_18 a b => exact silent_runLess a b
  case h_19 => exact .fail _
  all_goals exact .pure _

end Builtin

theorem Native.silent_run (n : Native) (env : Option FrameId) (vs : List Value) :
    (n.run env vs).Silent := by
  rw [run.eq_def]
  split
  case h_3 => exact Eval.silent_newList _
  case h_7 => exact Eval.silent_newList _
  case h_8 => exact .bind Eval.silent_freshTag fun _ ↦ .pure _
  case h_9 => exact .bind Eval.silent_freshTag fun _ ↦ .pure _
  case h_10 => exact .fail _
  all_goals exact .pure _

theorem Procedure.silent_runInteger (vs : List Value) : (runInteger vs).Silent := by
  rw [runInteger.eq_def]
  split <;> exact .fail _

theorem silent_checkCount (a : Arity) (name : Text) (vs : List Value) :
    (checkCount a name vs).Silent := by
  rw [checkCount]
  split
  · exact .pure _
  · exact .fail _

theorem Environment.silent_lookup (env : Option FrameId) (name : Text) :
    (lookup env name).Silent := by
  cases env with
  | none => exact .fail _
  | some f =>
    intro s
    rw [Eval.after, lookup_eq]
    cases s.lookup? f name <;> exact .of_log_eq rfl

/-! ## The evaluator -/

namespace Watched

variable {α β : Type} {ev : Watcher} {env : Option FrameId}

/-- A computation whose records tell of the definitions that it completes. -/
def Audited (x : Watched α) : Prop := ∀ s : Store, s.Audit (x.run.after s) (x.completed s)

namespace Audited

theorem quiet {x : Eval α} (h : x.Silent) : Audited (.quiet x) := h

theorem pure (a : α) : Audited (Pure.pure a) := fun _ ↦ .of_log_eq rfl

theorem bind {x : Watched α} {k : α → Watched β} (hx : Audited x) (hk : ∀ a, Audited (k a)) :
    Audited (x >>= k) := by
  intro s
  have h := hx s
  change s.Audit ((x.run >>= fun a ↦ (k a).run).after s) (x.completed s ++ _)
  rw [Eval.after] at h ⊢
  cases hr : x.run s with
  | ok a t =>
    rw [hr] at h
    rw [Eval.bind_of_ok hr]
    exact h.trans (hk a t)
  | error e t =>
    rw [hr] at h
    rw [Eval.bind_of_error hr]
    exact h.trans (.of_log_eq rfl)

/-- An invocation of anything but `$define!` needs no record. -/
theorem note {c : Completion} (h : c.isDefinition = false) : Audited (.note c) :=
  fun _ ↦ ⟨[], rfl, by simp [Watched.note, Tells, h]⟩

end Audited

theorem audited_evaluateEach (hev : ∀ e env, (ev e env).Audited) (whole v : Value) :
    (evaluateEach ev env whole v).Audited := by
  induction v with
  | pair tag h t _ iht => exact .bind (hev h env) fun _ ↦ .bind iht fun _ ↦ .pure _
  | nil => exact .pure _
  | _ => exact .quiet (.mismatch _ _)

theorem audited_evaluateBody (hev : ∀ e env, (ev e env).Audited) (f : FrameId) (v : Value) :
    (evaluateBody ev f v).Audited := by
  induction v with
  | pair tag e rest _ ih =>
    cases rest with
    | nil => exact hev e _
    | pair tag h t => exact .bind (hev e _) fun _ ↦ ih
    | _ => exact .bind (hev e _) fun _ ↦ .pure _
  | _ => exact .pure _

/-- When `$define!` has bound its name there is a record of it; what it evaluates is audited by
itself. -/
theorem audited_define (hev : ∀ e env, (ev e env).Audited) (name e : Value) :
    (runDefine ev env name e >>= fun v ↦
      note ⟨.builtin .define, [name, e]⟩ >>= fun _ ↦ pure v).Audited := by
  cases name with
  | symbol n =>
    rw [runDefine, bind_assoc]
    refine .bind (hev e env) fun v s ↦ ?_
    cases env with
    | none => exact .of_log_eq rfl
    | some f => exact ⟨[.defined n], rfl, rfl⟩
  | _ => exact fun s ↦ .of_log_eq rfl

variable [CharacterNames]

theorem audited_runBuiltin (hev : ∀ e env, (ev e env).Audited) {b : Builtin} (hb : b ≠ .define)
    (vs : List Value) : (runBuiltin ev env b vs).Audited := by
  rw [runBuiltin.eq_def]
  split
  case h_1 e => exact hev e env
  case h_2 e => exact hev e env
  case h_3 e f => exact hev e (some f)
  case h_4 => exact absurd rfl hb
  case h_5 => exact .quiet (Builtin.silent_run (fun _ _ ↦ .throw _) env hb vs)

/-- An invocation of a primitive operative, with its completion. -/
theorem audited_invoke (hev : ∀ e env, (ev e env).Audited) (p : Procedure) (vs : List Value) :
    (runProcedure ev env p vs >>= fun v ↦ note ⟨p, vs⟩ >>= fun _ ↦ pure v).Audited := by
  by_cases hp : p = .builtin .define
  · subst hp
    rcases vs with _ | ⟨name, _ | ⟨e, _ | ⟨w, ws⟩⟩⟩
    case cons.cons.nil => exact audited_define hev name e
    -- With a wrong number of operands the invocation fails and is not completed.
    all_goals exact fun s ↦ .of_log_eq rfl
  · have hnote : Completion.isDefinition ⟨p, vs⟩ = false := decide_eq_false hp
    refine .bind ?_ fun v ↦ .bind (.note hnote) fun _ ↦ .pure v
    cases p with
    | builtin b => exact audited_runBuiltin hev (fun hb ↦ hp (hb ▸ rfl)) vs
    | native n => exact .quiet (n.silent_run env vs)
    | integerType => exact .quiet (Procedure.silent_runInteger vs)

theorem audited_applyWith (hev : ∀ e env, (ev e env).Audited) (op operands : Value) :
    (applyWith ev op operands env).Audited := by
  induction op generalizing operands with
  | applicative tag u ih =>
    refine .bind (audited_evaluateEach hev operands operands) fun vs ↦ ?_
    exact .bind (.quiet (Eval.silent_newList vs)) fun list ↦ ih list
  | operative tag formals body closure _ =>
    refine .bind (.quiet (Combiner.silent_bind formals closure operands)) fun f ↦ ?_
    exact .bind (.quiet (.record rfl)) fun _ ↦ audited_evaluateBody hev f body
  | primitive tag name p =>
    refine .bind (.quiet (Eval.silent_elements operands)) fun vs ↦ ?_
    exact .bind (.quiet (silent_checkCount p.arity name vs)) fun _ ↦ audited_invoke hev p vs
  | native n =>
    refine .quiet (.bind (Eval.silent_elements operands) fun vs ↦ ?_)
    exact .bind (silent_checkCount n.arity _ vs) fun _ ↦ n.silent_run env vs
  | _ => exact .quiet (.fail _)

theorem audited_evaluate (depth : Nat) (e : Value) (env : Option FrameId) :
    (evaluate depth e env).Audited := by
  induction depth generalizing e env with
  | zero => exact .quiet (.throw _)
  | succ depth ih =>
    cases e with
    | pair tag operator operands =>
      exact .bind (ih operator env) fun op ↦ audited_applyWith ih op operands
    | symbol name => exact .quiet (Environment.silent_lookup env name)
    | _ => exact .quiet (.pure _)

end Watched

/-! ## Changes to frames -/

/-- Values with the host functions of a world, and operands bound only in frames from `n₀` on. -/
def freshBinding (n₀ : Nat) : Policy where
  value _ v := v.bootstrapped = true
  scope _ _ := True
  parent _ _ := True
  own _ f := n₀ ≤ f
  value_mono _ hv := hv
  scope_mono _ _ := trivial
  own_mono _ hf := hf
  scope_of_own _ := trivial
  parent_of_scope _ := trivial
  inert {_ v} hv := by
    cases v with
    | native k =>
      cases k with
      | host name job => cases hv
      | _ => rfl
    | pair | applicative | operative | primitive => cases hv
    | _ => rfl
  int _ := rfl
  pair := by simp [Value.bootstrapped]
  underlying hv := hv
  applicative hu _ := hu
  body hv := ⟨hv, trivial⟩
  operative _ hb _ _ := hb
  primitive {_ _ _ p} hv := by
    cases p with
    | builtin b => exact ⟨b, rfl⟩
    | _ => cases hv
  native {_ k} hv := by
    cases k with
    | select b => exact .inl ⟨b, rfl⟩
    | currentWorld f => exact .inr ⟨f, rfl⟩
    | host name job => cases hv
  environment _ := trivial
  currentWorld _ := rfl

namespace Store

/-- Since `s₀` the log has grown by a record of the definition for each name whose binding was
changed in one of its frames. -/
structure Recorded (s₀ s : Store) : Prop where
  size_le : s₀.frames.size ≤ s.frames.size
  changed : ∃ made, s.log = made ++ s₀.log ∧
    ∀ f < s₀.frames.size, ∀ x, s.get? f x ≠ s₀.get? f x → .defined x ∈ made
  bootstrapped {f : FrameId} {name : Text} {v : Value} : s.get? f name = some v →
    v.bootstrapped = true

namespace Recorded

variable {s₀ s t : Store} {f : FrameId} {v : Value}

theorem refl (h : ∀ f name v, s.get? f name = some v → v.bootstrapped = true) : Recorded s s :=
  ⟨Nat.le_refl _, ⟨[], rfl, fun _ _ _ hne ↦ absurd rfl hne⟩, h _ _ _⟩

theorem of_frames_eq (h : Recorded s₀ s) (hframes : t.frames = s.frames) (made : List Record)
    (hlog : t.log = made ++ s.log) : Recorded s₀ t := by
  have hget : t.get? = s.get? := by
    funext f name
    rw [get?, get?, bindings, bindings, hframes]
  refine ⟨hframes ▸ h.size_le, ?_, hget ▸ h.bootstrapped⟩
  obtain ⟨made', hlog', hchanged⟩ := h.changed
  refine ⟨made ++ made', by rw [hlog, hlog', List.append_assoc], fun f hf x hne ↦ ?_⟩
  exact List.mem_append_right made (hchanged f hf x (hget ▸ hne))

/-- What is bound in a frame that was not there changes none that was. -/
theorem bind (h : Recorded s₀ s) (hf : s₀.frames.size ≤ f) (name : Text)
    (hv : v.bootstrapped = true) :
    Recorded s₀ (s.assign f name v) := by
  refine ⟨?_, ?_, fun {g other w} hw ↦ ?_⟩
  · rw [size_assign]
    exact h.size_le
  · obtain ⟨made, hlog, hchanged⟩ := h.changed
    refine ⟨made, hlog, fun g hg x hne ↦ hchanged g hg x ?_⟩
    have hgf : f ≠ g := (Nat.ne_of_lt (Nat.lt_of_lt_of_le hg hf)).symm
    rwa [get?, bindings, getElem?_assign_of_ne hgf, ← bindings, ← get?] at hne
  · rcases get?_assign_eq_some hw with ⟨-, -, rfl⟩ | hw
    · exact hv
    · exact h.bootstrapped hw

theorem newFrame (h : Recorded s₀ s) (c : Option FrameId) : Recorded s₀ (s.newFrame c) := by
  refine ⟨?_, ?_, fun {g name w} hw ↦ ?_⟩
  · rw [size_newFrame]
    exact Nat.le_succ_of_le h.size_le
  · obtain ⟨made, hlog, hchanged⟩ := h.changed
    refine ⟨made, hlog, fun g hg x hne ↦ hchanged g hg x ?_⟩
    rwa [get?_newFrame, if_neg (Nat.ne_of_lt (Nat.lt_of_lt_of_le hg h.size_le))] at hne
  · rw [get?_newFrame] at hw
    split_ifs at hw
    · cases hw
      rfl
    · exact h.bootstrapped hw

/-- A definition comes with its record. -/
theorem define (h : Recorded s₀ s) (f : FrameId) (name : Text) (hv : v.bootstrapped = true) :
    Recorded s₀ ((s.assign f name v).record (.defined name)) := by
  have hget : ((s.assign f name v).record (.defined name)).get? = (s.assign f name v).get? := rfl
  refine ⟨?_, ?_, fun {g other w} hw ↦ ?_⟩
  · exact Nat.le_trans h.size_le (Nat.le_of_eq (size_assign s f name v).symm)
  · obtain ⟨made, hlog, hchanged⟩ := h.changed
    refine ⟨.defined name :: made, congrArg _ hlog, fun g hg x hne ↦ ?_⟩
    by_cases hx : x = name
    · rw [hx]
      exact List.mem_cons_self
    · refine List.mem_cons_of_mem _ (hchanged g hg x ?_)
      by_cases hf : f < s.frames.size
      · rwa [hget, get?_assign s f g name x v hf, if_neg fun hgx ↦ hx hgx.2] at hne
      · rwa [hget, assign_of_size_le (Nat.le_of_not_lt hf)] at hne
  · rw [hget] at hw
    rcases get?_assign_eq_some hw with ⟨-, -, rfl⟩ | hw
    · exact hv
    · exact h.bootstrapped hw

theorem invariant [CharacterNames] (s₀ : Store) :
    (freshBinding s₀.frames.size).Invariant (Recorded s₀) fun _ ↦ True where
  lookup h _ hv := by
    obtain ⟨g, -, hv⟩ := exists_of_lookup? hv
    exact h.bootstrapped hv
  retag _ h := h.of_frames_eq rfl [] rfl
  newFrame h _ := ⟨h.newFrame _, h.size_le⟩
  bind name _ h hf hv := h.bind hf name hv
  define name _ h _ hv := h.define _ name hv
  record {_ r} h _ := h.of_frames_eq rfl [r] rfl
  ordinary _ := trivial
  unwritable _ _ := trivial
  unreadable _ := trivial
  homeless _ := ⟨trivial, fun _ ↦ trivial⟩
  bare _ := trivial

end Recorded

end Store

/-- On a store whose host functions are those of a world, every evaluation, whether it gives a value
or fails, only adds records to the log. For each frame that was there before and each name whose
binding in it was added or changed there is a record among these that the name was defined. Watching
the evaluation, which changes nothing, shows which invocations of `$define!` were completed, with
their operands: the records of definitions are those of these invocations, one for each, in the
order in which they were completed. -/
theorem definitions_audited [CharacterNames] (s : Store) (e : Value) (env : Option FrameId)
    (depth : Nat) (hheap : ∀ f name v, s.get? f name = some v → v.bootstrapped = true)
    (he : e.bootstrapped = true) :
    let t := (evaluate depth e env).after s
    let made := t.recordsSince s.log.length
    t.log = made.reverse ++ s.log ∧
    (∀ f < s.frames.size, ∀ x, t.get? f x ≠ s.get? f x → .defined x ∈ made) ∧
    (Watched.evaluate depth e env).run = evaluate depth e env ∧
    Tells made ((Watched.evaluate depth e env).completed s) := by
  intro t made
  have haudit := Watched.audited_evaluate depth e env s
  rw [Watched.run_evaluate] at haudit
  obtain ⟨records, hlog, htells⟩ := haudit
  have hmade : made = records.reverse := Store.recordsSince_eq hlog
  have hrecorded : s.Recorded t :=
    ((Store.Recorded.invariant s).evaluate depth (n := 0) he trivial).after (.refl hheap)
      (Nat.zero_le _)
  refine ⟨?_, fun f hf x hne ↦ ?_, Watched.run_evaluate depth e env, ?_⟩
  · rw [hmade, List.reverse_reverse]
    exact hlog
  · obtain ⟨records', hlog', hchanged⟩ := hrecorded.changed
    have hsame : records' = records := List.append_cancel_right (hlog'.symm.trans hlog)
    rw [hmade, List.mem_reverse, ← hsame]
    exact hchanged f hf x hne
  · rw [hmade]
    exact htells

open scoped CharacterNames

/-- The expression `(($define! x 5) 6)` fails, since 5 is no combiner; the definition before that is
on record. -/
theorem definitions_audited_failing :
    let e : Value := .listFrom 4 [.listFrom 1 [.symbol "$define!", .symbol "x", .int 5], .int 6]
    let t := (evaluate 3 e (some 1)).after Store.nested
    (∀ f name v, Store.nested.get? f name = some v → v.bootstrapped = true) ∧
      e.bootstrapped = true ∧
    (∃ shown, evaluate 3 e (some 1) Store.nested = .error (.fault (.notCallable shown)) t) ∧
    t.get? 1 "x" = some (.int 5) ∧ .defined "x" ∈ t.recordsSince 0 ∧
    Tells (t.recordsSince 0) [⟨.builtin .define, [.symbol "x", .int 5]⟩] := by
  intro e t
  have hheap : ∀ f name v, Store.nested.get? f name = some v → v.bootstrapped = true := by
    intro f name v hv
    rcases Store.get?_nested hv with ⟨b, rfl⟩ | rfl | ⟨-, rfl⟩ <;> rfl
  have hx : t.get? 1 "x" = some (.int 5) := by decide
  obtain ⟨-, hchanged, -, htells⟩ := definitions_audited Store.nested e (some 1) 3 hheap rfl
  refine ⟨hheap, rfl, ⟨_, rfl⟩, hx, hchanged 1 (by decide) "x" ?_, ?_⟩
  · change t.get? 1 "x" ≠ _
    rw [hx]
    decide
  · exact htells

end Fexpr
