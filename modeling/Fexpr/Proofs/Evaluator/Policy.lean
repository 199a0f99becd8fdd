import Fexpr.Evaluator
import Fexpr.Proofs.Combiner.Formals
import Mathlib.Tactic.SplitIfs

/-!
# Invariants of evaluation

An invariant of the store is kept by every evaluation if it is kept by what an evaluation does to
the store: it takes tags, makes frames, binds operands in the frames it has made, defines names in
the environment it evaluates in, and adds records to the log. Which values it may do this with is up
to a `Policy`. This file goes through the evaluator once and for all: `Invariant.evaluate` says
that, from values that the policy allows, every evaluation keeps the invariant, whether it gives a
value or fails, that the policy allows the value it gives, and that it fails only by faults which
are admitted.

A policy may allow more as frames are made, so it is asked with the number of frames.
-/

namespace Fexpr

/-! ## Running computations -/

namespace Eval

variable {α β : Type} {x : Eval α} {k : α → Eval β} {s t : Store}

theorem bind_of_ok {a : α} (h : x s = .ok a t) : (x >>= k) s = k a t := by
  change EStateM.bind x k s = _
  rw [EStateM.bind, h]

theorem bind_of_error {e : Failure} (h : x s = .error e t) : (x >>= k) s = .error e t := by
  change EStateM.bind x k s = _
  rw [EStateM.bind, h]

/-- What a computation leaves behind, whether it gives a value or fails. -/
def after (x : Eval α) (s : Store) : Store :=
  match x s with
  | .ok _ t => t
  | .error _ t => t

end Eval

namespace Environment

theorem new_eq (env : Option FrameId) (s : Store) :
    new env s = .ok s.frames.size (s.newFrame env) := rfl

theorem assign_eq (f : FrameId) (name : Text) (v : Value) (s : Store) :
    assign f name v s = .ok () (s.assign f name v) := rfl

theorem lookup_eq (f : FrameId) (name : Text) (s : Store) :
    lookup (some f) name s =
      match s.lookup? f name with
      | some v => .ok v s
      | none => .error (.fault (.unbound name)) s := by
  change (match s.lookup? f name with
    | some v => (pure v : Eval Value)
    | none => .fail (.unbound name)) s = _
  cases s.lookup? f name <;> rfl

end Environment

/-! ## Computations that keep an invariant -/

/-- `x.Ensures I F n Q`: on every store that satisfies `I` and has at least `n` frames, `x` keeps
`I` and loses no frame, gives a value that satisfies `Q` at the number of frames then, and fails by
a fault only if it satisfies `F`. -/
structure Eval.Ensures {α : Type} (x : Eval α) (I : Store → Prop) (F : Fault → Prop) (n : Nat)
    (Q : Nat → α → Prop) : Prop where
  run (s : Store) : I s → n ≤ s.frames.size →
    match x s with
    | .ok a t => s.frames.size ≤ t.frames.size ∧ I t ∧ Q t.frames.size a
    | .error e t => s.frames.size ≤ t.frames.size ∧ I t ∧ ∀ f, e = .fault f → F f

namespace Eval.Ensures

variable {α β : Type} {I : Store → Prop} {F : Fault → Prop} {n : Nat} {Q : Nat → α → Prop}
  {R : Nat → β → Prop}

theorem pure {a : α} (h : ∀ m, n ≤ m → Q m a) : Ensures (Pure.pure a) I F n Q :=
  ⟨fun _ hs hn ↦ ⟨Nat.le_refl _, hs, h _ hn⟩⟩

theorem fail {f : Fault} (h : F f) : Ensures (Eval.fail f) I F n Q := by
  refine ⟨fun s hs _ ↦ ⟨Nat.le_refl _, hs, ?_⟩⟩
  rintro g ⟨⟩
  exact h

theorem tooDeep : Ensures (throw Failure.tooDeep) I F n Q :=
  ⟨fun _ hs _ ↦ ⟨Nat.le_refl _, hs, by simp⟩⟩

theorem modifyGet {g : Store → α × Store}
    (h : ∀ s, I s → n ≤ s.frames.size →
      s.frames.size ≤ (g s).2.frames.size ∧ I (g s).2 ∧ Q (g s).2.frames.size (g s).1) :
    Ensures (MonadStateOf.modifyGet g) I F n Q :=
  ⟨h⟩

theorem bind {x : Eval α} {k : α → Eval β} (hx : Ensures x I F n Q)
    (hk : ∀ m a, n ≤ m → Q m a → Ensures (k a) I F m R) : Ensures (x >>= k) I F n R := by
  refine ⟨fun s hs hn ↦ ?_⟩
  have h := hx.run s hs hn
  cases hr : x s with
  | error e t =>
    rw [hr] at h
    rw [Eval.bind_of_error hr]
    exact h
  | ok a t =>
    rw [hr] at h
    obtain ⟨hle, ht, hq⟩ := h
    have h' := (hk _ a (Nat.le_trans hn hle) hq).run t ht (Nat.le_refl _)
    rw [Eval.bind_of_ok hr]
    cases hr' : k a t with
    | ok b u =>
      rw [hr'] at h'
      exact ⟨Nat.le_trans hle h'.1, h'.2⟩
    | error e u =>
      rw [hr'] at h'
      exact ⟨Nat.le_trans hle h'.1, h'.2⟩

theorem after {x : Eval α} (h : Ensures x I F n Q) {s : Store} (hs : I s) (hn : n ≤ s.frames.size) :
    I (x.after s) := by
  have h := h.run s hs hn
  rw [Eval.after]
  cases hx : x s with
  | ok a t =>
    rw [hx] at h
    exact h.2.1
  | error e t =>
    rw [hx] at h
    exact h.2.1

theorem of_ok {x : Eval α} (h : Ensures x I F n Q) {s t : Store} {a : α} (hs : I s)
    (hn : n ≤ s.frames.size) (hx : x s = .ok a t) : I t ∧ Q t.frames.size a := by
  have h := h.run s hs hn
  rw [hx] at h
  exact h.2

theorem of_error {x : Eval α} (h : Ensures x I F n Q) {s t : Store} {f : Fault} (hs : I s)
    (hn : n ≤ s.frames.size) (hx : x s = .error (.fault f) t) : F f := by
  have h := h.run s hs hn
  rw [hx] at h
  exact h.2.2 f rfl

end Eval.Ensures

/-! ## Policies -/

/-- Values without parts that stand for no frame: what is read apart from integers and pairs,
strings, and booleans. -/
def Value.isInert : Value → Bool
  | nil | float _ | text _ | literal _ _ | symbol _ | native (.select _) => true
  | _ => false

/-- The faults of programs, apart from text that cannot be read. -/
def Fault.isOrdinary : Fault → Bool
  | mismatch _ _ | unbound _ | notCallable _ | cannotTake _ _ | tooFew _ _ | tooMany _
  | emptyBody => true
  | unreadable _ | noEnvironment _ | noFrame | noMembers | notOperative | notInvocable | notInteger
  | badBase | badName _ | unwritable => false

/-- A formal that operands can be bound to. -/
def Formal.IsName (p : Formal) : Prop := ∃ name, p = .name name

namespace Formals

/-- Formals that are all names. -/
def AllNames (f : Formals) : Prop := (∀ p ∈ f.params, p.IsName) ∧ ∀ p, f.rest = some p → p.IsName

theorem AllNames.writable {f : Formals} (h : f.AllNames) : f.Writable := by
  have hname : ∀ p : Formal, p.IsName → p.Writable := by
    rintro _ ⟨x, rfl⟩
    exact Formal.writable_name x
  exact ⟨fun p hp ↦ hname p (h.1 p hp), fun p hp ↦ hname p (h.2 p hp)⟩

theorem allNames_ofNames (ps : List Text) (r : Option Text) : (ofNames ps r).AllNames := by
  simp [AllNames, ofNames, Formal.IsName]

end Formals

/-- What an evaluation may handle when there are a given number of frames. It handles no host
functions but those of a world. -/
structure Policy where
  /-- The values that it may handle. -/
  value : Nat → Value → Prop
  /-- The environments that it may evaluate in. -/
  scope : Nat → Option FrameId → Prop
  /-- What it may make the parent of a frame. -/
  parent : Nat → Option FrameId → Prop
  /-- The frames that it may bind operands in. -/
  own : Nat → FrameId → Prop
  value_mono {n m : Nat} {v : Value} : n ≤ m → value n v → value m v
  scope_mono {n m : Nat} {env : Option FrameId} : n ≤ m → scope n env → scope m env
  own_mono {n m : Nat} {f : FrameId} : n ≤ m → own n f → own m f
  scope_of_own {n : Nat} {f : FrameId} : own n f → scope n (some f)
  parent_of_scope {n : Nat} {env : Option FrameId} : scope n env → parent n env
  inert {n : Nat} {v : Value} : v.isInert = true → value n v
  int {n : Nat} {k : Int} : k.natAbs < 10 ^ Digit.limit → value n (.int k)
  pair {n : Nat} {tag : Tag} {h t : Value} : value n (.pair tag h t) ↔ value n h ∧ value n t
  underlying {n : Nat} {tag : Tag} {u : Value} : value n (.applicative tag u) → value n u
  applicative {n : Nat} {tag : Tag} {u : Value} : value n u → u.isCombiner = true →
    value n (.applicative tag u)
  body {n : Nat} {tag : Tag} {formals : Formals} {b : Value} {c : Option FrameId} :
    value n (.operative tag formals b c) → value n b ∧ parent n c
  operative {n : Nat} {tag : Tag} {formals : Formals} {b e : Value} {es : List Value}
    {f : FrameId} : formals.AllNames → value n b → b.elements? = some (e :: es) → own n f →
    value n (.operative tag formals b (some f))
  primitive {n : Nat} {tag : Tag} {name : Text} {p : Procedure} :
    value n (.primitive tag name p) → ∃ b, p = .builtin b
  native {n : Nat} {k : Native} : value n (.native k) →
    (∃ b, k = .select b) ∨ ∃ f, k = .currentWorld f
  environment {n : Nat} {f : FrameId} : value n (.environment f) → scope n (some f)
  currentWorld {n : Nat} {f : FrameId} : value n (.native (.currentWorld f)) →
    value n (.environment f)

/-- What makes `I` an invariant of evaluation under a policy, with the faults that `F` admits. -/
structure Policy.Invariant [CharacterNames] (P : Policy) (I : Store → Prop) (F : Fault → Prop) :
    Prop where
  lookup {s : Store} {f : FrameId} {name : Text} {v : Value} : I s →
    P.scope s.frames.size (some f) → s.lookup? f name = some v → P.value s.frames.size v
  retag {s : Store} (k : Tag) : I s → I { s with nextTag := k }
  newFrame {s : Store} {c : Option FrameId} : I s → P.parent s.frames.size c →
    I (s.newFrame c) ∧ P.own (s.frames.size + 1) s.frames.size
  bind {s : Store} {f : FrameId} (name : Text) {v : Value} : I s → P.own s.frames.size f →
    P.value s.frames.size v → I (s.assign f name v)
  define {s : Store} {f : FrameId} (name : Text) {v : Value} : I s →
    P.scope s.frames.size (some f) → P.value s.frames.size v →
    I ((s.assign f name v).record (.defined name))
  record {s : Store} {r : Record} : I s → (∀ name, r ≠ .defined name) → I (s.record r)
  ordinary {f : Fault} : f.isOrdinary = true → F f
  unwritable {n : Nat} {v : Value} : P.value n v → ¬ v.Writable → F .unwritable
  unreadable {t : Text} {e : ReadError} : readOne t = .error e → F (.unreadable e)
  homeless {n : Nat} : P.scope n none → F .noFrame ∧ ∀ t, F (.noEnvironment t)
  bare {n : Nat} {tag : Tag} : P.value n (.bareCombiner tag) → F .notInvocable

namespace Policy

variable {P : Policy} {I : Store → Prop} {F : Fault → Prop} {n m : Nat}

/-! ## What a policy allows -/

theorem values_mono {vs : List Value} (hnm : n ≤ m) (h : ∀ v ∈ vs, P.value n v) :
    ∀ v ∈ vs, P.value m v :=
  fun v hv ↦ P.value_mono hnm (h v hv)

theorem listFrom {vs : List Value} (h : ∀ v ∈ vs, P.value n v) (tag : Tag) :
    P.value n (.listFrom tag vs) := by
  induction vs generalizing tag with
  | nil => exact P.inert rfl
  | cons v vs ih =>
    rw [Value.listFrom]
    exact P.pair.mpr ⟨h v (by simp), ih (fun w hw ↦ h w (by simp [hw])) _⟩

theorem elements {v : Value} {vs : List Value} (hv : P.value n v) (h : v.elements? = some vs) :
    ∀ w ∈ vs, P.value n w :=
  Value.forall_mem_of_elements? P.pair.mp hv h

theorem ofDatum {d : Datum} (hd : d.Writable) (tag : Tag) : P.value n (Value.ofDatum d tag).1 := by
  induction d generalizing tag with
  | pair a b iha ihb => exact P.pair.mpr ⟨iha hd.1 _, ihb hd.2 _⟩
  | int k => exact P.int hd
  | _ => exact P.inert rfl

theorem boolean (b : Bool) : P.value n (.boolean b) := P.inert rfl

theorem codePoint (c : CodePoint) : P.value n (.int c.toNat) := by
  refine P.int ?_
  calc c.toNat < 10 ^ 7 := Nat.lt_of_lt_of_le c.toNat_lt (by decide)
    _ ≤ 10 ^ Digit.limit := Nat.pow_le_pow_right (by decide) (by decide)

theorem misspelled {v w : Value} {expected : Expected} (hv : P.value n v)
    (h : v.MisspellsFormals expected w) : P.value n w :=
  h.part P.pair.mp hv

variable [CharacterNames]

namespace Invariant

/-! ## Primitive computations -/

theorem shows (h : P.Invariant I F) {fault : Template → Fault}
    (hfault : ∀ shown, (fault shown).isOrdinary = true) {v : Value} (hv : P.value n v) {e : Fault}
    (he : Fault.Shows fault v e) : F e := by
  cases he with
  | written _ _ => exact h.ordinary (hfault _)
  | tooLong hlong => exact h.unwritable hv hlong

/-- A fault that shows a value is admitted. -/
theorem showing (h : P.Invariant I F) {fault : Template → Fault}
    (hfault : ∀ shown, (fault shown).isOrdinary = true) {v : Value} (hv : P.value n v) :
    F (.showing fault v.render) :=
  h.shows hfault hv (Fault.shows_showing fault v)

theorem mismatch {α : Type} {Q : Nat → α → Prop} (h : P.Invariant I F) (x : Expected) {v : Value}
    (hv : P.value n v) : (Eval.mismatch x v).Ensures I F n Q :=
  .fail (h.showing (fun _ ↦ rfl) hv)

theorem freshTag (h : P.Invariant I F) : Eval.freshTag.Ensures I F n fun _ _ ↦ True :=
  .modifyGet fun _ hs _ ↦ ⟨Nat.le_refl _, h.retag _ hs, trivial⟩

theorem newList (h : P.Invariant I F) {vs : List Value} (hvs : ∀ v ∈ vs, P.value n v) :
    (Eval.newList vs).Ensures I F n fun m v ↦ P.value m v ∧ v.elements? = some vs :=
  .modifyGet fun _ hs hn ↦ ⟨Nat.le_refl _, h.retag _ hs, listFrom (values_mono hn hvs) _,
    Value.elements?_listFrom _ _⟩

theorem instantiate (h : P.Invariant I F) {d : Datum} (hd : d.Writable) :
    (Eval.instantiate d).Ensures I F n P.value :=
  .modifyGet fun _ hs _ ↦ ⟨Nat.le_refl _, h.retag _ hs, P.ofDatum hd _⟩

theorem elements (h : P.Invariant I F) {v : Value} (hv : P.value n v) :
    (Eval.elements v).Ensures I F n fun m vs ↦ ∀ w ∈ vs, P.value m w := by
  rw [Eval.elements]
  split
  next vs hvs => exact .pure fun m hm ↦ values_mono hm (Policy.elements hv hvs)
  next => exact h.mismatch _ hv

theorem addRecord (h : P.Invariant I F) {r : Record} (hr : ∀ name, r ≠ .defined name) :
    (Eval.record r).Ensures I F n fun _ _ ↦ True :=
  .modifyGet fun _ hs _ ↦ ⟨Nat.le_refl _, h.record hs hr, trivial⟩

theorem environmentNew (h : P.Invariant I F) {env : Option FrameId}
    (henv : ∀ m, n ≤ m → P.parent m env) : (Environment.new env).Ensures I F n P.own := by
  refine .modifyGet fun s hs hn ↦ ?_
  obtain ⟨hI, hown⟩ := h.newFrame hs (henv _ hn)
  simp only [Store.size_newFrame]
  exact ⟨Nat.le_succ _, hI, hown⟩

theorem environmentLookup (h : P.Invariant I F) {env : Option FrameId} (henv : P.scope n env)
    (name : Text) : (Environment.lookup env name).Ensures I F n P.value := by
  cases env with
  | none => exact .fail ((h.homeless henv).2 _)
  | some f =>
    refine ⟨fun s hs hn ↦ ?_⟩
    rw [Environment.lookup_eq]
    cases hv : s.lookup? f name with
    | some v => exact ⟨Nat.le_refl _, hs, h.lookup hs (P.scope_mono hn henv) hv⟩
    | none =>
      refine ⟨Nat.le_refl _, hs, ?_⟩
      rintro g ⟨⟩
      exact h.ordinary rfl

/-! ## Combiners -/

theorem wrap (h : P.Invariant I F) {v : Value} (hv : P.value n v) :
    (Combiner.wrap v).Ensures I F n P.value := by
  rw [Combiner.wrap]
  split
  next hc =>
    refine .bind h.freshTag fun m tag hm _ ↦ .pure fun k hk ↦ ?_
    exact P.applicative (P.value_mono (Nat.le_trans hm hk) hv) hc
  next => exact h.mismatch _ hv

theorem unwrap (h : P.Invariant I F) {v : Value} (hv : P.value n v) :
    (Combiner.unwrap v).Ensures I F n P.value := by
  rw [Combiner.unwrap.eq_def]
  split
  next tag u => exact .pure fun m hm ↦ P.value_mono hm (P.underlying hv)
  next => exact h.mismatch _ hv

theorem makeOperative (h : P.Invariant I F) {formals : Formals} (hf : formals.AllNames)
    {body : List Value} (hbody : ∀ v ∈ body, P.value n v) {f : FrameId} (hown : P.own n f) :
    (Combiner.operative formals body (some f)).Ensures I F n P.value := by
  rw [Combiner.operative]
  split
  next => exact .fail (h.ordinary rfl)
  next hne =>
    obtain ⟨e, es, rfl⟩ := List.exists_cons_of_ne_nil (by simpa using hne : body ≠ [])
    refine .bind h.freshTag fun m tag hm _ ↦ ?_
    refine .bind (h.newList (values_mono hm hbody)) fun k b hk hb ↦ .pure fun l hl ↦ ?_
    have hnl : n ≤ l := Nat.le_trans hm (Nat.le_trans hk hl)
    exact P.operative hf (P.value_mono hl hb.1) hb.2 (P.own_mono hnl hown)

theorem bindOne (h : P.Invariant I F) {f : FrameId} (hown : P.own n f) {p : Formal}
    (hp : ¬ p.Writable → F .unwritable) {v : Value} (hv : P.value n v) :
    (Combiner.bindOne f p v).Ensures I F n fun _ _ ↦ True := by
  cases p with
  | name name =>
    refine .modifyGet fun s hs hn ↦ ?_
    have hI := h.bind name hs (P.own_mono hn hown) (P.value_mono hn hv)
    exact ⟨Nat.le_of_eq (Store.size_assign _ _ _ _).symm, hI, trivial⟩
  | misfit shown =>
    cases shown with
    | some shown => exact .fail (h.ordinary rfl)
    | none => exact .fail (hp fun hne ↦ hne rfl)

theorem bindEach (h : P.Invariant I F) {f : FrameId} (hown : P.own n f) {ps : List Formal}
    (hps : ∀ p ∈ ps, ¬ p.Writable → F .unwritable) {vs : List Value} (hvs : ∀ v ∈ vs, P.value n v) :
    (Combiner.bindEach f ps vs).Ensures I F n fun _ _ ↦ True := by
  induction ps generalizing vs n with
  | nil =>
    rw [Combiner.bindEach.eq_def]
    exact .pure fun _ _ ↦ trivial
  | cons p ps ih =>
    cases vs with
    | nil => exact .pure fun _ _ ↦ trivial
    | cons v vs =>
      obtain ⟨hp, hps⟩ := List.forall_mem_cons.mp hps
      refine .bind (h.bindOne hown hp (hvs v (by simp))) fun m _ hm _ ↦ ?_
      exact ih (P.own_mono hm hown) hps (values_mono hm fun w hw ↦ hvs w (by simp [hw]))

/-- A call binds its operands in a frame of its own. -/
theorem bindOperands (h : P.Invariant I F) {formals : Formals}
    (hf : ¬ formals.Writable → F .unwritable) {closure : Option FrameId}
    (hc : ∀ m, n ≤ m → P.parent m closure) {operands : Value} (hops : P.value n operands) :
    (Combiner.bind formals closure operands).Ensures I F n P.own := by
  rw [Combiner.bind]
  refine .bind (h.elements hops) fun m vs hm hvs ↦ ?_
  dsimp only
  split_ifs
  · exact .fail (h.ordinary rfl)
  · exact .fail (h.showing (fun _ ↦ rfl) (listFrom (fun v hv ↦ hvs v (List.mem_of_mem_drop hv)) 0))
  have hparams : ∀ p ∈ formals.params, ¬ p.Writable → F .unwritable := fun p hp hw ↦
    hf fun hall ↦ hw (hall.1 p hp)
  refine .bind (h.environmentNew fun k hk ↦ hc k (Nat.le_trans hm hk)) fun k f hk hown ↦ ?_
  refine .bind (h.bindEach hown hparams (values_mono hk hvs)) fun l _ hl _ ↦ ?_
  have hown := P.own_mono hl hown
  have hdrop : ∀ v ∈ vs.drop formals.params.length, P.value l v := fun v hv ↦
    values_mono (Nat.le_trans hk hl) hvs v (List.mem_of_mem_drop hv)
  split
  next => exact .pure fun i hi ↦ P.own_mono hi hown
  next r hr =>
    refine .bind (h.newList hdrop) fun i list hi hlist ↦ ?_
    have hrest : ¬ r.Writable → F .unwritable := fun hw ↦ hf fun hall ↦ hw (hall.2 r hr)
    refine .bind (h.bindOne (P.own_mono hi hown) hrest hlist.1) fun j _ hj _ ↦ ?_
    exact .pure fun q hq ↦ P.own_mono (Nat.le_trans hi (Nat.le_trans hj hq)) hown

/-! ## Host functions -/

/-- An evaluator that keeps the invariant. -/
def Evaluates (_ : P.Invariant I F) (ev : Evaluator) : Prop :=
  ∀ ⦃n e env⦄, P.value n e → P.scope n env → (ev e env).Ensures I F n P.value

theorem runDefine (h : P.Invariant I F) {ev : Evaluator} (hev : h.Evaluates ev)
    {env : Option FrameId} (henv : P.scope n env) {name e : Value} (hname : P.value n name)
    (he : P.value n e) :
    (Builtin.runDefine ev env name e).Ensures I F n P.value := by
  cases name with
  | symbol x =>
    refine .bind (hev he henv) fun m v hm hv ↦ ?_
    cases env with
    | none =>
      have hfail : (Environment.frame none).Ensures I F m fun _ _ ↦ False :=
        .fail (h.homeless henv).1
      exact .bind hfail fun _ _ _ hx ↦ hx.elim
    | some f =>
      -- The binding and its record are one step: the invariant need not hold in between.
      refine ⟨fun s hs hn ↦ ?_⟩
      have hI := h.define x hs (P.scope_mono (Nat.le_trans hm hn) henv) (P.value_mono hn hv)
      exact ⟨Nat.le_of_eq (Store.size_assign _ _ _ _).symm, hI, by
        simpa [Store.record] using P.value_mono hn hv⟩
  | _ => exact h.mismatch _ hname

theorem runVau (h : P.Invariant I F) {env : Option FrameId} (henv : P.scope n env) {formals : Value}
    (hformals : P.value n formals) {body : List Value} (hbody : ∀ v ∈ body, P.value n v) :
    (Builtin.runVau env formals body).Ensures I F n P.value := by
  rw [Builtin.runVau]
  rcases Formals.checks_ofValue formals with ⟨fs, hfs, ps, r, -, rfl⟩ | ⟨expected, w, hfail, hw⟩
  · rw [hfs]
    dsimp only
    split
    next => exact .fail (h.ordinary rfl)
    next =>
      have hparent : ∀ m, n ≤ m → P.parent m env := fun m hm ↦
        P.parent_of_scope (P.scope_mono hm henv)
      have hnames := Formals.allNames_ofNames ps r
      refine .bind (h.environmentNew hparent) fun m f hm hown ↦ ?_
      refine .bind (h.makeOperative hnames (values_mono hm hbody) hown) fun k op hk hop ↦ ?_
      refine .bind (h.addRecord (by simp)) fun l _ hl _ ↦ .pure fun i hi ↦ ?_
      exact P.value_mono (Nat.le_trans hl hi) hop
  · rw [hfail]
    exact .fail (h.showing (fun _ ↦ rfl) (misspelled hformals hw))

theorem runLess (h : P.Invariant I F) {a b : Value} (ha : P.value n a) (hb : P.value n b) :
    (Builtin.runLess a b).Ensures I F n P.value := by
  rw [Builtin.runLess]
  split_ifs
  · exact h.mismatch _ ha
  · exact h.mismatch _ hb
  · exact .pure fun _ _ ↦ P.boolean _

theorem read (h : P.Invariant I F) {v : Value} (hv : P.value n v) :
    v.read.Ensures I F n P.value := by
  rw [Value.read.eq_def]
  split
  case h_3 => exact h.mismatch _ hv
  all_goals
    split
    next d hd => exact h.instantiate (writable_of_readOne hd)
    next e he => exact .fail (h.unreadable he)

theorem head (h : P.Invariant I F) {v : Value} (hv : P.value n v) :
    v.head.Ensures I F n P.value := by
  cases v with
  | pair tag a b => exact .pure fun m hm ↦ P.value_mono hm (P.pair.mp hv).1
  | nil => exact .pure fun _ _ ↦ P.inert rfl
  | literal tag t =>
    cases t with
    | nil => exact .pure fun _ _ ↦ P.inert rfl
    | cons c t => exact .pure fun _ _ ↦ P.codePoint c
  | text t =>
    cases t with
    | nil => exact .pure fun _ _ ↦ P.inert rfl
    | cons c t => exact .pure fun _ _ ↦ P.codePoint c
  | _ => exact h.mismatch _ hv

theorem tail (h : P.Invariant I F) {v : Value} (hv : P.value n v) :
    v.tail.Ensures I F n P.value := by
  cases v with
  | pair tag a b => exact .pure fun m hm ↦ P.value_mono hm (P.pair.mp hv).2
  | nil => exact .pure fun _ _ ↦ P.inert rfl
  | literal tag t => exact .bind h.freshTag fun _ _ _ _ ↦ .pure fun _ _ ↦ P.inert rfl
  | text t => exact .pure fun _ _ ↦ P.inert rfl
  | _ => exact h.mismatch _ hv

theorem runBuiltin (h : P.Invariant I F) {ev : Evaluator} (hev : h.Evaluates ev)
    {env : Option FrameId} (henv : P.scope n env) (b : Builtin) {vs : List Value}
    (hvs : ∀ v ∈ vs, P.value n v) :
    (b.run ev env vs).Ensures I F n P.value := by
  rw [Builtin.run.eq_def]
  split
  case h_1 e => exact hev (hvs e (by simp)) henv
  case h_2 e => exact hev (hvs e (by simp)) henv
  case h_3 e f => exact hev (hvs e (by simp)) (P.environment (hvs (.environment f) (by simp)))
  case h_4 a v _ _ => exact h.mismatch _ (hvs v (by simp))
  case h_5 v => exact h.wrap (hvs v (by simp))
  case h_6 v => exact h.unwrap (hvs v (by simp))
  case h_7 name e => exact h.runDefine hev henv (hvs name (by simp)) (hvs e (by simp))
  case h_8 formals body =>
    exact h.runVau henv (hvs formals (by simp)) fun v hv ↦ hvs v (by simp [hv])
  case h_9 v => exact h.read (hvs v (by simp))
  case h_15 v => exact h.head (hvs v (by simp))
  case h_16 v => exact h.tail (hvs v (by simp))
  case h_18 a b => exact h.runLess (hvs a (by simp)) (hvs b (by simp))
  case h_19 => exact .fail (h.ordinary rfl)
  all_goals exact .pure fun _ _ ↦ P.boolean _

theorem runNative (h : P.Invariant I F) {k : Native} (hk : P.value n (.native k))
    (env : Option FrameId) {vs : List Value} (hvs : ∀ v ∈ vs, P.value n v) :
    (k.run env vs).Ensures I F n P.value := by
  obtain ⟨b, rfl⟩ | ⟨f, rfl⟩ := P.native hk
  · rw [Native.run.eq_def]
    split
    case h_1 first a c _ =>
      refine .pure fun m hm ↦ P.value_mono hm ?_
      split
      · exact hvs a (by simp)
      · exact hvs c (by simp)
    case h_10 => exact .fail (h.ordinary rfl)
    all_goals simp_all
  · exact .pure fun m hm ↦ P.value_mono hm (P.currentWorld hk)

/-! ## Evaluation -/

theorem evaluateEach (h : P.Invariant I F) {ev : Evaluator} (hev : h.Evaluates ev)
    {env : Option FrameId} (henv : P.scope n env) {whole v : Value} (hwhole : P.value n whole)
    (hv : P.value n v) :
    (evaluateEach ev env whole v).Ensures I F n fun m vs ↦ ∀ w ∈ vs, P.value m w := by
  induction v generalizing n with
  | nil => exact .pure fun _ _ ↦ by simp
  | pair tag a b _ ihb =>
    obtain ⟨ha, hb⟩ := P.pair.mp hv
    refine .bind (hev ha henv) fun m u hm hu ↦ ?_
    have hrest := ihb (P.scope_mono hm henv) (P.value_mono hm hwhole) (P.value_mono hm hb)
    refine .bind hrest fun k us hk hus ↦ ?_
    refine .pure fun l hl w hw ↦ ?_
    rcases List.mem_cons.mp hw with rfl | hw
    · exact P.value_mono (Nat.le_trans hk hl) hu
    · exact P.value_mono hl (hus w hw)
  | _ => exact h.mismatch _ hwhole

theorem evaluateBody (h : P.Invariant I F) {ev : Evaluator} (hev : h.Evaluates ev) {f : FrameId}
    (hf : P.scope n (some f)) {v : Value} (hv : P.value n v) :
    (evaluateBody ev f v).Ensures I F n P.value := by
  induction v generalizing n with
  | pair tag a b _ ihb =>
    obtain ⟨ha, hb⟩ := P.pair.mp hv
    rw [Fexpr.evaluateBody.eq_def]
    split
    next heq =>
      cases heq
      exact hev ha hf
    next heq =>
      cases heq
      exact .bind (hev ha hf) fun m _ hm _ ↦ ihb (P.scope_mono hm hf) (P.value_mono hm hb)
    next hne => exact absurd rfl (hne _ _ _)
  | _ => exact .pure fun _ _ ↦ P.inert rfl

theorem checkCount (h : P.Invariant I F) (a : Arity) (name : Text) (vs : List Value) :
    (checkCount a name vs).Ensures I F n fun _ _ ↦ True := by
  rw [Fexpr.checkCount]
  split
  · exact .pure fun _ _ ↦ trivial
  · exact .fail (h.ordinary rfl)

theorem applyWith (h : P.Invariant I F) {ev : Evaluator} (hev : h.Evaluates ev)
    {env : Option FrameId} (henv : P.scope n env) {op operands : Value} (hop : P.value n op)
    (hops : P.value n operands) :
    (applyWith ev op operands env).Ensures I F n P.value := by
  induction op generalizing n operands with
  | applicative tag u ih =>
    refine .bind (h.evaluateEach hev henv hops hops) fun m vs hm hvs ↦ ?_
    refine .bind (h.newList hvs) fun k list hk hlist ↦ ?_
    have hnk := Nat.le_trans hm hk
    exact ih (P.scope_mono hnk henv) (P.value_mono hnk (P.underlying hop)) hlist.1
  | operative tag formals body closure _ =>
    have hbody : ∀ m, n ≤ m → P.value m body ∧ P.parent m closure := fun m hm ↦
      P.body (P.value_mono hm hop)
    have hformals : ¬ formals.Writable → F .unwritable := h.unwritable hop
    refine .bind (h.bindOperands hformals (fun m hm ↦ (hbody m hm).2) hops) fun m f hm hown ↦ ?_
    refine .bind (h.addRecord (by simp)) fun k _ hk _ ↦ ?_
    exact h.evaluateBody hev (P.scope_of_own (P.own_mono hk hown)) (hbody k (Nat.le_trans hm hk)).1
  | primitive tag name p =>
    obtain ⟨b, rfl⟩ := P.primitive hop
    refine .bind (h.elements hops) fun m vs hm hvs ↦ ?_
    refine .bind (h.checkCount _ name vs) fun k _ hk _ ↦ ?_
    exact h.runBuiltin hev (P.scope_mono (Nat.le_trans hm hk) henv) b (values_mono hk hvs)
  | native k =>
    refine .bind (h.elements hops) fun m vs hm hvs ↦ ?_
    refine .bind (h.checkCount _ _ vs) fun l _ hl _ ↦ ?_
    exact h.runNative (P.value_mono (Nat.le_trans hm hl) hop) env (values_mono hl hvs)
  | bareCombiner tag => exact .fail (h.bare hop)
  | _ => exact .fail (h.showing (fun _ ↦ rfl) hop)

/-- Every evaluation keeps an invariant of evaluation and gives a value that the policy allows. -/
theorem evaluate (h : P.Invariant I F) (depth : Nat) : h.Evaluates (evaluate depth) := by
  induction depth with
  | zero => exact fun _ _ _ _ _ ↦ .tooDeep
  | succ depth ih =>
    intro n e env he henv
    cases e with
    | pair tag a b =>
      obtain ⟨ha, hb⟩ := P.pair.mp he
      refine .bind (ih ha henv) fun m op hm hop ↦ ?_
      exact h.applyWith ih (P.scope_mono hm henv) hop (P.value_mono hm hb)
    | symbol name => exact h.environmentLookup henv name
    | literal tag t => exact .pure fun _ _ ↦ P.inert rfl
    | absent => exact .pure fun _ _ ↦ P.inert rfl
    | _ => exact .pure fun m hm ↦ P.value_mono hm he

end Invariant

end Policy

end Fexpr
