import Fexpr.Proofs.Session.Soundness
import Fexpr.Proofs.Store.Linking
import Mathlib.Logic.Function.Basic

/-!
# Sessions do not interfere

A host runs any number of sessions on one store, each on a world of its own. Whatever it asks of
which session and in whatever order, what is seen of some of the sessions is what would be seen of
them if the others were not there. The store of the whole is linked to the store of these sessions
alone, and to that of the others alone, over frames apart; a request to one of them keeps both
links. Main statement: `sessions_isolated`.
-/

namespace Fexpr

/-! ## Hosts -/

/-- What is asked of a session. -/
inductive Session.Request
  /-- Start it, on a fresh world and without a prelude, where the host has a recursion limit. -/
  | start (present : Nat) (files : Files) (settings : Settings)
  /-- Evaluate a text in it for its values. -/
  | eval (t : Text)

/-- How a request ends, as it is shown. -/
inductive Outcome
  | started
  /-- The session does not start. -/
  | refused (e : SessionError)
  /-- There is no such session. -/
  | missing
  /-- The answer as a whole, and each of its values, as far as they can be shown. -/
  | answer (shown : Option Text) (values : List (Option Text))
  | fault (kind : Fault.Kind) (message : Text)
  | tooDeep
  deriving DecidableEq, Repr

namespace Outcome

/-- An answer as it is shown at present. -/
def ofAnswer (s : Store) (a : Answer) : Outcome :=
  answer (a.render.map s.fill) (a.toList.map fun v ↦ v.render.map s.fill)

/-- A failure as it is shown at present. -/
def ofFailure (s : Store) : Failure → Outcome
  | .fault f => fault f.kind (s.fill f.message)
  | .tooDeep => tooDeep

end Outcome

/-- What is seen of a request: how it ends, and how the session's world is shown then. -/
structure Observation where
  outcome : Outcome
  world : Text
  deriving DecidableEq, Repr

/-- A store, and the sessions that were started on it. -/
structure Host (ι : Type) where
  store : Store
  sessions : ι → Option Session

namespace Host

variable {ι : Type}

/-- A host without sessions. -/
def new (s : Store) : Host ι := ⟨s, fun _ ↦ none⟩

/-- What is seen of an evaluation in a world, and what it leaves behind. -/
def conclude (h : Host ι) (world : FrameId) :
    EStateM.Result Failure Store Answer → Observation × Host ι
  | .ok a s => (⟨.ofAnswer s a, s.detailEnvironment world⟩, { h with store := s })
  | .error e s => (⟨.ofFailure s e, s.detailEnvironment world⟩, { h with store := s })

variable [CharacterNames]

/-- Ask something of a session. -/
def ask [DecidableEq ι] (h : Host ι) (i : ι) : Session.Request → Observation × Host ι
  | .start present files settings =>
    match Session.start present .fresh .none files settings h.store with
    | .ok σ s =>
      (⟨.started, s.detailEnvironment σ.world⟩, ⟨s, Function.update h.sessions i (some σ)⟩)
    | .error e s => (⟨.refused e, []⟩, { h with store := s })
  | .eval t =>
    match h.sessions i with
    | some σ => h.conclude σ.world (Session.eval σ.depth σ.world t h.store)
    | none => (⟨.missing, []⟩, h)

/-- What is seen of requests one after another. -/
def trace [DecidableEq ι] (h : Host ι) : List (ι × Session.Request) → List (ι × Observation)
  | [] => []
  | (i, r) :: rest => (i, (h.ask i r).1) :: (h.ask i r).2.trace rest

end Host

/-! ## Worlds and sessions in step -/

section InStep

variable {k : Coupling} (S : Simulation .full)

/-- The value of an entry, if it is given, stands for itself. -/
def World.Entry.Closed : Entry → Prop
  | operative _ | applicative _ => True
  | constant _ v => ∀ k, v.Coupled .full k v

theorem World.closed_of_mem_entries : ∀ e ∈ entries, e.Closed := by
  simp [entries, Entry.Closed, Value.Coupled.nil, Value.Coupled.boolean]

namespace Simulation

theorem make {e : World.Entry} (he : e.Closed) :
    S.Couples k (Value.Coupled .full) e.make e.make := by
  cases e with
  | operative b =>
    exact .bind S.freshTag fun m a a' _ ha ↦ .pure (.primitive _ ha (.builtin trivial))
  | applicative b =>
    refine .bind S.freshTag fun m a a' _ ha ↦ .bind S.freshTag fun l c c' hml hc ↦ ?_
    exact .pure (.applicative hc (.primitive _ (Coupling.tag_mono hml ha) (.builtin trivial)))
  | constant name v => exact .pure (he k)

theorem install {es : List World.Entry} (hes : ∀ e ∈ es, e.Closed) {f f' : FrameId}
    (hf : k.frame f f') :
    S.Couples k (fun _ _ _ ↦ True) (World.install f es) (World.install f' es) := by
  induction es generalizing k with
  | nil => exact .pure trivial
  | cons e es ih =>
    refine .bind (S.make (hes e (by simp))) fun m v v' hkm hv ↦ ?_
    have hf := Coupling.frame_mono hkm hf
    refine .bind (S.environmentAssign hf trivial hv) fun l _ _ hml _ ↦ ?_
    exact ih (fun e' he ↦ hes e' (by simp [he])) (Coupling.frame_mono hml hf)

theorem newWorld : S.Couples k Coupling.frame World.new World.new := by
  refine .bind (S.environmentNew .none) fun m f f' _ hf ↦ ?_
  refine .bind (S.install World.closed_of_mem_entries hf) fun l _ _ hml _ ↦ ?_
  exact .pure (Coupling.frame_mono hml hf)

variable [CharacterNames] {world world' : FrameId} (depth : Nat)

theorem evaluateData (hw : k.frame world world') (ds : List Datum) :
    S.Couples k (Value.AllCoupled .full) (Session.evaluateData depth world ds)
      (Session.evaluateData depth world' ds) := by
  induction ds generalizing k with
  | nil => exact .pure .nil
  | cons d ds ih =>
    refine .bind (S.instantiate (fun _ ↦ trivial) d) fun m e e' hkm he ↦ ?_
    have hw := Coupling.frame_mono hkm hw
    refine .bind (S.evaluate depth he (.some hw)) fun l v v' hml hv ↦ ?_
    refine .bind (ih (Coupling.frame_mono hml hw)) fun i vs vs' hli hvs ↦ ?_
    exact .pure (.cons (hv.mono hli) hvs)

theorem evaluateText (hw : k.frame world world') (t : Text) :
    S.Couples k (Value.AllCoupled .full) (Session.evaluateText depth world t)
      (Session.evaluateText depth world' t) := by
  refine .bind (S.evaluateData depth hw _) fun m vs vs' hkm hvs ↦ ?_
  split
  · exact .fail (.textual rfl)
  · exact .pure hvs

end Simulation

end InStep

/-- Answers of coupled values. -/
inductive Answer.Coupled (V : Vocabulary) (k : Coupling) : Answer → Answer → Prop
  | value {v v' : Value} : v.Coupled V k v' → Coupled V k (.value v) (.value v')
  | values {vs vs' : List Value} : Value.AllCoupled V k vs vs' →
    Coupled V k (.values vs) (.values vs')

namespace Answer.Coupled

variable {V : Vocabulary} {k : Coupling} {a a' : Answer}

theorem ofList {vs vs' : List Value} (h : Value.AllCoupled V k vs vs') :
    Coupled V k (Answer.ofList vs) (Answer.ofList vs') := by
  match h with
  | .nil => exact .value .nil
  | .cons hv .nil => exact .value hv
  | .cons hv (.cons hw hvs) => exact .values (.cons hv (.cons hw hvs))

theorem toList (h : Coupled V k a a') : Value.AllCoupled V k a.toList a'.toList := by
  cases h with
  | value hv => exact .cons hv .nil
  | values hvs => exact hvs

theorem details (hk : k.shows) {vs vs' : List Value} (h : Value.AllCoupled V k vs vs') :
    Option.Rel (List.Forall₂ (Template.Coupled k)) (details vs) (details vs') := by
  induction h with
  | nil => exact .some .nil
  | cons hv _ ih =>
    exact (hv.detail hk).bind fun _ _ hshown ↦ ih.bind fun _ _ hothers ↦
      .some (.cons hshown hothers)

theorem render (hk : k.shows) (h : Coupled V k a a') :
    Option.Rel (Template.Coupled k) a.render a'.render := by
  cases h with
  | value hv => exact hv.render
  | values hvs =>
    exact (details hk hvs).map fun _ _ hshown ↦ .between _ _ (.intercalate (.ofText _) hshown)

end Answer.Coupled

theorem Simulation.evalSession [CharacterNames] {k : Coupling} (S : Simulation .full)
    {world world' : FrameId} (depth : Nat) (hw : k.frame world world') (t : Text) :
    S.Couples k (Answer.Coupled .full) (Session.eval depth world t) (Session.eval depth world' t) :=
  .bind (S.evaluateText depth hw t) fun _ _ _ _ hvs ↦ .pure (.ofList hvs)

/-! ## What is seen in linked stores -/

namespace Store.Linked

variable {V : Vocabulary} {k : Coupling} {s s' : Store}

/-- What can be shown is shown alike. -/
theorem map_fill (h : Linked V k s s') {t t' : Option Template}
    (ht : Option.Rel (Template.Coupled k) t t') : t.map s.fill = t'.map s'.fill :=
  (ht.map fun _ _ ht ↦ h.fill ht).eq fun _ _ heq ↦ heq

theorem ofAnswer (h : Linked V k s s') {a a' : Answer} (ha : a.Coupled V k a') :
    Outcome.ofAnswer s a = Outcome.ofAnswer s' a' := by
  have hvalues : (a.toList.map fun v ↦ v.render.map s.fill) =
      a'.toList.map fun v ↦ v.render.map s'.fill := by
    rw [← List.forall₂_eq_eq_eq]
    exact List.rel_map (fun _ _ hv ↦ h.map_fill hv.render) ha.toList
  rw [Outcome.ofAnswer, Outcome.ofAnswer, h.map_fill (ha.render h.shows), hvalues]

theorem ofFailure (h : Linked V k s s') {e e' : Failure} (he : e.Coupled k e') :
    Outcome.ofFailure s e = Outcome.ofFailure s' e' := by
  cases he with
  | fault hf => rw [Outcome.ofFailure, Outcome.ofFailure, hf.kind, h.fill hf.message]
  | tooDeep => rfl

end Store.Linked

/-! ## Starting a session -/

theorem Session.Run.bind_of_ok {α β : Type} {x : Run α} {c : α → Run β} {s t : Store} {a : α}
    (h : x s = .ok a t) : (x >>= c) s = c a t := by
  change EStateM.bind x c s = _
  rw [EStateM.bind, h]

theorem Session.Run.bind_of_error {α β : Type} {x : Run α} {c : α → Run β} {s t : Store}
    {e : SessionError} (h : x s = .error e t) : (x >>= c) s = .error e t := by
  change EStateM.bind x c s = _
  rw [EStateM.bind, h]

theorem Session.raiseLimit_eq (present : Nat) (settings : Settings) (s : Store) :
    raiseLimit present settings s =
      match Settings.limit present settings.recursionLimit with
      | .ok depth => .ok depth s
      | .error e => .error (.limit e) s := by
  rw [raiseLimit]
  cases Settings.limit present settings.recursionLimit <;> rfl

/-- A session on a fresh world and without a prelude is that world, with its files and settings and
the recursion limit; it is refused for a bad limit before the world is made. -/
theorem Session.start_fresh [CharacterNames] (present : Nat) (files : Files) (settings : Settings)
    {s t : Store} {world : FrameId} (hnew : World.new s = .ok world t) :
    start present .fresh .none files settings s =
      match Settings.limit present settings.recursionLimit with
      | .ok depth => .ok ⟨world, files, settings, depth⟩ t
      | .error e => .error (.limit e) s := by
  have hlift : lift (chooseWorld .fresh) s = .ok world t := by
    rw [lift, chooseWorld, EStateM.adaptExcept, hnew]
  have hraise := raiseLimit_eq present settings s
  rw [start]
  generalize Settings.limit present settings.recursionLimit = given at hraise ⊢
  cases given with
  | error e => rw [Run.bind_of_error hraise]
  | ok depth =>
    rw [Run.bind_of_ok hraise, Run.bind_of_ok hlift]
    rfl

/-! ## Two parties on one host -/

/-- Sessions on coupled worlds, with the same recursion limit. -/
def Session.Coupled (k : Coupling) (σ σ' : Session) : Prop :=
  k.frame σ.world σ'.world ∧ σ.depth = σ'.depth

/-- A host as seen by two parties of its sessions, those in `P` and those in `Q`: its store is
linked to the store of each party alone, over frames apart, and so are the party's sessions. -/
structure Host.Split {ι : Type} (P Q : ι → Prop) (k₁ k₂ : Coupling) (h h₁ h₂ : Host ι) : Prop where
  left : h₁.store.Linked .full k₁ h.store
  right : h₂.store.Linked .full k₂ h.store
  apart : k₁.Apart k₂
  sessions_left (i : ι) : P i → Option.Rel (Session.Coupled k₁) (h₁.sessions i) (h.sessions i)
  sessions_right (i : ι) : Q i → Option.Rel (Session.Coupled k₂) (h₂.sessions i) (h.sessions i)

namespace Host.Split

variable {ι : Type} {P Q : ι → Prop} {k₁ k₂ m : Coupling} {h h₁ h₂ : Host ι}

theorem symm (hs : Split P Q k₁ k₂ h h₁ h₂) : Split Q P k₂ k₁ h h₂ h₁ :=
  ⟨hs.right, hs.left, hs.apart.symm, hs.sessions_right, hs.sessions_left⟩

/-- Hosts without sessions are split. -/
theorem new (s s₁ s₂ : Store) : Split P Q .empty .empty (.new s) (.new s₁) (.new s₂) :=
  ⟨Store.linked_empty s₁ s, Store.linked_empty s₂ s, fun _ _ _ hf ↦ hf.elim,
    fun _ _ ↦ .none, fun _ _ ↦ .none⟩

/-- What the first party evaluates keeps the host split. -/
theorem evolve (hs : Split P Q k₁ k₂ h h₁ h₂) (hm : k₁ ≤ m) {s s₁ : Store}
    (hsim : (Simulation.beside k₂ h₂.store).holds m s₁ s) :
    Split P Q m k₂ { h with store := s } { h₁ with store := s₁ } h₂ := by
  obtain ⟨hleft, hright, hapart⟩ := hsim
  refine ⟨hleft, hright, hapart, ?_, hs.sessions_right⟩
  intro i hi
  exact (hs.sessions_left i hi).imp fun _ _ hσ ↦ ⟨Coupling.frame_mono hm hσ.1, hσ.2⟩

/-- So does a new session of the first party. -/
theorem enter [DecidableEq ι] (hs : Split P Q k₁ k₂ h h₁ h₂) {i : ι} (hQ : ¬ Q i) {σ σ' : Session}
    (hσ : σ.Coupled k₁ σ') :
    Split P Q k₁ k₂ ⟨h.store, Function.update h.sessions i (some σ')⟩
      ⟨h₁.store, Function.update h₁.sessions i (some σ)⟩ h₂ := by
  refine ⟨hs.left, hs.right, hs.apart, ?_, ?_⟩
  · intro j hj
    by_cases hji : j = i
    · subst hji
      simp only [Function.update_self]
      exact .some hσ
    · simp only [Function.update_of_ne hji]
      exact hs.sessions_left j hj
  · intro j hj
    have hji : j ≠ i := fun hji ↦ hQ (hji ▸ hj)
    simp only [Function.update_of_ne hji]
    exact hs.sessions_right j hj

/-- An evaluation of the first party is seen alike on the host and without the second party. -/
theorem conclude (hs : Split P Q k₁ k₂ h h₁ h₂) {world world' : FrameId}
    (hw : k₁.frame world world') {r r' : EStateM.Result Failure Store Answer}
    (hr : (Simulation.beside k₂ h₂.store).Outcomes k₁ (Answer.Coupled .full) r r') :
    (h₁.conclude world r).1 = (h.conclude world' r').1 ∧
      ∃ m, Split P Q m k₂ (h.conclude world' r').2 (h₁.conclude world r).2 h₂ := by
  cases hr with
  | ok hm hsim ha =>
    have hworld := hsim.1.detailEnvironment (Coupling.frame_mono hm hw)
    refine ⟨?_, _, hs.evolve hm hsim⟩
    simp only [Host.conclude, hsim.1.ofAnswer ha, hworld]
  | error hm hsim he =>
    have hworld := hsim.1.detailEnvironment (Coupling.frame_mono hm hw)
    refine ⟨?_, _, hs.evolve hm hsim⟩
    simp only [Host.conclude, hsim.1.ofFailure he, hworld]

variable [CharacterNames] [DecidableEq ι] {i : ι}

theorem askStart (hs : Split P Q k₁ k₂ h h₁ h₂) (hQ : ¬ Q i) (present : Nat) (files : Files)
    (settings : Settings) :
    let r : Session.Request := .start present files settings
    (h₁.ask i r).1 = (h.ask i r).1 ∧ ∃ m, Split P Q m k₂ (h.ask i r).2 (h₁.ask i r).2 h₂ := by
  intro r
  obtain ⟨world, s, hnew⟩ := World.exists_new h.store
  obtain ⟨world₁, s₁, hnew₁⟩ := World.exists_new h₁.store
  have hr := (Simulation.beside k₂ h₂.store).newWorld.run _ _ ⟨hs.left, hs.right, hs.apart⟩
  rw [hnew, hnew₁] at hr
  simp only [r, ask, Session.start_fresh _ _ _ hnew, Session.start_fresh _ _ _ hnew₁]
  cases Settings.limit present settings.recursionLimit with
  | error e => exact ⟨rfl, k₁, hs⟩
  | ok depth =>
    cases hr with
    | ok hm hsim hw =>
      have hworld := hsim.1.detailEnvironment hw
      exact ⟨congrArg (Observation.mk .started) hworld, _, (hs.evolve hm hsim).enter hQ ⟨hw, rfl⟩⟩

theorem askEval (hs : Split P Q k₁ k₂ h h₁ h₂) (hP : P i) (t : Text) :
    (h₁.ask i (.eval t)).1 = (h.ask i (.eval t)).1 ∧
      ∃ m, Split P Q m k₂ (h.ask i (.eval t)).2 (h₁.ask i (.eval t)).2 h₂ := by
  obtain ⟨σ, σ', hσ, hσ', hw, hdepth⟩ | ⟨hnone, hnone'⟩ := (hs.sessions_left i hP).exists_or
  · simp only [ask, hσ, hσ', hdepth]
    have hsim := (Simulation.beside k₂ h₂.store).evalSession σ'.depth hw t
    exact hs.conclude hw (hsim.run _ _ ⟨hs.left, hs.right, hs.apart⟩)
  · simp only [ask, hnone, hnone']
    exact ⟨trivial, k₁, hs⟩

/-- A request to the first party is seen alike on the host and without the second party, and keeps
the host split. -/
theorem ask (hs : Split P Q k₁ k₂ h h₁ h₂) (hP : P i) (hQ : ¬ Q i) (r : Session.Request) :
    (h₁.ask i r).1 = (h.ask i r).1 ∧ ∃ m, Split P Q m k₂ (h.ask i r).2 (h₁.ask i r).2 h₂ := by
  cases r with
  | start present files settings => exact hs.askStart hQ present files settings
  | eval t => exact hs.askEval hP t

/-- What is seen of one party is what is seen of it alone. -/
theorem trace {p : ι → Bool} (hs : Split (p · = true) (p · = false) k₁ k₂ h h₁ h₂)
    (requests : List (ι × Session.Request)) :
    (h.trace requests).filter (fun o ↦ p o.1) = h₁.trace (requests.filter fun r ↦ p r.1) := by
  induction requests generalizing k₁ k₂ h h₁ h₂ with
  | nil => rfl
  | cons request rest ih =>
    obtain ⟨i, r⟩ := request
    rw [Host.trace]
    cases hp : p i with
    | true =>
      obtain ⟨hseen, m, hs'⟩ := hs.ask hp (by simp [hp]) r
      simp only [List.filter_cons, hp, if_true, Host.trace, hseen, ih hs']
    | false =>
      -- The other party moves on, and nothing of it is seen.
      obtain ⟨-, m, hs'⟩ := hs.symm.ask hp (by simp [hp]) r
      simp only [List.filter_cons, hp, Bool.false_eq_true, if_false, ih hs'.symm]

end Host.Split

/-- Sessions that are started on fresh worlds of one store do not interfere, whatever recursion
limits they find or ask for. Of all that is asked of them, in any order, what is seen of those in
`p`, one session or several, is what is seen if only they are asked: how each request ends, with its
values or the kind and the message of its fault, and how the session's world is shown after it. -/
theorem sessions_isolated [CharacterNames] {ι : Type} [DecidableEq ι] (s s₁ : Store) (p : ι → Bool)
    (requests : List (ι × Session.Request)) :
    ((Host.new s).trace requests).filter (fun o ↦ p o.1) =
      (Host.new s₁).trace (requests.filter fun r ↦ p r.1) := by
  apply Host.Split.trace
  exact Host.Split.new s s₁ s₁

end Fexpr
