import Fexpr.Proofs.Evaluator.Policy
import Fexpr.Proofs.Value.Coupling

/-!
# Evaluating in two stores at once

A `Simulation` is a relation between two stores, over a coupling of their frames and tags, that is
kept when both take tags, make frames, bind names and add records in step, and under which names
have coupled values in coupled environments. This file goes through the evaluator once and for all,
like `Invariant.evaluate` for a single store: `Simulation.evaluate` says that evaluating coupled
expressions in coupled environments gives coupled values or fails by coupled faults, and leaves
related stores behind, over a coupling that has only grown.
-/

namespace Fexpr

/-- A relation between stores that evaluations keep. -/
structure Simulation (V : Vocabulary) where
  holds : Coupling → Store → Store → Prop
  lookup {k : Coupling} {s s' : Store} {f f' : FrameId} {n : Text} : holds k s s' → k.frame f f' →
    V.name n → Option.Rel (Value.Coupled V k) (s.lookup? f n) (s'.lookup? f' n)
  retag {k : Coupling} {s s' : Store} (n : Nat) : holds k s s' → ∃ m, k ≤ m ∧
    holds m { s with nextTag := s.nextTag + n } { s' with nextTag := s'.nextTag + n } ∧
    ∀ i < n, m.tag (s.nextTag + i) (s'.nextTag + i)
  newFrame {k : Coupling} {s s' : Store} {c c' : Option FrameId} : holds k s s' →
    Option.Rel k.frame c c' → ∃ m, k ≤ m ∧ holds m (s.newFrame c) (s'.newFrame c') ∧
    m.frame s.frames.size s'.frames.size
  assign {k : Coupling} {s s' : Store} {f f' : FrameId} {n : Text} {v v' : Value} : holds k s s' →
    k.frame f f' → V.name n → v.Coupled V k v' → holds k (s.assign f n v) (s'.assign f' n v')
  record {k : Coupling} {s s' : Store} {r r' : Record} : holds k s s' → r.Coupled V k r' →
    holds k (s.record r) (s'.record r')

namespace Simulation

variable {V : Vocabulary} {S : Simulation V} {k m : Coupling} {α β : Type}
  {Q : Coupling → α → α → Prop} {R : Coupling → β → β → Prop}

/-! ## Computations in step -/

/-- Two computations end in the same way, over a coupling that has grown from `k`: with values in
the relation `Q` or by coupled failures, and in related stores. -/
inductive Outcomes (S : Simulation V) (k : Coupling) (Q : Coupling → α → α → Prop) :
    EStateM.Result Failure Store α → EStateM.Result Failure Store α → Prop
  | ok {m : Coupling} {a a' : α} {s s' : Store} : k ≤ m → S.holds m s s' → Q m a a' →
    Outcomes S k Q (.ok a s) (.ok a' s')
  | error {m : Coupling} {e e' : Failure} {s s' : Store} : k ≤ m → S.holds m s s' → e.Coupled m e' →
    Outcomes S k Q (.error e s) (.error e' s')

/-- Two computations that end in the same way from all stores that are related over `k`. -/
structure Couples (S : Simulation V) (k : Coupling) (Q : Coupling → α → α → Prop) (x x' : Eval α) :
    Prop where
  run (s s' : Store) : S.holds k s s' → S.Outcomes k Q (x s) (x' s')

theorem Outcomes.of_le {r r' : EStateM.Result Failure Store α} (hkm : k ≤ m)
    (h : S.Outcomes m Q r r') :
    S.Outcomes k Q r r' := by
  cases h with
  | ok hm hs hq => exact .ok (le_trans hkm hm) hs hq
  | error hm hs he => exact .error (le_trans hkm hm) hs he

namespace Couples

theorem pure {a a' : α} (h : Q k a a') : S.Couples k Q (Pure.pure a) (Pure.pure a') :=
  ⟨fun _ _ hs ↦ .ok (le_refl k) hs h⟩

theorem fail {f f' : Fault} (h : f.Coupled k f') : S.Couples k Q (Eval.fail f) (Eval.fail f') :=
  ⟨fun _ _ hs ↦ .error (le_refl k) hs (.fault h)⟩

theorem mismatch (e : Expected) {v v' : Value} (hv : v.Coupled V k v') :
    S.Couples k Q (Eval.mismatch e v) (Eval.mismatch e v') :=
  .fail (.showing (fun _ _ ↦ .mismatch e) hv.render)

theorem tooDeep : S.Couples k Q (throw Failure.tooDeep) (throw Failure.tooDeep) :=
  ⟨fun _ _ hs ↦ .error (le_refl k) hs .tooDeep⟩

theorem modifyGet {g g' : Store → α × Store}
    (h : ∀ s s', S.holds k s s' → ∃ m, k ≤ m ∧ S.holds m (g s).2 (g' s').2 ∧
      Q m (g s).1 (g' s').1) :
    S.Couples k Q (MonadStateOf.modifyGet g) (MonadStateOf.modifyGet g') := by
  constructor
  intro s s' hs
  obtain ⟨m, hkm, hm, hq⟩ := h s s' hs
  exact .ok hkm hm hq

theorem bind {x x' : Eval α} {c c' : α → Eval β} (hx : S.Couples k Q x x')
    (hc : ∀ m a a', k ≤ m → Q m a a' → S.Couples m R (c a) (c' a')) :
    S.Couples k R (x >>= c) (x' >>= c') := by
  constructor
  intro s s' hs
  have h := hx.run s s' hs
  generalize hr : x s = r, hr' : x' s' = r' at h
  cases h with
  | ok hkm hm hq =>
    rw [Eval.bind_of_ok hr, Eval.bind_of_ok hr']
    exact .of_le hkm ((hc _ _ _ hkm hq).run _ _ hm)
  | error hkm hm he =>
    rw [Eval.bind_of_error hr, Eval.bind_of_error hr']
    exact .error hkm hm he

end Couples

/-! ## Primitive computations -/

theorem freshTag (S : Simulation V) : S.Couples k Coupling.tag Eval.freshTag Eval.freshTag := by
  refine .modifyGet fun s s' hs ↦ ?_
  obtain ⟨m, hkm, hm, ht⟩ := S.retag 1 hs
  exact ⟨m, hkm, hm, ht 0 Nat.one_pos⟩

theorem newList (S : Simulation V) {vs vs' : List Value} (hvs : Value.AllCoupled V k vs vs') :
    S.Couples k (Value.Coupled V) (Eval.newList vs) (Eval.newList vs') := by
  refine .modifyGet fun s s' hs ↦ ?_
  obtain ⟨m, hkm, hm, ht⟩ := S.retag vs.length hs
  refine ⟨m, hkm, ?_, .listFrom (Value.Coupled.all_mono hkm hvs) ht⟩
  rw [hvs.length_eq] at hm ⊢
  exact hm

theorem instantiate (S : Simulation V) (hV : ∀ n, V.name n) (d : Datum) :
    S.Couples k (Value.Coupled V) (Eval.instantiate d) (Eval.instantiate d) := by
  refine .modifyGet fun s s' hs ↦ ?_
  obtain ⟨m, hkm, hm, ht⟩ := S.retag d.tagCount hs
  refine ⟨m, hkm, ?_, .ofDatum hV d ht⟩
  simp only [Value.snd_ofDatum]
  exact hm

theorem elements (S : Simulation V) {v v' : Value} (hv : v.Coupled V k v') :
    S.Couples k (Value.AllCoupled V) (Eval.elements v) (Eval.elements v') := by
  rw [Eval.elements, Eval.elements]
  obtain ⟨vs, vs', hvs, hvs', hall⟩ | ⟨hnone, hnone'⟩ := hv.elements?.exists_or
  · rw [hvs, hvs']
    exact .pure hall
  · rw [hnone, hnone']
    exact .mismatch _ hv

theorem addRecord (S : Simulation V) {r r' : Record} (hr : r.Coupled V k r') :
    S.Couples k (fun _ _ _ ↦ True) (Eval.record r) (Eval.record r') :=
  .modifyGet fun _ _ hs ↦ ⟨k, le_refl k, S.record hs hr, trivial⟩

theorem environmentNew (S : Simulation V) {env env' : Option FrameId}
    (henv : Option.Rel k.frame env env') :
    S.Couples k Coupling.frame (Environment.new env) (Environment.new env') :=
  .modifyGet fun _ _ hs ↦ S.newFrame hs henv

theorem environmentAssign (S : Simulation V) {f f' : FrameId} (hf : k.frame f f') {n : Text}
    (hn : V.name n) {v v' : Value} (hv : v.Coupled V k v') :
    S.Couples k (fun _ _ _ ↦ True) (Environment.assign f n v) (Environment.assign f' n v') :=
  .modifyGet fun _ _ hs ↦ ⟨k, le_refl k, S.assign hs hf hn hv, trivial⟩

theorem environmentFrame {env env' : Option FrameId} (henv : Option.Rel k.frame env env') :
    S.Couples k Coupling.frame (Environment.frame env) (Environment.frame env') := by
  cases henv with
  | some hf => exact .pure hf
  | none => exact .fail (.textual rfl)

theorem environmentLookup (S : Simulation V) {env env' : Option FrameId}
    (henv : Option.Rel k.frame env env') {n : Text} (hn : V.name n) :
    S.Couples k (Value.Coupled V) (Environment.lookup env n) (Environment.lookup env' n) := by
  cases henv with
  | none => exact .fail (.noEnvironment (.ofText n))
  | some hf =>
    constructor
    intro s s' hs
    rw [Environment.lookup_eq, Environment.lookup_eq]
    obtain ⟨v, v', hv, hv', hvv⟩ | ⟨hnone, hnone'⟩ := (S.lookup hs hf hn).exists_or
    · rw [hv, hv']
      exact .ok (le_refl k) hs hvv
    · rw [hnone, hnone']
      exact .error (le_refl k) hs (.fault (.textual rfl))

/-! ## Combiners -/

theorem wrap (S : Simulation V) {v v' : Value} (hv : v.Coupled V k v') :
    S.Couples k (Value.Coupled V) (Combiner.wrap v) (Combiner.wrap v') := by
  have hkind : v.isCombiner = v'.isCombiner := by cases hv <;> rfl
  rw [Combiner.wrap, Combiner.wrap, hkind]
  split
  · refine .bind S.freshTag fun m a a' hkm ha ↦ ?_
    exact .pure (.applicative ha (hv.mono hkm))
  · exact .mismatch _ hv

theorem unwrap {v v' : Value} (hv : v.Coupled V k v') :
    S.Couples k (Value.Coupled V) (Combiner.unwrap v) (Combiner.unwrap v') := by
  have hfail : S.Couples k (Value.Coupled V) (Eval.mismatch .applicative v)
      (Eval.mismatch .applicative v') :=
    .mismatch _ hv
  cases hv with
  | applicative _ hu => exact .pure hu
  | _ => exact hfail

theorem makeOperative (S : Simulation V) {formals formals' : Formals}
    (hf : formals.Coupled V k formals') {body body' : List Value}
    (hbody : Value.AllCoupled V k body body') {f f' : FrameId} (hclosure : k.frame f f') :
    S.Couples k (Value.Coupled V) (Combiner.operative formals body (some f))
      (Combiner.operative formals' body' (some f')) := by
  rw [Combiner.operative, Combiner.operative]
  cases hbody with
  | nil => exact .fail (.textual rfl)
  | cons hv hvs =>
    refine .bind S.freshTag fun m a a' hkm ha ↦ ?_
    refine .bind (S.newList (Value.Coupled.all_mono hkm (.cons hv hvs))) fun l b b' hml hb ↦ ?_
    have hkl := le_trans hkm hml
    exact .pure (.operative (Coupling.tag_mono hml ha) (hf.mono hkl) hb
      (.some (Coupling.frame_mono hkl hclosure)))

theorem bindOne (S : Simulation V) {f f' : FrameId} (hf : k.frame f f') {p p' : Formal}
    (hp : p.Coupled V k p') {v v' : Value} (hv : v.Coupled V k v') :
    S.Couples k (fun _ _ _ ↦ True) (Combiner.bindOne f p v) (Combiner.bindOne f' p' v') := by
  cases hp with
  | name hn => exact S.environmentAssign hf hn hv
  | misfit hshown =>
    exact .fail (.showing (fun _ _ ↦ .mismatch _) (hshown.map fun _ _ hp ↦ hp.2))

theorem bindEach (S : Simulation V) {f f' : FrameId} (hf : k.frame f f') {ps ps' : List Formal}
    (hps : List.Forall₂ (Formal.Coupled V k) ps ps') {vs vs' : List Value}
    (hvs : Value.AllCoupled V k vs vs') :
    S.Couples k (fun _ _ _ ↦ True) (Combiner.bindEach f ps vs) (Combiner.bindEach f' ps' vs') := by
  induction ps generalizing k ps' vs vs' with
  | nil =>
    cases hps
    rw [Combiner.bindEach.eq_def, Combiner.bindEach.eq_def]
    exact .pure trivial
  | cons p ps ih =>
    cases hps with
    | cons hp hps =>
      cases hvs with
      | nil => exact .pure trivial
      | cons hv hvs =>
        refine .bind (S.bindOne hf hp hv) fun m _ _ hkm _ ↦ ?_
        apply ih (Coupling.frame_mono hkm hf)
        · exact hps.imp fun _ _ hq ↦ hq.mono hkm
        · exact Value.Coupled.all_mono hkm hvs

theorem bindOperands (S : Simulation V) {formals formals' : Formals}
    (hf : formals.Coupled V k formals') {closure closure' : Option FrameId}
    (hc : Option.Rel k.frame closure closure') {operands operands' : Value}
    (hops : operands.Coupled V k operands') :
    S.Couples k Coupling.frame (Combiner.bind formals closure operands)
      (Combiner.bind formals' closure' operands') := by
  rw [Combiner.bind, Combiner.bind]
  refine .bind (S.elements hops) fun m vs vs' hkm hvs ↦ ?_
  dsimp only
  rw [← hf.params.length_eq, ← hvs.length_eq, ← hf.rest.isNone_eq]
  have hdrop := List.forall₂_drop formals.params.length hvs
  split_ifs
  · exact .fail (.textual rfl)
  · exact .fail (.showing (fun _ _ ↦ .tooMany) (Value.Coupled.write_listFrom hdrop _ _ _))
  refine .bind (S.environmentNew (Coupling.scope_mono hkm hc)) fun l f f' hml hown ↦ ?_
  have hkl := le_trans hkm hml
  have hparams := hf.params.imp fun _ _ hp ↦ hp.mono hkl
  refine .bind (S.bindEach hown hparams (Value.Coupled.all_mono hml hvs)) fun i _ _ hli _ ↦ ?_
  obtain ⟨r, r', hr, hr', hrest⟩ | ⟨hnone, hnone'⟩ := hf.rest.exists_or
  · rw [hr, hr']
    refine .bind (S.newList (Value.Coupled.all_mono (le_trans hml hli) hdrop)) ?_
    intro j list list' hij hlist
    have hlj := le_trans hli hij
    refine .bind (S.bindOne (Coupling.frame_mono hlj hown) (hrest.mono (le_trans hkl hlj)) hlist) ?_
    exact fun q _ _ hjq _ ↦ .pure (Coupling.frame_mono (le_trans hlj hjq) hown)
  · rw [hnone, hnone']
    exact .pure (Coupling.frame_mono hli hown)

/-! ## Host functions -/

/-- An evaluator under which coupled expressions have coupled values. -/
def Evaluates (S : Simulation V) (ev : Evaluator) : Prop :=
  ∀ ⦃k e e' env env'⦄, Value.Coupled V k e e' → Option.Rel k.frame env env' →
    S.Couples k (Value.Coupled V) (ev e env) (ev e' env')

section HostFunctions

variable {ev : Evaluator} {env env' : Option FrameId} {v v' w w' : Value} {vs vs' : List Value}

theorem runDefine (hev : S.Evaluates ev) (henv : Option.Rel k.frame env env')
    (hv : v.Coupled V k v') (hw : w.Coupled V k w') :
    S.Couples k (Value.Coupled V) (Builtin.runDefine ev env v w)
      (Builtin.runDefine ev env' v' w') := by
  have hfail : S.Couples k (Value.Coupled V) (Eval.mismatch .symbol v) (Eval.mismatch .symbol v') :=
    .mismatch _ hv
  cases hv with
  | symbol hn =>
    refine .bind (hev hw henv) fun m u u' hkm hu ↦ ?_
    refine .bind (environmentFrame (Coupling.scope_mono hkm henv)) fun l f f' hml hf ↦ ?_
    have hu := hu.mono hml
    refine .bind (S.environmentAssign hf hn hu) fun i _ _ hli _ ↦ ?_
    refine .bind (S.addRecord (.defined hn)) fun j _ _ hij _ ↦ ?_
    exact .pure (hu.mono (le_trans hli hij))
  | _ => exact hfail

theorem runVau (S : Simulation V) (henv : Option.Rel k.frame env env') (hv : v.Coupled V k v')
    (hvs : Value.AllCoupled V k vs vs') :
    S.Couples k (Value.Coupled V) (Builtin.runVau env v vs) (Builtin.runVau env' v' vs') := by
  have halike := Formals.alike_ofValue hv
  rw [Builtin.runVau, Builtin.runVau]
  generalize Formals.ofValue v = x, Formals.ofValue v' = x' at halike
  cases halike with
  | error he => exact .fail he
  | ok hf =>
    cases hvs with
    | nil => exact .fail (.textual rfl)
    | cons hu hus =>
      refine .bind (S.environmentNew henv) fun m f f' hkm hclosure ↦ ?_
      have hbody := Value.Coupled.all_mono hkm (.cons hu hus)
      refine .bind (S.makeOperative (hf.mono hkm) hbody hclosure) fun l op op' hml hop ↦ ?_
      have hrecord := (hf.mono hkm).mono hml
      refine .bind (S.addRecord (.constructed hrecord)) fun i _ _ hli _ ↦ ?_
      exact .pure (hop.mono hli)

theorem runLess (hv : v.Coupled V k v') (hw : w.Coupled V k w') :
    S.Couples k (Value.Coupled V) (Builtin.runLess v w) (Builtin.runLess v' w') := by
  have hnumber : v.isNumber = v'.isNumber := by cases hv <;> rfl
  have hnumber' : w.isNumber = w'.isNumber := by cases hw <;> rfl
  rw [Builtin.runLess, Builtin.runLess, hnumber, hnumber', hv.less hw]
  split_ifs
  · exact .mismatch _ hv
  · exact .mismatch _ hw
  · exact .pure (.boolean rfl)

theorem readText [CharacterNames] (S : Simulation V) (hV : ∀ n, V.name n) (t : Text) :
    S.Couples k (Value.Coupled V) (Value.text t).read (Value.text t).read := by
  rw [Value.read]
  cases readOne t with
  | ok d => exact S.instantiate hV d
  | error e => exact .fail (.textual rfl)

theorem read [CharacterNames] (S : Simulation V) (hV : ∀ n, V.name n) (hv : v.Coupled V k v') :
    S.Couples k (Value.Coupled V) v.read v'.read := by
  have hfail : S.Couples k (Value.Coupled V) (Eval.mismatch .string v) (Eval.mismatch .string v') :=
    .mismatch _ hv
  cases hv with
  | text t => exact S.readText hV t
  | literal t _ => exact S.readText hV t
  | _ => exact hfail

theorem head (hv : v.Coupled V k v') : S.Couples k (Value.Coupled V) v.head v'.head := by
  have hfail : S.Couples k (Value.Coupled V) (Eval.mismatch .list v) (Eval.mismatch .list v') :=
    .mismatch _ hv
  cases hv with
  | pair _ hh _ => exact .pure hh
  | nil => exact .pure .nil
  | literal t _ =>
    cases t with
    | nil => exact .pure .nil
    | cons c _ => exact .pure (.int _)
  | text t =>
    cases t with
    | nil => exact .pure .nil
    | cons c _ => exact .pure (.int _)
  | _ => exact hfail

theorem tail (S : Simulation V) (hv : v.Coupled V k v') :
    S.Couples k (Value.Coupled V) v.tail v'.tail := by
  have hfail : S.Couples k (Value.Coupled V) (Eval.mismatch .list v) (Eval.mismatch .list v') :=
    .mismatch _ hv
  cases hv with
  | pair _ _ ht => exact .pure ht
  | nil => exact .pure .nil
  | literal t _ => exact .bind S.freshTag fun m a a' _ ha ↦ .pure (.literal _ ha)
  | text t => exact .pure (.text _)
  | _ => exact hfail

/-- Operands for one formal are one value. -/
theorem exists_one (hvs : Value.AllCoupled V k vs vs')
    (h : Arity.accepts ⟨1, some 1⟩ vs.length = true) :
    ∃ v v', vs = [v] ∧ vs' = [v'] ∧ v.Coupled V k v' := by
  match hvs with
  | .nil => cases h
  | .cons hv .nil => exact ⟨_, _, rfl, rfl, hv⟩
  | .cons _ (.cons _ _) => simp [Arity.accepts] at h

/-- Operands for two formals are two values. -/
theorem exists_two (hvs : Value.AllCoupled V k vs vs')
    (h : Arity.accepts ⟨2, some 2⟩ vs.length = true) :
    ∃ v w v' w', vs = [v, w] ∧ vs' = [v', w'] ∧ v.Coupled V k v' ∧ w.Coupled V k w' := by
  match hvs with
  | .nil => cases h
  | .cons _ .nil => cases h
  | .cons hv (.cons hw .nil) => exact ⟨_, _, _, _, rfl, rfl, hv, hw⟩
  | .cons _ (.cons _ (.cons _ _)) => simp [Arity.accepts] at h

theorem runEval [CharacterNames] (hev : S.Evaluates ev) (henv : Option.Rel k.frame env env')
    (hvs : Value.AllCoupled V k vs vs') (hcount : Builtin.eval.arity.accepts vs.length = true) :
    S.Couples k (Value.Coupled V) (Builtin.eval.run ev env vs) (Builtin.eval.run ev env' vs') := by
  match hvs with
  | .nil => cases hcount
  | .cons hv .nil => exact hev hv henv
  | .cons hv (.cons hw .nil) =>
    have hfail := Couples.mismatch (S := S) (Q := Value.Coupled V) .environment hw
    cases hw with
    | absent => exact hev hv henv
    | environment hf => exact hev hv (.some hf)
    | _ => exact hfail
  | .cons _ (.cons _ (.cons _ _)) => simp [Builtin.arity, Arity.accepts] at hcount

theorem runBuiltin [CharacterNames] (hev : S.Evaluates ev) (henv : Option.Rel k.frame env env')
    {b : Builtin} (hb : V.builtin b) (hvs : Value.AllCoupled V k vs vs')
    (hcount : b.arity.accepts vs.length = true) :
    S.Couples k (Value.Coupled V) (b.run ev env vs) (b.run ev env' vs') := by
  cases b
  case eval => exact runEval hev henv hvs hcount
  case vau =>
    cases hvs with
    | nil => cases hcount
    | cons hv hvs => exact S.runVau henv hv hvs
  case define =>
    obtain ⟨v, w, v', w', rfl, rfl, hv, hw⟩ := exists_two hvs hcount
    exact runDefine hev henv hv hw
  case equals =>
    obtain ⟨v, w, v', w', rfl, rfl, hv, hw⟩ := exists_two hvs hcount
    exact .pure (.boolean (hv.identical hw))
  case less =>
    obtain ⟨v, w, v', w', rfl, rfl, hv, hw⟩ := exists_two hvs hcount
    exact runLess hv hw
  all_goals obtain ⟨v, v', rfl, rfl, hv⟩ := exists_one hvs hcount
  case wrap => exact S.wrap hv
  case unwrap => exact unwrap hv
  case read => exact S.read (V.name_of_read hb) hv
  case head => exact head hv
  case tail => exact S.tail hv
  -- What is left asks for the kind of the operand.
  all_goals exact .pure (.boolean (by cases hv <;> rfl))

/-- What a function lent by the host gives for its operands. -/
theorem runJob (S : Simulation V) (henv : Option.Rel k.frame env env') (name : Option Text)
    (job : Job) (hvs : Value.AllCoupled V k vs vs')
    (hcount : (Native.host name job).arity.accepts vs.length = true) :
    S.Couples k (Value.Coupled V) ((Native.host name job).run env vs)
      ((Native.host name job).run env' vs') := by
  cases job with
  | collect => exact S.newList hvs
  | first =>
    cases hvs with
    | nil => cases hcount
    | cons hv _ => exact .pure hv
  | caller =>
    cases hvs with
    | nil =>
      cases henv with
      | some hf => exact .pure (.environment hf)
      | none => exact .pure .absent
    | cons _ _ => simp [Native.arity, Arity.accepts] at hcount
  | nothing =>
    cases hvs with
    | nil => exact .pure .absent
    | cons _ _ => simp [Native.arity, Arity.accepts] at hcount
  | swap =>
    obtain ⟨v, w, v', w', rfl, rfl, hv, hw⟩ := exists_two hvs hcount
    exact S.newList (.cons hw (.cons hv .nil))
  | join =>
    match hvs with
    | .nil => cases hcount
    | .cons hv .nil =>
      exact .bind S.freshTag fun m a a' hkm ha ↦ .pure (.pair ha (hv.mono hkm) .nil)
    | .cons hv (.cons hw .nil) =>
      exact .bind S.freshTag fun m a a' hkm ha ↦ .pure (.pair ha (hv.mono hkm) (hw.mono hkm))
    | .cons _ (.cons _ (.cons _ _)) => simp [Native.arity, Arity.accepts] at hcount

theorem runNative (S : Simulation V) (henv : Option.Rel k.frame env env') {n n' : Native}
    (hn : n.Coupled k n') (hvs : Value.AllCoupled V k vs vs')
    (hcount : n.arity.accepts vs.length = true) :
    S.Couples k (Value.Coupled V) (n.run env vs) (n'.run env' vs') := by
  cases hn with
  | select first =>
    obtain ⟨v, w, v', w', rfl, rfl, hv, hw⟩ := exists_two hvs hcount
    cases first with
    | true => exact .pure hv
    | false => exact .pure hw
  | currentWorld hf => exact .pure (.environment hf)
  | host name job => exact S.runJob henv name job hvs hcount

theorem runInteger (hvs : Value.AllCoupled V k vs vs') :
    S.Couples k (Value.Coupled V) (Procedure.runInteger vs) (Procedure.runInteger vs') := by
  match hvs with
  | .nil => exact .fail (.textual rfl)
  | .cons hv .nil =>
    cases hv with
    | int n =>
      refine .fail (.textual ?_)
      split <;> rfl
    | flag b => cases b <;> exact .fail (.textual rfl)
    | _ => exact .fail (.textual rfl)
  | .cons _ (.cons _ _) =>
    simp only [Procedure.runInteger]
    exact .fail (.textual rfl)

theorem runProcedure [CharacterNames] (hev : S.Evaluates ev) (henv : Option.Rel k.frame env env')
    {p p' : Procedure} (hp : p.Coupled V k p') (hvs : Value.AllCoupled V k vs vs')
    (hcount : p.arity.accepts vs.length = true) :
    S.Couples k (Value.Coupled V) (p.run ev env vs) (p'.run ev env' vs') := by
  cases hp with
  | builtin hb => exact runBuiltin hev henv hb hvs hcount
  | native hn => exact S.runNative henv hn hvs hcount
  | integerType => exact runInteger hvs

end HostFunctions

/-! ## Evaluation -/

section Evaluation

variable {ev : Evaluator} {env env' : Option FrameId} {v v' w w' : Value}

theorem evaluateEach (hev : S.Evaluates ev) (henv : Option.Rel k.frame env env')
    (hw : w.Coupled V k w') (hv : v.Coupled V k v') :
    S.Couples k (Value.AllCoupled V) (evaluateEach ev env w v) (evaluateEach ev env' w' v') := by
  induction v generalizing k v' with
  | pair tag a b _ ihb =>
    cases hv with
    | pair _ ha hb =>
      refine .bind (hev ha henv) fun m u u' hkm hu ↦ ?_
      refine .bind (ihb (Coupling.scope_mono hkm henv) (hw.mono hkm) (hb.mono hkm)) ?_
      exact fun l us us' hml hus ↦ .pure (.cons (hu.mono hml) hus)
  | nil =>
    cases hv
    exact .pure .nil
  | _ =>
    cases hv
    all_goals exact .mismatch _ hw

theorem evaluateBody (hev : S.Evaluates ev) {f f' : FrameId} (hf : k.frame f f')
    (hv : v.Coupled V k v') :
    S.Couples k (Value.Coupled V) (evaluateBody ev f v) (evaluateBody ev f' v') := by
  induction v generalizing k v' with
  | pair tag a b _ ihb =>
    cases hv with
    | pair _ ha hb =>
      have hrest := hb
      cases hb with
      | nil => exact hev ha (.some hf)
      | _ =>
        refine .bind (hev ha (.some hf)) fun m _ _ hkm _ ↦ ?_
        exact ihb (Coupling.frame_mono hkm hf) (hrest.mono hkm)
  | _ =>
    cases hv
    all_goals exact .pure .nil

theorem checkCount {vs vs' : List Value} (hvs : Value.AllCoupled V k vs vs') (a : Arity)
    (name : Text) :
    S.Couples k (fun _ _ _ ↦ a.accepts vs.length = true) (checkCount a name vs)
      (checkCount a name vs') := by
  rw [Fexpr.checkCount, Fexpr.checkCount, ← hvs.length_eq]
  split
  next hcount => exact .pure hcount
  next => exact .fail (.textual rfl)

theorem applyWith [CharacterNames] (hev : S.Evaluates ev) (henv : Option.Rel k.frame env env')
    {op op' : Value} (hop : op.Coupled V k op') {operands operands' : Value}
    (hops : operands.Coupled V k operands') :
    S.Couples k (Value.Coupled V) (applyWith ev op operands env)
      (applyWith ev op' operands' env') := by
  have hrender := hop.render
  induction op generalizing k op' operands operands' with
  | applicative tag u ih =>
    cases hop with
    | applicative _ hu =>
      refine .bind (evaluateEach hev henv hops hops) fun m vs vs' hkm hvs ↦ ?_
      refine .bind (S.newList hvs) fun l list list' hml hlist ↦ ?_
      have hkl := le_trans hkm hml
      have hu := hu.mono hkl
      exact ih (Coupling.scope_mono hkl henv) hu hlist hu.render
  | operative tag formals body closure _ =>
    cases hop with
    | operative _ hf hbody hc =>
      refine .bind (S.bindOperands hf hc hops) fun m f f' hkm hframe ↦ ?_
      refine .bind (S.addRecord (.invoking (hf.mono hkm))) fun l _ _ hml _ ↦ ?_
      exact evaluateBody hev (Coupling.frame_mono hml hframe) (hbody.mono (le_trans hkm hml))
  | primitive tag name p =>
    cases hop with
    | primitive name _ hp =>
      refine .bind (S.elements hops) fun m vs vs' hkm hvs ↦ ?_
      rw [← hp.arity]
      refine .bind (checkCount hvs _ name) fun l _ _ hml hcount ↦ ?_
      have hkl := le_trans hkm hml
      have hvs := Value.Coupled.all_mono hml hvs
      exact runProcedure hev (Coupling.scope_mono hkl henv) (hp.mono hkl) hvs hcount
  | native n =>
    cases hop with
    | native hn =>
      refine .bind (S.elements hops) fun m vs vs' hkm hvs ↦ ?_
      rw [← hn.arity, ← hn.name?]
      refine .bind (checkCount hvs _ _) fun l _ _ hml hcount ↦ ?_
      have hkl := le_trans hkm hml
      have hvs := Value.Coupled.all_mono hml hvs
      exact S.runNative (Coupling.scope_mono hkl henv) (hn.mono hkl) hvs hcount
  | bareCombiner tag =>
    cases hop
    exact .fail (.textual rfl)
  | _ =>
    cases hop
    all_goals exact .fail (.showing (fun _ _ ↦ .notCallable) hrender)

/-- Evaluating coupled expressions in coupled environments, in related stores, ends in the same
way. -/
theorem evaluate [CharacterNames] (S : Simulation V) (depth : Nat) :
    S.Evaluates (evaluate depth) := by
  induction depth with
  | zero => exact fun _ _ _ _ _ _ _ ↦ .tooDeep
  | succ depth ih =>
    intro k e e' env env' he henv
    have hself : S.Couples k (Value.Coupled V) (pure e) (pure e') := .pure he
    cases he with
    | pair ht ha hb =>
      refine .bind (ih ha henv) fun m op op' hkm hop ↦ ?_
      exact applyWith ih (Coupling.scope_mono hkm henv) hop (hb.mono hkm)
    | symbol hn => exact S.environmentLookup henv hn
    | literal t _ => exact .pure (.text t)
    | absent => exact .pure .nil
    | _ => exact hself

end Evaluation

end Simulation

end Fexpr
