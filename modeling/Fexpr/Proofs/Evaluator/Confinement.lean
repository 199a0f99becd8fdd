import Fexpr.Proofs.Evaluator.Policy
import Fexpr.Proofs.Store.Frames

/-!
# Confinement

An evaluation changes only frames whose environment its code can obtain. What code can obtain is the
least closure of the environment it is evaluated in and of the expression itself, `Obtains`: reading
goes up from a frame to its parents, but the environment of a parent is not thereby at hand, since
every frame binds `current-world` itself. Main statement: `evaluate_confined`.
-/

namespace Fexpr

/-! ## What code can obtain -/

/-- What code can have: the right to bind names in a frame, that to look names up in it, or a
value. -/
inductive Authority
  | write (f : FrameId)
  | read (f : FrameId)
  | hold (v : Value)

/-- The authority that evaluating `e` in the environment of the frame `env` starts from, and all
that follows from it on the store `s`. -/
inductive Obtains (s : Store) (e : Value) (env : FrameId) : Authority → Prop
  | scope : Obtains s e env (.write env)
  | expression : Obtains s e env (.hold e)
  | read {f : FrameId} : Obtains s e env (.write f) → Obtains s e env (.read f)
  | parent {f p : FrameId} : Obtains s e env (.read f) → s.parent? f = some p →
    Obtains s e env (.read p)
  | bound {f : FrameId} {name : Text} {v : Value} : Obtains s e env (.read f) →
    name ≠ currentWorld →
    s.get? f name = some v → Obtains s e env (.hold v)
  | world {f : FrameId} {v : Value} : Obtains s e env (.write f) →
    s.get? f currentWorld = some v → Obtains s e env (.hold v)
  | head {tag : Tag} {h t : Value} : Obtains s e env (.hold (.pair tag h t)) →
    Obtains s e env (.hold h)
  | tail {tag : Tag} {h t : Value} : Obtains s e env (.hold (.pair tag h t)) →
    Obtains s e env (.hold t)
  | underlying {tag : Tag} {u : Value} : Obtains s e env (.hold (.applicative tag u)) →
    Obtains s e env (.hold u)
  | body {tag : Tag} {formals : Formals} {b : Value} {c : Option FrameId} :
    Obtains s e env (.hold (.operative tag formals b c)) → Obtains s e env (.hold b)
  | closure {tag : Tag} {formals : Formals} {b : Value} {c : FrameId} :
    Obtains s e env (.hold (.operative tag formals b (some c))) → Obtains s e env (.read c)
  | environment {f : FrameId} : Obtains s e env (.hold (.environment f)) →
    Obtains s e env (.write f)
  | currentWorld {f : FrameId} : Obtains s e env (.hold (.native (.currentWorld f))) →
    Obtains s e env (.write f)

/-- Whether all host functions within a value are those of a world. -/
def Value.bootstrapped : Value → Bool
  | pair _ h t => h.bootstrapped && t.bootstrapped
  | applicative _ u => u.bootstrapped
  | operative _ _ b _ => b.bootstrapped
  | primitive _ _ (.builtin _) => true
  | primitive _ _ _ | native (.host _ _) => false
  | _ => true

section

variable (W R : FrameId → Prop)

/-- All host functions within a value are those of a world, the environments within it are in `W`,
and what the operatives within it close over is in `R`. -/
def Value.Within : Value → Prop
  | pair _ h t => h.Within ∧ t.Within
  | applicative _ u => u.Within
  | operative _ _ b c => b.Within ∧ ∀ f, c = some f → R f
  | environment f | native (.currentWorld f) => W f
  | primitive _ _ p => ∃ b, p = .builtin b
  | native (.host _ _) => False
  | _ => True

/-- The authority to write in `W`, to read in `R`, and to hold values within both. -/
def Authority.Within : Authority → Prop
  | write f => W f
  | read f => R f
  | hold v => v.Within W R

/-- A store that differs from `s₀` at most within `W`, where what is read in `R` leads no
further. -/
structure Store.Confined (s₀ s : Store) : Prop where
  size_le : s₀.frames.size ≤ s.frames.size
  parent {f p : FrameId} : R f → s.parent? f = some p → R p
  bound {f : FrameId} {name : Text} {v : Value} : R f → name ≠ currentWorld →
    s.get? f name = some v → v.Within W R
  world {f : FrameId} {v : Value} : W f → s.get? f currentWorld = some v → v.Within W R
  shadowed {f : FrameId} : f < s.frames.size → (s.get? f currentWorld).isSome = true
  outside {f : FrameId} : ¬ W f → s.frames[f]? = s₀.frames[f]?

/-- Values within `W` and `R`, evaluated in environments in `W`. -/
def confinement (h : ∀ f, W f → R f) : Policy where
  value _ v := v.Within W R
  scope _ env := ∀ f, env = some f → W f
  parent _ c := ∀ f, c = some f → R f
  own _ f := W f
  value_mono _ hv := hv
  scope_mono _ henv := henv
  own_mono _ hf := hf
  scope_of_own := by
    rintro _ f hf _ ⟨⟩
    exact hf
  parent_of_scope henv f hf := h f (henv f hf)
  inert {_ v} hv := by
    cases v with
    | native k => cases k <;> trivial
    | _ => trivial
  int _ := trivial
  pair := Iff.rfl
  underlying hv := hv
  applicative hu _ := hu
  body hv := hv
  operative := by
    rintro _ _ _ b _ _ f _ hb _ hf
    refine ⟨hb, ?_⟩
    rintro _ ⟨⟩
    exact h f hf
  primitive hv := hv
  native {_ k} hv := by
    cases k with
    | select b => exact .inl ⟨b, rfl⟩
    | currentWorld f => exact .inr ⟨f, rfl⟩
    | host name job => exact hv.elim
  environment := by
    rintro _ f hf _ ⟨⟩
    exact hf
  currentWorld hf := hf

end

variable {W R : FrameId → Prop} {s₀ s : Store}

/-! ## Confinement is an invariant -/

namespace Store.Confined

theorem of_frames_eq {t : Store} (h : Confined W R s₀ s) (ht : t.frames = s.frames) :
    Confined W R s₀ t := by
  have hget : t.get? = s.get? := by
    funext f name
    rw [get?, get?, bindings, bindings, ht]
  have hparent : t.parent? = s.parent? := by
    funext f
    rw [parent?, parent?, ht]
  constructor
  · exact ht ▸ h.size_le
  · exact hparent ▸ h.parent
  · exact hget ▸ h.bound
  · exact hget ▸ h.world
  · exact hget ▸ ht ▸ h.shadowed
  · exact ht ▸ h.outside

theorem assign (h : Confined W R s₀ s) {f : FrameId} (hf : W f) (name : Text) {v : Value}
    (hv : v.Within W R) : Confined W R s₀ (s.assign f name v) where
  size_le := by
    rw [size_assign]
    exact h.size_le
  parent hg hp := by
    rw [parent?_assign] at hp
    exact h.parent hg hp
  bound hg hne hw := by
    rcases get?_assign_eq_some hw with ⟨-, -, rfl⟩ | hw
    · exact hv
    · exact h.bound hg hne hw
  world hg hw := by
    rcases get?_assign_eq_some hw with ⟨-, -, rfl⟩ | hw
    · exact hv
    · exact h.world hg hw
  shadowed hg := by
    rw [size_assign] at hg
    exact isSome_get?_assign (h.shadowed hg) f name v
  outside {g} hg := by
    have hne : f ≠ g := by
      rintro rfl
      exact hg hf
    rw [getElem?_assign_of_ne hne]
    exact h.outside hg

theorem newFrame (h : Confined W R s₀ s) (hnew : W s.frames.size) {c : Option FrameId}
    (hc : ∀ f, c = some f → R f) : Confined W R s₀ (s.newFrame c) where
  size_le := by
    rw [size_newFrame]
    exact Nat.le_succ_of_le h.size_le
  parent hg hp := by
    rw [parent?_newFrame] at hp
    split at hp
    · exact hc _ hp
    · exact h.parent hg hp
  bound hg hne hw := by
    rw [get?_newFrame, if_neg hne] at hw
    split at hw
    · cases hw
    · exact h.bound hg hne hw
  world hg hw := by
    rw [get?_newFrame, if_pos rfl] at hw
    split at hw
    · cases hw
      exact hg
    · exact h.world hg hw
  shadowed {g} hg := by
    rw [get?_newFrame, if_pos rfl]
    split
    next => rfl
    next hne =>
      rw [size_newFrame] at hg
      exact h.shadowed (Nat.lt_of_le_of_ne (Nat.le_of_lt_succ hg) hne)
  outside {g} hg := by
    have hne : g ≠ s.frames.size := by
      rintro rfl
      exact hg hnew
    rw [getElem?_newFrame_of_ne hne]
    exact h.outside hg

/-- The value of a name is within bounds. That of `current-world` is bound in the frame itself, so
the functions that give the environments of its parents are never found. -/
theorem lookup (h : Confined W R s₀ s) (hWR : ∀ f, W f → R f) {f : FrameId} (hf : W f) {name : Text}
    {v : Value} (hv : s.lookup? f name = some v) : v.Within W R := by
  by_cases hname : name = currentWorld
  · subst hname
    have hlt : f < s.frames.size := by
      refine Nat.lt_of_not_le fun hle ↦ ?_
      rw [lookup?_of_size_le hle] at hv
      cases hv
    obtain ⟨w, hw⟩ := Option.isSome_iff_exists.mp (h.shadowed hlt)
    rw [lookup?_of_get? hw] at hv
    cases hv
    exact h.world hf hw
  · obtain ⟨g, hg, hv⟩ := exists_of_lookup? hv
    have hR : R g := forall_mem_ancestry (fun _ _ ha hp ↦ h.parent ha hp) (hWR f hf) _ g hg
    exact h.bound hR hname hv

/-- What can be obtained on a confined store is within bounds. -/
theorem obtains (h : Confined W R s₀ s) (hWR : ∀ f, W f → R f) {e : Value} (he : e.Within W R)
    {env : FrameId} (henv : W env) {a : Authority} (ha : Obtains s e env a) : a.Within W R := by
  induction ha with
  | scope => exact henv
  | expression => exact he
  | read _ ih => exact hWR _ ih
  | parent _ hp ih => exact h.parent ih hp
  | bound _ hne hv ih => exact h.bound ih hne hv
  | world _ hv ih => exact h.world ih hv
  | head _ ih => exact ih.1
  | tail _ ih => exact ih.2
  | underlying _ ih => exact ih
  | body _ ih => exact ih.1
  | closure _ ih => exact ih.2 _ rfl
  | environment _ ih => exact ih
  | currentWorld _ ih => exact ih

theorem invariant [CharacterNames] (hWR : ∀ f, W f → R f) (hnew : ∀ f, s₀.frames.size ≤ f → W f) :
    (confinement W R hWR).Invariant (Confined W R s₀) fun _ ↦ True where
  lookup h hf hv := h.lookup hWR (hf _ rfl) hv
  retag _ h := h.of_frames_eq rfl
  newFrame h hc := ⟨h.newFrame (hnew _ h.size_le) hc, hnew _ h.size_le⟩
  bind name _ h hf hv := h.assign hf name hv
  define name _ h hf hv := (h.assign (hf _ rfl) name hv).of_frames_eq rfl
  record h _ := h.of_frames_eq rfl
  ordinary _ := trivial
  unwritable _ _ := trivial
  unreadable _ := trivial
  homeless _ := ⟨trivial, fun _ ↦ trivial⟩
  bare _ := trivial

end Store.Confined

/-! ## Evaluation is confined -/

namespace Obtains

variable {e : Value} {env : FrameId}

/-- The frames that code can obtain the environment of, and those that are yet to be made. -/
def Writable (s : Store) (e : Value) (env f : FrameId) : Prop :=
  Obtains s e env (.write f) ∨ s.frames.size ≤ f

/-- The frames that code can look names up in, and those that are yet to be made. -/
def Readable (s : Store) (e : Value) (env f : FrameId) : Prop :=
  Obtains s e env (.read f) ∨ s.frames.size ≤ f

theorem readable_of_writable {f : FrameId} (h : Writable s e env f) : Readable s e env f :=
  h.imp_left .read

theorem within {v : Value} (hv : Obtains s e env (.hold v)) (hb : v.bootstrapped = true) :
    v.Within (Writable s e env) (Readable s e env) := by
  induction v with
  | pair tag h t ihh iht =>
    obtain ⟨hbh, hbt⟩ := Bool.and_eq_true_iff.mp hb
    exact ⟨ihh hv.head hbh, iht hv.tail hbt⟩
  | applicative tag u ih => exact ih hv.underlying hb
  | operative tag formals b c ih =>
    refine ⟨ih hv.body hb, ?_⟩
    rintro f rfl
    exact .inl hv.closure
  | environment f => exact .inl hv.environment
  | primitive tag name p =>
    cases p with
    | builtin b => exact ⟨b, rfl⟩
    | native k => cases hb
    | integerType => cases hb
  | native k =>
    cases k with
    | select b => trivial
    | currentWorld f => exact .inl hv.currentWorld
    | host name job => cases hb
  | _ => trivial

theorem confined (hworld : ∀ f < s.frames.size, (s.get? f Fexpr.currentWorld).isSome = true)
    (hheap : ∀ f name v, s.get? f name = some v → v.bootstrapped = true) :
    s.Confined (Writable s e env) (Readable s e env) s where
  size_le := Nat.le_refl _
  parent hf hp := by
    rcases hf with hf | hf
    · exact .inl (hf.parent hp)
    · exact absurd (Store.lt_size_of_parent? hp) (Nat.not_lt.mpr hf)
  bound hf hne hv := by
    rcases hf with hf | hf
    · exact (hf.bound hne hv).within (hheap _ _ _ hv)
    · exact absurd (Store.lt_size_of_get? hv) (Nat.not_lt.mpr hf)
  world hf hv := by
    rcases hf with hf | hf
    · exact (hf.world hv).within (hheap _ _ _ hv)
    · exact absurd (Store.lt_size_of_get? hv) (Nat.not_lt.mpr hf)
  shadowed := hworld _
  outside _ := rfl

end Obtains

/-- On a store whose frames all bind `current-world` and whose host functions are those of a world,
every evaluation, whether it gives a value or fails, leaves each frame as it was unless its code can
obtain the frame's environment. Nor does the value that it gives open any other frame of that
store. -/
theorem evaluate_confined [CharacterNames] (s : Store) (e : Value) (env : FrameId) (depth : Nat)
    (hworld : ∀ f < s.frames.size, (s.get? f currentWorld).isSome = true)
    (hheap : ∀ f name v, s.get? f name = some v → v.bootstrapped = true)
    (he : e.bootstrapped = true) :
    (∀ f < s.frames.size, ¬ Obtains s e env (.write f) →
      ((evaluate depth e (some env)).after s).frames[f]? = s.frames[f]?) ∧
    ∀ v t, evaluate depth e (some env) s = .ok v t → ∀ f < s.frames.size,
      (Obtains t v env (.write f) → Obtains s e env (.write f)) ∧
      (Obtains t v env (.read f) → Obtains s e env (.read f)) := by
  have hWR : ∀ f, Obtains.Writable s e env f → Obtains.Readable s e env f := fun _ ↦
    Obtains.readable_of_writable
  have hs : s.Confined (Obtains.Writable s e env) (Obtains.Readable s e env) s :=
    Obtains.confined hworld hheap
  have hinv := Store.Confined.invariant hWR fun f (hf : s.frames.size ≤ f) ↦ .inr hf
  have hwithin : e.Within (Obtains.Writable s e env) (Obtains.Readable s e env) :=
    Obtains.expression.within he
  have henv : Obtains.Writable s e env env := .inl .scope
  have hscope : ∀ f, some env = some f → Obtains.Writable s e env f := by
    rintro _ ⟨⟩
    exact henv
  have hev := hinv.evaluate depth (n := 0) hwithin hscope
  refine ⟨fun f hf hw ↦ ?_, fun v t ht f hf ↦ ?_⟩
  · refine (hev.after hs (Nat.zero_le _)).outside ?_
    rintro (h | h)
    · exact hw h
    · exact Nat.not_lt.mpr h hf
  · obtain ⟨hconf, hv⟩ := hev.of_ok hs (Nat.zero_le _) ht
    refine ⟨fun hw ↦ ?_, fun hr ↦ ?_⟩
    · exact (hconf.obtains hWR hv henv hw).resolve_right (Nat.not_le.mpr hf)
    · exact (hconf.obtains hWR hv henv hr).resolve_right (Nat.not_le.mpr hf)

/-- A world that binds only `$define!` and `x`, and an environment below it. -/
def Store.nested : Store where
  frames := #[
    ⟨none, [(currentWorld, .native (.currentWorld 0)),
      ("$define!", .primitive 0 "$define!" (.builtin .define)), ("x", .int 1)]⟩,
    ⟨some 0, [(currentWorld, .native (.currentWorld 1))]⟩]
  nextTag := 1
  log := []
  shared := none

theorem Store.get?_nested {f : FrameId} {name : Text} {v : Value}
    (h : nested.get? f name = some v) :
    (∃ b, v = .primitive 0 "$define!" (.builtin b)) ∨ v = .int 1 ∨
      name = currentWorld ∧ v = .native (.currentWorld f) := by
  have hm := mem_of_get? h
  match f, lt_size_of_get? h with
  | 0, _ =>
    rcases List.mem_cons.mp hm with h | hm
    · exact .inr (.inr (Prod.mk.inj h))
    rcases List.mem_cons.mp hm with h | hm
    · exact .inl ⟨_, (Prod.mk.inj h).2⟩
    · exact .inr (.inl (Prod.mk.inj (List.mem_singleton.mp hm)).2)
  | 1, _ => exact .inr (.inr (Prod.mk.inj (List.mem_singleton.mp hm)))

open scoped CharacterNames

/-- Below a world, `($define! x 5)` binds `x` and leaves the `x` of the world alone. -/
theorem evaluate_confined_define :
    let e : Value := .listFrom 1 [.symbol "$define!", .symbol "x", .int 5]
    (∀ f < Store.nested.frames.size, (Store.nested.get? f currentWorld).isSome = true) ∧
    (∀ f name v, Store.nested.get? f name = some v → v.bootstrapped = true) ∧
    e.bootstrapped = true ∧ Obtains Store.nested e 1 (.read 0) ∧
    ¬ Obtains Store.nested e 1 (.write 0) ∧
    ((evaluate 2 e (some 1)).after Store.nested).frames[0]? = Store.nested.frames[0]? ∧
    ((evaluate 2 e (some 1)).after Store.nested).get? 1 "x" = some (.int 5) := by
  intro e
  have hworld :
      ∀ f < Store.nested.frames.size, (Store.nested.get? f currentWorld).isSome = true := by
    decide
  have hheap : ∀ f name v, Store.nested.get? f name = some v → v.bootstrapped = true := by
    intro f name v hv
    rcases Store.get?_nested hv with ⟨b, rfl⟩ | rfl | ⟨-, rfl⟩ <;> rfl
  have hconf : Store.nested.Confined (· = 1) (fun _ ↦ True) Store.nested := by
    refine ⟨Nat.le_refl _, fun _ _ ↦ trivial, fun {f name v} _ hne hv ↦ ?_, fun {f v} hf hv ↦ ?_,
      hworld _, fun _ ↦ rfl⟩
    · rcases Store.get?_nested hv with ⟨b, rfl⟩ | rfl | ⟨hname, -⟩
      · exact ⟨b, rfl⟩
      · trivial
      · exact absurd hname hne
    · rcases Store.get?_nested hv with ⟨b, rfl⟩ | rfl | ⟨-, rfl⟩
      · exact ⟨b, rfl⟩
      · trivial
      · exact hf
  have hwithin : e.Within (· = 1) fun _ ↦ True := by simp [e, Value.listFrom, Value.Within]
  have hwrite : ¬ Obtains Store.nested e 1 (.write 0) := fun h ↦
    Nat.zero_ne_one (hconf.obtains (fun _ _ ↦ trivial) hwithin rfl h)
  have hread : Obtains Store.nested e 1 (.read 0) := .parent (.read .scope) rfl
  exact ⟨hworld, hheap, rfl, hread, hwrite,
    (evaluate_confined _ e 1 2 hworld hheap rfl).1 0 (by decide) hwrite, by decide⟩

end Fexpr
