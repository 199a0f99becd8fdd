import Fexpr.Proofs.Environment.History
import Fexpr.Proofs.Evaluator.Confinement
import Fexpr.Proofs.Store.Climbing

/-!
# Scopes only grow

Evaluations take nothing away: frames stay where they are, below the same parents, and keep the
names they bind, in order. What they add is as well formed as what was there, so from every frame
the way up ends at a root, and every frame binds `current-world` itself. So a name that has a value
in an environment will always have one. Main statement: `scopes_only_grow`.
-/

namespace Fexpr

/-! ## Values over a store -/

namespace Value

/-- All frames within a value are among the first `n`, and its host functions are those of a
world. -/
def Placed (n : Nat) (v : Value) : Prop := v.Within (· < n) (· < n)

theorem Placed.mono {n m : Nat} (hnm : n ≤ m) {v : Value} (hv : v.Placed n) : v.Placed m := by
  induction v with
  | pair tag h t ihh iht => exact ⟨ihh hv.1, iht hv.2⟩
  | applicative tag u ih => exact ih hv
  | operative tag formals b c ih => exact ⟨ih hv.1, fun f hf ↦ Nat.lt_of_lt_of_le (hv.2 f hf) hnm⟩
  | environment f => exact Nat.lt_of_lt_of_le hv hnm
  | primitive tag name p => exact hv
  | native k =>
    cases k with
    | select b => trivial
    | currentWorld f => exact Nat.lt_of_lt_of_le hv hnm
    | host name job => exact hv
  | _ => trivial

end Value

/-- Values over the frames that there are, evaluated in one of these frames. -/
def placement : Policy where
  value n v := v.Placed n
  scope n env := ∀ f, env = some f → f < n
  parent n c := ∀ f, c = some f → f < n
  own n f := f < n
  value_mono hnm hv := hv.mono hnm
  scope_mono hnm henv f hf := Nat.lt_of_lt_of_le (henv f hf) hnm
  own_mono hnm hf := Nat.lt_of_lt_of_le hf hnm
  scope_of_own := by
    rintro _ f hf _ ⟨⟩
    exact hf
  parent_of_scope henv := henv
  inert {_ v} hv := by
    cases v with
    | native k => cases k <;> trivial
    | _ => trivial
  int _ := trivial
  pair := Iff.rfl
  underlying hv := hv
  applicative hu _ := hu
  body hv := hv
  operative := by
    rintro _ _ _ b _ _ f _ hb _ hf
    refine ⟨hb, ?_⟩
    rintro _ ⟨⟩
    exact hf
  primitive hv := hv
  native {_ k} hv := by
    cases k with
    | select b => exact .inl ⟨b, rfl⟩
    | currentWorld f => exact .inr ⟨f, rfl⟩
    | host name job => exact hv.elim
  environment := by
    rintro _ f hf _ ⟨⟩
    exact hf
  currentWorld hf := hf

/-! ## Growth -/

namespace Store

/-- The frames of `s` are still there in `t`, below the same parents, and bind what they bound, in
the same order and before anything new. -/
structure Grows (s t : Store) : Prop where
  size_le : s.frames.size ≤ t.frames.size
  parent {f : FrameId} : f < s.frames.size → t.parent? f = s.parent? f
  names (f : FrameId) : (s.bindings f).map Prod.fst <+: (t.bindings f).map Prod.fst

/-- A store whose frames have finitely many frames above them and bind `current-world` themselves,
and whose values are over these frames. -/
structure WellScoped (s : Store) : Prop where
  climbs (f : FrameId) : f < s.frames.size → ∃ path, s.Climbs f path
  world (f : FrameId) : f < s.frames.size → (s.get? f currentWorld).isSome = true
  placed {f : FrameId} {name : Text} {v : Value} : s.get? f name = some v → v.Placed s.frames.size

/-- `s.Reaches t`: evaluations one after another lead from `s` to `t`, each of an expression over
the store at its time and in one of its environments, whether it gives a value or fails. -/
inductive Reaches [CharacterNames] (s : Store) : Store → Prop
  | refl : Reaches s s
  | step {t : Store} {e : Value} {env : FrameId} (depth : Nat) : Reaches s t →
    e.Placed t.frames.size →
    env < t.frames.size → Reaches s ((evaluate depth e (some env)).after t)

variable {s t u : Store} {f : FrameId} {name : Text} {v : Value}

theorem isSome_get?_iff : (s.get? f name).isSome = true ↔ name ∈ (s.bindings f).map Prod.fst := by
  rw [get?, List.lookup_isSome_iff]
  simp

namespace Grows

theorem of_frames_eq (h : t.frames = s.frames) : s.Grows t := by
  refine ⟨Nat.le_of_eq (by rw [h]), fun _ ↦ ?_, fun f ↦ ?_⟩
  · rw [parent?, parent?, h]
  · have hbound : t.bindings f = s.bindings f := by rw [bindings, bindings, h]
    exact hbound ▸ List.prefix_rfl

theorem refl (s : Store) : s.Grows s := of_frames_eq rfl

theorem trans (h : s.Grows t) (h' : t.Grows u) : s.Grows u := by
  refine ⟨Nat.le_trans h.size_le h'.size_le, fun hf ↦ ?_, fun f ↦ (h.names f).trans (h'.names f)⟩
  rw [h'.parent (Nat.lt_of_lt_of_le hf h.size_le), h.parent hf]

theorem assign (s : Store) (f : FrameId) (name : Text) (v : Value) :
    s.Grows (s.assign f name v) := by
  by_cases hf : f < s.frames.size
  · refine ⟨Nat.le_of_eq (size_assign _ _ _ _).symm, fun _ ↦ parent?_assign _ _ _ _ _, fun g ↦ ?_⟩
    rw [bindings_assign hf]
    split
    · rw [Bindings.map_fst_assign]
      split
      · exact List.prefix_rfl
      · exact List.prefix_append _ _
    · exact List.prefix_rfl
  · rw [assign_of_size_le (Nat.le_of_not_lt hf)]
    exact refl s

theorem newFrame (s : Store) (c : Option FrameId) : s.Grows (s.newFrame c) := by
  refine ⟨?_, fun {g} hg ↦ ?_, fun g ↦ ?_⟩
  · rw [size_newFrame]
    exact Nat.le_succ _
  · rw [parent?_newFrame, if_neg (Nat.ne_of_lt hg)]
  · rw [bindings_newFrame]
    split
    next hg =>
      have hnone : s.bindings g = [] := by
        rw [bindings, hg, Array.getElem?_eq_none (Nat.le_refl _)]
        rfl
      rw [hnone]
      exact List.nil_prefix
    next => exact List.prefix_rfl

/-- Names that are bound stay bound. -/
theorem isSome_get? (h : s.Grows t) (hget : (s.get? f name).isSome = true) :
    (t.get? f name).isSome = true := by
  rw [isSome_get?_iff] at hget ⊢
  exact (h.names f).subset hget

/-- The way up from a frame stays the same. -/
theorem climbs (h : s.Grows t) {path : List FrameId} (hpath : s.Climbs f path) :
    t.Climbs f path := by
  induction hpath with
  | root hf hnone => exact .root (Nat.lt_of_lt_of_le hf h.size_le) (by rw [h.parent hf, hnone])
  | up hp _ ih => exact .up (by rw [h.parent (lt_size_of_parent? hp), hp]) ih

/-- Names that have a value keep having one. -/
theorem isSome_lookup? (h : s.Grows t) {path : List FrameId} (hpath : s.Climbs f path)
    (hget : (s.lookup? f name).isSome = true) : (t.lookup? f name).isSome = true := by
  rw [isSome_lookup?_iff, hpath.chain_eq] at hget
  rw [isSome_lookup?_iff, (h.climbs hpath).chain_eq]
  obtain ⟨g, hg, hbound⟩ := hget
  exact ⟨g, hg, h.isSome_get? hbound⟩

end Grows

/-! ## Good scoping is kept -/

namespace WellScoped

theorem of_frames_eq (h : s.WellScoped) (ht : t.frames = s.frames) : t.WellScoped := by
  have hgrows : s.Grows t := .of_frames_eq ht
  refine ⟨fun f hf ↦ ?_, fun f hf ↦ ?_, fun {f name v} hv ↦ ?_⟩
  · obtain ⟨path, hpath⟩ := h.climbs f (ht ▸ hf)
    exact ⟨path, hgrows.climbs hpath⟩
  · exact hgrows.isSome_get? (h.world f (ht ▸ hf))
  · rw [get?, bindings, ht] at hv
    rw [ht]
    exact h.placed hv

theorem assign (h : s.WellScoped) (f : FrameId) (name : Text) (hv : v.Placed s.frames.size) :
    (s.assign f name v).WellScoped := by
  have hgrows := Grows.assign s f name v
  refine ⟨fun g hg ↦ ?_, fun g hg ↦ ?_, fun {g other w} hw ↦ ?_⟩
  · rw [size_assign] at hg
    obtain ⟨path, hpath⟩ := h.climbs g hg
    exact ⟨path, hgrows.climbs hpath⟩
  · rw [size_assign] at hg
    exact hgrows.isSome_get? (h.world g hg)
  · rw [size_assign]
    rcases get?_assign_eq_some hw with ⟨-, -, rfl⟩ | hw
    · exact hv
    · exact h.placed hw

theorem newFrame (h : s.WellScoped) {c : Option FrameId}
    (hc : ∀ f, c = some f → f < s.frames.size) :
    (s.newFrame c).WellScoped := by
  have hgrows := Grows.newFrame s c
  have hparent : (s.newFrame c).parent? s.frames.size = c := by rw [parent?_newFrame, if_pos rfl]
  refine ⟨fun g hg ↦ ?_, fun g hg ↦ ?_, fun {g name v} hv ↦ ?_⟩
  · rw [size_newFrame] at hg
    rcases Nat.lt_succ_iff_lt_or_eq.mp hg with hg | rfl
    · obtain ⟨path, hpath⟩ := h.climbs g hg
      exact ⟨path, hgrows.climbs hpath⟩
    · cases c with
      | none => exact ⟨_, .root (by simp) hparent⟩
      | some p =>
        obtain ⟨path, hpath⟩ := h.climbs p (hc p rfl)
        exact ⟨_, .up hparent (hgrows.climbs hpath)⟩
  · rw [size_newFrame] at hg
    rcases Nat.lt_succ_iff_lt_or_eq.mp hg with hg | rfl
    · exact hgrows.isSome_get? (h.world g hg)
    · simp [get?_newFrame]
  · rw [size_newFrame]
    rw [get?_newFrame] at hv
    split_ifs at hv with hg
    · cases hv
      exact Nat.lt_succ_of_le (Nat.le_of_eq hg)
    · exact (h.placed hv).mono (Nat.le_succ _)

theorem lookup (h : s.WellScoped) (hv : s.lookup? f name = some v) : v.Placed s.frames.size := by
  obtain ⟨g, -, hv⟩ := exists_of_lookup? hv
  exact h.placed hv

/-- Growing from a store and staying well scoped is kept by evaluations. -/
theorem invariant [CharacterNames] (s₀ : Store) :
    placement.Invariant (fun s ↦ s₀.Grows s ∧ s.WellScoped) fun _ ↦ True where
  lookup h _ hv := h.2.lookup hv
  retag _ h := ⟨h.1.trans (.of_frames_eq rfl), h.2.of_frames_eq rfl⟩
  newFrame h hc := ⟨⟨h.1.trans (.newFrame _ _), h.2.newFrame hc⟩, Nat.lt_succ_self _⟩
  bind name _ h _ hv := ⟨h.1.trans (.assign _ _ name _), h.2.assign _ name hv⟩
  define name _ h _ hv := by
    refine ⟨h.1.trans ((Grows.assign _ _ name _).trans (.of_frames_eq rfl)), ?_⟩
    exact (h.2.assign _ name hv).of_frames_eq rfl
  record h _ := ⟨h.1.trans (.of_frames_eq rfl), h.2.of_frames_eq rfl⟩
  ordinary _ := trivial
  unwritable _ _ := trivial
  unreadable _ := trivial
  homeless _ := ⟨trivial, fun _ ↦ trivial⟩
  bare _ := trivial

theorem evaluate [CharacterNames] (h : s.WellScoped) (depth : Nat) {e : Value}
    (he : e.Placed s.frames.size) {env : FrameId} (henv : env < s.frames.size) :
    s.Grows ((evaluate depth e (some env)).after s) ∧
      ((evaluate depth e (some env)).after s).WellScoped := by
  have hscope : ∀ f, some env = some f → f < s.frames.size := by
    rintro _ ⟨⟩
    exact henv
  exact ((invariant s).evaluate depth he hscope).after ⟨.refl s, h⟩ (Nat.le_refl _)

theorem reaches [CharacterNames] (h : s.WellScoped) (hst : s.Reaches t) :
    s.Grows t ∧ t.WellScoped := by
  induction hst with
  | refl => exact ⟨.refl s, h⟩
  | step depth _ he henv ih =>
    obtain ⟨hgrows, hscoped⟩ := ih
    obtain ⟨hgrows', hscoped'⟩ := hscoped.evaluate depth he henv
    exact ⟨hgrows.trans hgrows', hscoped'⟩

/-- The search for `current-world` ends where it starts. -/
theorem find?_currentWorld (h : s.WellScoped) (hf : f < s.frames.size) :
    s.find? f currentWorld = some f := by
  obtain ⟨path, hpath⟩ := h.climbs f hf
  have hworld := h.world f hf
  have hsearch := hpath.search_find? currentWorld
  cases hr : s.find? f currentWorld with
  | none =>
    rw [hr] at hsearch
    cases hsearch <;> simp_all
  | some g =>
    rw [hr] at hsearch
    cases hsearch <;> simp_all

end WellScoped

end Store

/-- Evaluations on a well scoped store only add to its scopes. Each one, whether it gives a value or
fails, leaves every frame below the same parent and with its names in their places, and leaves a
well scoped store behind, in which going up from any frame ends and every frame binds
`current-world`. So on every store that evaluations lead to, the search for any name from any frame
ends, and `find?` gives the frame it ends at; a look-up that has once given a value never fails
later on; and `current-world` is found in the very frame that it is evaluated in. -/
theorem scopes_only_grow [CharacterNames] {s : Store} (hs : s.WellScoped) :
    (∀ (e : Value) (env : FrameId) (depth : Nat), e.Placed s.frames.size → env < s.frames.size →
      s.Grows ((evaluate depth e (some env)).after s) ∧
      ((evaluate depth e (some env)).after s).WellScoped) ∧
    ∀ t, s.Reaches t →
      (∀ f < t.frames.size, ∀ name, t.Search name f (t.find? f name)) ∧
      (∀ f name v, Environment.lookup (some f) name t = .ok v t → ∀ u, t.Reaches u →
        ∃ w, Environment.lookup (some f) name u = .ok w u) ∧
      ∀ f < t.frames.size, t.find? f currentWorld = some f ∧ ∃ v, t.get? f currentWorld = some v ∧
        ∀ depth, evaluate (depth + 1) (.symbol currentWorld) (some f) t = .ok v t := by
  refine ⟨fun e env depth he henv ↦ hs.evaluate depth he henv, fun t ht ↦ ?_⟩
  obtain ⟨-, hscoped⟩ := hs.reaches ht
  refine ⟨fun f hf name ↦ ?_, fun f name v hv u hu ↦ ?_, fun f hf ↦ ?_⟩
  · obtain ⟨path, hpath⟩ := hscoped.climbs f hf
    exact hpath.search_find? name
  · have hv : t.lookup? f name = some v := by
      rw [Environment.lookup_eq] at hv
      split at hv <;> simp_all
    have hf : f < t.frames.size := by
      refine Nat.lt_of_not_le fun hle ↦ ?_
      rw [Store.lookup?_of_size_le hle] at hv
      cases hv
    obtain ⟨path, hpath⟩ := hscoped.climbs f hf
    have hsome := (hscoped.reaches hu).1.isSome_lookup? hpath (Option.isSome_of_eq_some hv)
    obtain ⟨w, hw⟩ := Option.isSome_iff_exists.mp hsome
    exact ⟨w, by rw [Environment.lookup_eq, hw]⟩
  · obtain ⟨v, hv⟩ := Option.isSome_iff_exists.mp (hscoped.world f hf)
    refine ⟨hscoped.find?_currentWorld hf, v, hv, fun depth ↦ ?_⟩
    change Environment.lookup (some f) currentWorld t = _
    rw [Environment.lookup_eq, Store.lookup?_of_get? hv]

theorem Store.wellScoped_nested : nested.WellScoped where
  climbs
    | 0, _ => ⟨_, .root (by decide) rfl⟩
    | 1, _ => ⟨_, .up (p := 0) rfl (.root (by decide) rfl)⟩
  world := by decide
  placed {f name v} hv := by
    rcases get?_nested hv with ⟨b, rfl⟩ | rfl | ⟨-, rfl⟩
    · exact ⟨b, rfl⟩
    · trivial
    · exact lt_size_of_get? hv

open scoped CharacterNames

/-- Below a world that binds `x`, evaluating `($define! x 5)` adds the name at the end of the frame;
`x` has had a value there before, and has one after. -/
theorem scopes_only_grow_shadow :
    let e : Value := .listFrom 1 [.symbol "$define!", .symbol "x", .int 5]
    let t := (evaluate 2 e (some 1)).after Store.nested
    Store.nested.WellScoped ∧ e.Placed Store.nested.frames.size ∧ Store.nested.Grows t ∧
      (t.bindings 1).map Prod.fst = [currentWorld, "x"] ∧
      Environment.lookup (some 1) "x" Store.nested = .ok (.int 1) Store.nested ∧
      (∃ w, Environment.lookup (some 1) "x" t = .ok w t) ∧ t.find? 1 currentWorld = some 1 := by
  intro e t
  have hs := Store.wellScoped_nested
  have he : e.Placed Store.nested.frames.size := by
    simp [e, Value.Placed, Value.listFrom, Value.Within]
  have hx : Environment.lookup (some 1) "x" Store.nested = .ok (.int 1) Store.nested := by
    have hvalue : Store.nested.lookup? 1 "x" = some (.int 1) := by decide
    rw [Environment.lookup_eq, hvalue]
  have ht : Store.nested.Reaches t := .step 2 .refl he (by decide)
  obtain ⟨hone, hall⟩ := scopes_only_grow hs
  refine ⟨hs, he, (hone e 1 2 he (by decide)).1, by decide, hx, ?_, ?_⟩
  · exact (hall _ .refl).2.1 1 "x" (.int 1) hx t ht
  · exact ((hall t ht).2.2 1 (by decide)).1

end Fexpr
