import Fexpr.Store

/-!
# Frames of the store

What binding a name and making a frame do to the frames of a store, and where the value of a name
comes from.
-/

namespace Fexpr.Store

variable {s : Store} {f g : FrameId} {name other : Text} {v w : Value}

/-! ## Frames that are not there -/

theorem parent?_of_size_le (h : s.frames.size ≤ f) : s.parent? f = none := by
  rw [parent?, Array.getElem?_eq_none h]
  rfl

theorem get?_of_size_le (h : s.frames.size ≤ f) (name : Text) : s.get? f name = none := by
  rw [get?, bindings, Array.getElem?_eq_none h]
  rfl

theorem lt_size_of_get? (h : s.get? f name = some v) : f < s.frames.size := by
  refine Nat.lt_of_not_le fun hf ↦ ?_
  rw [get?_of_size_le hf] at h
  cases h

theorem mem_of_get? (h : s.get? f name = some v) : (name, v) ∈ s.bindings f := by
  obtain ⟨before, after, hb, -⟩ := List.lookup_eq_some_iff.mp h
  rw [hb]
  simp

theorem forall_mem_bindings {p : Text × Value → Prop}
    (hp : ∀ g ∈ s.frames.toList, ∀ b ∈ g.bindings, p b) (f : FrameId) :
    ∀ b ∈ s.bindings f, p b := by
  intro b hb
  by_cases hf : f < s.frames.size
  · rw [bindings, Array.getElem?_eq_getElem hf] at hb
    exact hp s.frames[f] (Array.getElem_mem_toList hf) b hb
  · rw [bindings, Array.getElem?_eq_none (Nat.le_of_not_lt hf)] at hb
    cases hb

/-- What holds of all bindings of all frames holds of what a name is bound to. -/
theorem forall_of_get? {p : Value → Prop} (hp : ∀ g ∈ s.frames.toList, ∀ b ∈ g.bindings, p b.2)
    (h : s.get? f name = some v) : p v :=
  forall_mem_bindings (p := fun b ↦ p b.2) hp f (name, v) (mem_of_get? h)

theorem lt_size_of_parent? (h : s.parent? f = some g) : f < s.frames.size := by
  refine Nat.lt_of_not_le fun hf ↦ ?_
  rw [parent?_of_size_le hf] at h
  cases h

theorem assign_of_size_le (h : s.frames.size ≤ f) (name : Text) (v : Value) :
    s.assign f name v = s := by
  rw [assign]
  congr
  refine Array.ext_getElem? fun i ↦ ?_
  rw [Array.getElem?_modify]
  split
  next hi =>
    subst hi
    rw [Array.getElem?_eq_none h, Option.map_none]
  next => rfl

/-! ## Binding a name -/

/-- Binding a name in a frame rebinds it there and leaves the bindings of all other frames. -/
theorem bindings_assign (h : f < s.frames.size) (g : FrameId) (name : Text) (v : Value) :
    (s.assign f name v).bindings g =
      if g = f then Bindings.assign name v (s.bindings g) else s.bindings g := by
  by_cases hg : g = f
  · subst hg
    simp [bindings, assign, Array.getElem?_modify, Array.getElem?_eq_getElem h]
  · simp [bindings, assign, Array.getElem?_modify, hg, Ne.symm hg]

/-- What is bound after binding a name is what was bound to it then or what was bound before. -/
theorem get?_assign_eq_some (h : (s.assign f name v).get? g other = some w) :
    (g = f ∧ other = name ∧ w = v) ∨ s.get? g other = some w := by
  by_cases hf : f < s.frames.size
  · rw [get?_assign s f g name other v hf] at h
    split at h
    next hg =>
      cases h
      exact .inl ⟨hg.1, hg.2, rfl⟩
    next => exact .inr h
  · rw [assign_of_size_le (Nat.le_of_not_lt hf)] at h
    exact .inr h

/-- Names that are bound stay bound. -/
theorem isSome_get?_assign (h : (s.get? g other).isSome = true) (f : FrameId) (name : Text)
    (v : Value) :
    ((s.assign f name v).get? g other).isSome = true := by
  by_cases hf : f < s.frames.size
  · rw [get?_assign s f g name other v hf]
    split
    · rfl
    · exact h
  · rwa [assign_of_size_le (Nat.le_of_not_lt hf)]

theorem getElem?_assign_of_ne (h : f ≠ g) (name : Text) (v : Value) :
    (s.assign f name v).frames[g]? = s.frames[g]? := by
  rw [assign, Array.getElem?_modify, if_neg h]

/-! ## Making a frame -/

/-- A new frame binds `current-world` to itself, and nothing else. -/
theorem get?_newFrame (s : Store) (parent : Option FrameId) (g : FrameId) (name : Text) :
    (s.newFrame parent).get? g name =
      if g = s.frames.size then
        if name = currentWorld then some (.native (.currentWorld g)) else none
      else s.get? g name := by
  rw [get?, bindings_newFrame]
  split
  · by_cases hn : name = currentWorld
    · simp [hn]
    · simp [hn, List.lookup_cons, beq_eq_false_iff_ne.mpr hn]
  · rfl

theorem getElem?_newFrame_of_ne (h : g ≠ s.frames.size) (parent : Option FrameId) :
    (s.newFrame parent).frames[g]? = s.frames[g]? := by
  rw [newFrame, Array.getElem?_push, if_neg h]

/-! ## Looking a name up -/

/-- What passes from a frame to its parent passes to all frames of its environment. -/
theorem forall_mem_ancestry {p : FrameId → Prop} (hp : ∀ f g, p f → s.parent? f = some g → p g)
    (hf : p f) (count : Nat) : ∀ g ∈ s.ancestry count f, p g := by
  induction count generalizing f with
  | zero => simp [ancestry]
  | succ count ih =>
    intro g hg
    rcases List.mem_cons.mp hg with rfl | hg
    · exact hf
    · split at hg
      next q hq => exact ih (hp f q hf hq) g hg
      next => cases hg

/-- The frames of an environment depend on nothing but the parents of frames. -/
theorem ancestry_congr {t : Store} (h : ∀ g, s.parent? g = t.parent? g) (count : Nat)
    (f : FrameId) :
    s.ancestry count f = t.ancestry count f := by
  induction count generalizing f with
  | zero => rfl
  | succ count ih =>
    rw [ancestry, ancestry, h f]
    cases t.parent? f with
    | none => rfl
    | some p => exact congrArg (f :: ·) (ih p)

theorem chain_congr {t : Store} (hsize : s.frames.size = t.frames.size)
    (hparent : ∀ g, s.parent? g = t.parent? g) (f : FrameId) : s.chain f = t.chain f := by
  rw [chain, chain, hsize, ancestry_congr hparent]

/-- What a frame binds and its parent depend on nothing but that frame. -/
theorem get?_congr {t : Store} (h : s.frames[f]? = t.frames[f]?) (name : Text) :
    s.get? f name = t.get? f name := by
  rw [get?, get?, bindings, bindings, h]

theorem parent?_congr {t : Store} (h : s.frames[f]? = t.frames[f]?) :
    s.parent? f = t.parent? f := by
  rw [parent?, parent?, h]

theorem lookup?_congr {t : Store} (h : s.frames = t.frames) (f : FrameId) (name : Text) :
    s.lookup? f name = t.lookup? f name := by
  have hparent (g : FrameId) : s.parent? g = t.parent? g := parent?_congr (by rw [h])
  have hget (g : FrameId) : s.get? g name = t.get? g name := get?_congr (by rw [h]) name
  simp only [lookup?, find?, chain_congr (congrArg Array.size h) hparent, hget]

/-- The value of a name is bound to it in a frame of the environment. -/
theorem exists_of_lookup? (h : s.lookup? f name = some v) :
    ∃ g ∈ s.chain f, s.get? g name = some v := by
  obtain ⟨g, hg, hv⟩ := Option.bind_eq_some_iff.mp h
  exact ⟨g, List.mem_of_find?_eq_some hg, hv⟩

/-- A frame's own binding is found first. -/
theorem lookup?_of_get? (h : s.get? f name = some v) : s.lookup? f name = some v := by
  obtain ⟨count, hc⟩ := Nat.exists_eq_add_of_lt (Nat.zero_lt_of_lt (lt_size_of_get? h))
  have hfind : s.find? f name = some f := by
    rw [find?, chain, hc, ancestry, List.find?_cons_of_pos]
    simp [h]
  rw [lookup?, hfind, Option.bind_some, h]

theorem lookup?_of_size_le (h : s.frames.size ≤ f) (name : Text) : s.lookup? f name = none := by
  refine Option.eq_none_iff_forall_ne_some.mpr fun v hv ↦ ?_
  obtain ⟨g, hg, hv⟩ := exists_of_lookup? hv
  have hle : s.frames.size ≤ g := by
    refine forall_mem_ancestry (p := fun g ↦ s.frames.size ≤ g) (fun a b ha hb ↦ ?_) h _ g hg
    rw [parent?_of_size_le ha] at hb
    cases hb
  rw [get?_of_size_le hle] at hv
  cases hv

/-! ## Looking a name up from a new frame -/

/-- What is found from a frame is found there too once more frames have been made. -/
theorem find?_ancestry_of_agree {t : Store} (h : ∀ g < s.frames.size, t.frames[g]? = s.frames[g]?)
    {count : Nat} (hfind : ((s.ancestry count f).find? fun a ↦ (s.get? a name).isSome) = some g) :
    ((t.ancestry count f).find? fun a ↦ (t.get? a name).isSome) = some g := by
  induction count generalizing f with
  | zero => cases hfind
  | succ count ih =>
    have hf : f < s.frames.size := by
      refine Nat.lt_of_not_le fun hge ↦ ?_
      simp [ancestry, get?_of_size_le hge, parent?_of_size_le hge] at hfind
    rw [ancestry, List.find?_cons] at hfind ⊢
    rw [get?_congr (h f hf), parent?_congr (h f hf)]
    split at hfind
    · exact hfind
    · cases hp : s.parent? f with
      | none =>
        rw [hp] at hfind
        cases hfind
      | some p =>
        rw [hp] at hfind
        exact ih hfind

/-- A name that a new frame does not bind has the value there that it had in the parent. -/
theorem lookup?_of_parent {t : Store} {c : FrameId} (hsize : t.frames.size = s.frames.size + 1)
    (hothers : ∀ g < s.frames.size, t.frames[g]? = s.frames[g]?)
    (hparent : t.parent? s.frames.size = some c) (hown : t.get? s.frames.size name = none)
    (h : s.lookup? c name = some v) :
    t.lookup? s.frames.size name = some v := by
  obtain ⟨g, hg, hv⟩ := Option.bind_eq_some_iff.mp h
  have hfind : t.find? s.frames.size name = some g := by
    rw [find?, chain, hsize, ancestry, hparent, List.find?_cons, hown]
    exact find?_ancestry_of_agree hothers hg
  rw [lookup?, hfind, Option.bind_some, get?_congr (hothers g (lt_size_of_get? hv)), hv]

theorem lookup?_newFrame {c : FrameId} (hname : name ≠ currentWorld)
    (h : s.lookup? c name = some v) :
    (s.newFrame (some c)).lookup? s.frames.size name = some v := by
  apply lookup?_of_parent (by simp) _ _ _ h
  · exact fun g hg ↦ getElem?_newFrame_of_ne (Nat.ne_of_lt hg) _
  · rw [parent?_newFrame, if_pos rfl]
  · rw [get?_newFrame, if_pos rfl, if_neg hname]

end Fexpr.Store
