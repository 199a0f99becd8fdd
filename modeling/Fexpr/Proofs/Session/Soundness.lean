import Fexpr.Proofs.Evaluator.Policy
import Fexpr.Proofs.Reader.Errors
import Fexpr.Proofs.Store.Frames
import Fexpr.Session

/-!
# Sessions handle sound values only

Whatever texts a session on a new world evaluates, what its frames bind and what it answers is
sound: made of the values of the language and of the functions of a world, without integers that are
too long to be written, and every combiner in it can be invoked. So its evaluations never meet a
value or an environment that they cannot deal with or cannot show, and fail only by the faults of
programs. Main statement: `session_sound`.
-/

namespace Fexpr

/-- Values of the language: nothing of the host but the functions of a world, integers that can be
written, applicatives that wrap combiners, and operatives with names for formals and at least one
expression. -/
def Value.Sound : Value → Prop
  | nil | float _ | text _ | literal _ _ | symbol _ | environment _ => True
  | int n => n.natAbs < 10 ^ Digit.limit
  | pair _ h t => h.Sound ∧ t.Sound
  | primitive _ _ p => ∃ b, p = .builtin b
  | applicative _ u => u.isCombiner = true ∧ u.Sound
  | operative _ formals b _ => formals.AllNames ∧ (∃ e es, b.elements? = some (e :: es)) ∧ b.Sound
  | native (.select _) | native (.currentWorld _) => True
  | native (.host _ _) | absent | flag _ | nan _ | integerType | bareCombiner _ => False

/-- Sound values can be written. -/
theorem Value.Sound.writable {v : Value} (h : v.Sound) : v.Writable := by
  induction v with
  | int n => exact h
  | pair tag a b iha ihb => exact ⟨iha h.1, ihb h.2⟩
  | applicative tag u ih => exact ih h.2
  | operative tag formals b c _ => exact h.1.writable
  | _ => trivial

/-- A store that binds only sound values. -/
def Store.Sound (s : Store) : Prop := ∀ f name v, s.get? f name = some v → v.Sound

/-- The faults of programs. An integer is refused only for more digits than the reader takes. -/
def Fault.OfProgram (f : Fault) : Prop := f.isOrdinary = true ∨ ∃ e, f = .unreadable e ∧ e.Counted

/-! ## Soundness is an invariant of evaluation -/

/-- Sound values, evaluated in any environment that there is. -/
def soundness : Policy where
  value _ v := v.Sound
  scope _ env := env.isSome = true
  parent _ _ := True
  own _ _ := True
  value_mono _ hv := hv
  scope_mono _ henv := henv
  own_mono _ hf := hf
  scope_of_own _ := rfl
  parent_of_scope _ := trivial
  inert {_ v} hv := by
    cases v with
    | native k => cases k <;> trivial
    | _ => trivial
  int hk := hk
  pair := Iff.rfl
  underlying hv := hv.2
  applicative hu hc := ⟨hc, hu⟩
  body hv := ⟨hv.2.2, trivial⟩
  operative hf hb he _ := ⟨hf, ⟨_, _, he⟩, hb⟩
  primitive hv := hv
  native {_ k} hv := by
    cases k with
    | select b => exact .inl ⟨b, rfl⟩
    | currentWorld f => exact .inr ⟨f, rfl⟩
    | host name job => exact hv.elim
  environment _ := rfl
  currentWorld _ := trivial

namespace Store.Sound

variable {s : Store}

theorem of_frames_eq {t : Store} (h : s.Sound) (ht : t.frames = s.frames) : t.Sound := by
  intro f name v hv
  rw [get?, bindings, ht] at hv
  exact h f name v hv

theorem assign (h : s.Sound) (f : FrameId) (name : Text) {v : Value} (hv : v.Sound) :
    (s.assign f name v).Sound := by
  intro g other w hw
  rcases get?_assign_eq_some hw with ⟨-, -, rfl⟩ | hw
  · exact hv
  · exact h g other w hw

theorem newFrame (h : s.Sound) (c : Option FrameId) : (s.newFrame c).Sound := by
  intro g name v hv
  rw [get?_newFrame] at hv
  split_ifs at hv
  · cases hv
    trivial
  · exact h g name v hv

theorem lookup (h : s.Sound) {f : FrameId} {name : Text} {v : Value}
    (hv : s.lookup? f name = some v) :
    v.Sound := by
  obtain ⟨g, -, hv⟩ := exists_of_lookup? hv
  exact h g name v hv

theorem invariant [CharacterNames] : soundness.Invariant Sound Fault.OfProgram where
  lookup h _ hv := h.lookup hv
  retag _ h := h.of_frames_eq rfl
  newFrame h _ := ⟨h.newFrame _, trivial⟩
  bind name _ h _ hv := h.assign _ name hv
  define name _ h _ hv := (h.assign _ name hv).of_frames_eq rfl
  record h _ := h.of_frames_eq rfl
  ordinary hf := .inl hf
  unwritable hv hlong := absurd hv.writable hlong
  unreadable he := .inr ⟨_, rfl, counted_of_readOne he⟩
  homeless h := nomatch h
  bare h := h.elim

end Store.Sound

/-! ## Worlds -/

namespace World

/-- The value of an entry, if it is given, is sound. -/
def Entry.Sound : Entry → Prop
  | operative _ | applicative _ => True
  | constant _ v => v.Sound

/-- `e.Makes v`: the entry `e` binds its name to `v`, whatever tags it takes. -/
def Entry.Makes : Entry → Value → Prop
  | operative b, v => ∃ a, v = .primitive a b.name (.builtin b)
  | applicative b, v => ∃ a c, v = .applicative a (.primitive c b.name (.builtin b))
  | constant _ w, v => v = w

theorem make_eq (e : Entry) (s : Store) :
    ∃ v t, e.make s = .ok v t ∧ e.Makes v ∧ t.frames = s.frames := by
  cases e with
  | operative b => exact ⟨_, _, rfl, ⟨_, rfl⟩, rfl⟩
  | applicative b => exact ⟨_, _, rfl, ⟨_, _, rfl⟩, rfl⟩
  | constant name w => exact ⟨_, _, rfl, rfl, rfl⟩

/-- Entries with names of their own are each bound to a value that they make, and no other name is
bound. -/
theorem get?_install {f : FrameId} {es : List Entry} {s : Store} (hf : f < s.frames.size)
    (hnodup : (es.map Entry.name).Nodup) : ∃ t, install f es s = .ok () t ∧
      (∀ e ∈ es, ∃ v, e.Makes v ∧ t.get? f e.name = some v) ∧
      ∀ name ∉ es.map Entry.name, t.get? f name = s.get? f name := by
  induction es generalizing s with
  | nil => exact ⟨s, rfl, by simp, fun _ _ ↦ rfl⟩
  | cons e es ih =>
    obtain ⟨hnew, hnodup⟩ := List.nodup_cons.mp hnodup
    obtain ⟨v, t, hv, hmakes, hframes⟩ := make_eq e s
    have hft : f < t.frames.size := hframes ▸ hf
    obtain ⟨u, hu, hbound, hkept⟩ := ih (s := t.assign f e.name v) (by simpa using hft) hnodup
    refine ⟨u, ?_, ?_, ?_⟩
    · rw [install, Eval.bind_of_ok hv, Eval.bind_of_ok (Environment.assign_eq f e.name v t), hu]
    · intro e' he'
      rcases List.mem_cons.mp he' with rfl | he'
      · refine ⟨v, hmakes, ?_⟩
        rw [hkept _ hnew, Store.get?_assign _ _ _ _ _ _ hft, if_pos ⟨rfl, rfl⟩]
      · exact hbound e' he'
    · intro name hname
      obtain ⟨hne, hname⟩ := not_or.mp (mt List.mem_cons.mpr hname)
      rw [hkept name hname, Store.get?_assign _ _ _ _ _ _ hft, if_neg fun h ↦ hne h.2]
      exact Store.get?_congr (by rw [hframes]) name

/-- A new world binds its entries. -/
theorem get?_new (s : Store) :
    ∃ w t, new s = .ok w t ∧ ∀ e ∈ entries, ∃ v, e.Makes v ∧ t.get? w e.name = some v := by
  have hnodup : (entries.map Entry.name).Nodup := by decide
  obtain ⟨t, ht, hbound, -⟩ :=
    get?_install (s := s.newFrame none) (f := s.frames.size) (by simp) hnodup
  refine ⟨s.frames.size, t, ?_, hbound⟩
  rw [new, Eval.bind_of_ok (Environment.new_eq none s), register, Eval.bind_of_ok ht]
  rfl

/-- A world can be made on every store. -/
theorem exists_new (s : Store) : ∃ f t, new s = .ok f t := by
  obtain ⟨f, t, hnew, -⟩ := get?_new s
  exact ⟨f, t, hnew⟩

theorem sound_of_mem_entries : ∀ e ∈ entries, e.Sound := by
  simp [entries, Entry.Sound, Value.Sound, Value.boolean]

variable [CharacterNames] {n : Nat}

theorem ensures_make {e : Entry} (he : e.Sound) :
    e.make.Ensures Store.Sound Fault.OfProgram n fun _ v ↦ v.Sound := by
  have hinv := Store.Sound.invariant
  cases e with
  | operative b => exact .bind hinv.freshTag fun _ _ _ _ ↦ .pure fun _ _ ↦ ⟨b, rfl⟩
  | applicative b =>
    refine .bind hinv.freshTag fun _ _ _ _ ↦ .bind hinv.freshTag fun _ _ _ _ ↦ ?_
    exact .pure fun _ _ ↦ ⟨rfl, b, rfl⟩
  | constant name v => exact .pure fun _ _ ↦ he

theorem ensures_install (f : FrameId) {es : List Entry} (hes : ∀ e ∈ es, e.Sound) :
    (install f es).Ensures Store.Sound Fault.OfProgram n fun _ _ ↦ True := by
  induction es generalizing n with
  | nil => exact .pure fun _ _ ↦ trivial
  | cons e es ih =>
    have hinv := Store.Sound.invariant
    have hname : ¬ (Formal.name e.name).Writable → Fault.unwritable.OfProgram := fun h ↦
      absurd (Formal.writable_name e.name) h
    refine .bind (ensures_make (hes e (by simp))) fun m v _ hv ↦ ?_
    refine .bind (hinv.bindOne trivial hname hv) fun k _ _ _ ↦ ?_
    exact ih fun e' he ↦ hes e' (by simp [he])

theorem ensures_new : new.Ensures Store.Sound Fault.OfProgram n fun _ _ ↦ True := by
  refine .bind (Store.Sound.invariant.environmentNew fun _ _ ↦ trivial) fun m f _ _ ↦ ?_
  exact .bind (ensures_install f sound_of_mem_entries) fun _ _ _ _ ↦ .pure fun _ _ ↦ trivial

end World

/-! ## Sessions -/

/-- The values of an answer. -/
def Answer.toList : Answer → List Value
  | value v => [v]
  | values vs => vs

theorem Answer.sound_ofList {vs : List Value} (h : ∀ v ∈ vs, v.Sound) :
    ∀ v ∈ (Answer.ofList vs).toList, v.Sound := by
  match vs, h with
  | [], _ =>
    intro v hv
    cases List.mem_singleton.mp hv
    trivial
  | [_], h => exact h
  | _ :: _ :: _, h => exact h

theorem Answer.isSome_details {vs : List Value} (h : ∀ v ∈ vs, v.Sound) :
    (details vs).isSome = true := by
  induction vs with
  | nil => rfl
  | cons v vs ih =>
    obtain ⟨hv, hvs⟩ := List.forall_mem_cons.mp h
    obtain ⟨shown, hshown⟩ := Option.isSome_iff_exists.mp hv.writable.isSome_detail
    obtain ⟨others, hothers⟩ := Option.isSome_iff_exists.mp (ih hvs)
    simp [details, hshown, hothers]

/-- An answer of sound values can be shown. -/
theorem Answer.isSome_render {a : Answer} (h : ∀ v ∈ a.toList, v.Sound) :
    a.render.isSome = true := by
  cases a with
  | value v => exact (Value.isSome_write v false).mpr (h v (by simp [toList])).writable
  | values vs =>
    rw [render, Option.isSome_map]
    exact isSome_details h

namespace Session

variable [CharacterNames] {n : Nat} (depth : Nat)

theorem ensures_evaluateData (world : FrameId) {ds : List Datum} (hds : ∀ d ∈ ds, d.Writable) :
    (evaluateData depth world ds).Ensures Store.Sound Fault.OfProgram n fun _ vs ↦
      ∀ v ∈ vs, v.Sound := by
  have hinv := Store.Sound.invariant
  induction ds generalizing n with
  | nil => exact .pure fun _ _ ↦ by simp
  | cons d ds ih =>
    obtain ⟨hd, hds⟩ := List.forall_mem_cons.mp hds
    refine .bind (hinv.instantiate hd) fun m e _ he ↦ ?_
    refine .bind (hinv.evaluate depth he rfl) fun k v _ hv ↦ .bind (ih hds) fun l vs _ hvs ↦ ?_
    refine .pure fun _ _ w hw ↦ ?_
    rcases List.mem_cons.mp hw with rfl | hw
    · exact hv
    · exact hvs w hw

theorem ensures_evaluateText (world : FrameId) (t : Text) :
    (evaluateText depth world t).Ensures Store.Sound Fault.OfProgram n fun _ vs ↦
      ∀ v ∈ vs, v.Sound := by
  refine .bind (ensures_evaluateData depth world writable_of_readAll) fun m vs _ hvs ↦ ?_
  split
  next e he => exact .fail (.inr ⟨e, rfl, counted_of_readAll he⟩)
  next => exact .pure fun _ _ ↦ hvs

theorem ensures_eval (world : FrameId) (t : Text) :
    (eval depth world t).Ensures Store.Sound Fault.OfProgram n fun _ a ↦
      ∀ v ∈ a.toList, v.Sound := by
  refine .bind (ensures_evaluateText depth world t) fun m vs _ hvs ↦ ?_
  exact .pure fun _ _ ↦ Answer.sound_ofList hvs

theorem ensures_evalPrelude (world : FrameId) (t : Text) :
    (evalPrelude depth world t).Ensures Store.Sound Fault.OfProgram n fun _ _ ↦ True :=
  .bind (ensures_evaluateText depth world t) fun _ _ _ _ ↦ .pure fun _ _ ↦ trivial

/-- A call to a session: for the values of a text or for its effects. -/
inductive Call
  | eval (t : Text)
  | evalPrelude (t : Text)

/-- Make a call; only one for values gives an answer. -/
def Call.run (depth : Nat) (world : FrameId) : Call → Eval (Option Answer)
  | eval t => do return some (← Session.eval depth world t)
  | evalPrelude t => do
    Session.evalPrelude depth world t
    return none

/-- The store after calls one after another, whether or not they fail. -/
def afterCalls (depth : Nat) (world : FrameId) (calls : List Call) (s : Store) : Store :=
  calls.foldl (fun s c ↦ (c.run depth world).after s) s

theorem ensures_run (world : FrameId) (c : Call) :
    (c.run depth world).Ensures Store.Sound Fault.OfProgram n
      fun _ a ↦ ∀ answer, a = some answer → ∀ v ∈ answer.toList, v.Sound := by
  cases c with
  | eval t =>
    refine .bind (ensures_eval depth world t) fun m a _ ha ↦ .pure fun _ _ ↦ ?_
    rintro _ ⟨⟩
    exact ha
  | evalPrelude t =>
    refine .bind (ensures_evalPrelude depth world t) fun m _ _ _ ↦ .pure fun _ _ ↦ ?_
    rintro _ ⟨⟩

theorem sound_afterCalls (world : FrameId) (calls : List Call) {s : Store} (hs : s.Sound) :
    (afterCalls depth world calls s).Sound := by
  induction calls generalizing s with
  | nil => exact hs
  | cons c calls ih => exact ih ((ensures_run depth world c).after hs (Nat.zero_le _))

end Session

/-- A new world can always be made. After any calls of a session on it, however deep evaluations may
nest, every value bound in any frame is sound; the next call answers with sound values, which can be
shown, or it fails because it nests too deeply or by a fault of the program. -/
theorem session_sound [CharacterNames] : ∃ world s₀, World.new Store.empty = .ok world s₀ ∧
    ∀ (depth : Nat) (calls : List Session.Call) (c : Session.Call),
      (Session.afterCalls depth world calls s₀).Sound ∧
      match c.run depth world (Session.afterCalls depth world calls s₀) with
      | .ok a _ => ∀ answer, a = some answer →
          (∀ v ∈ answer.toList, v.Sound) ∧ answer.render.isSome = true
      | .error (.fault f) _ => f.OfProgram
      | .error .tooDeep _ => True := by
  have hempty : Store.empty.Sound := by
    intro f name v hv
    rw [Store.get?_of_size_le (Nat.zero_le f)] at hv
    cases hv
  obtain ⟨world, s₀, hnew⟩ := World.exists_new Store.empty
  have hs₀ := (World.ensures_new.of_ok hempty (Nat.zero_le _) hnew).1
  refine ⟨world, s₀, hnew, fun depth calls c ↦ ?_⟩
  have hs := Session.sound_afterCalls depth world calls hs₀
  refine ⟨hs, ?_⟩
  split
  next a t hrun =>
    intro answer ha
    have hsound := ((Session.ensures_run depth world c).of_ok hs (Nat.zero_le _) hrun).2 answer ha
    exact ⟨hsound, Answer.isSome_render hsound⟩
  next f t hrun => exact (Session.ensures_run depth world c).of_error hs (Nat.zero_le _) hrun
  next => trivial

end Fexpr
