import Fexpr.Proofs.Evaluator.Policy
import Fexpr.Proofs.Store.Frames
import Mathlib.Data.List.Induction

/-!
# Environments and their history

What is bound where follows from what was done to the environments: which were made below which, and
which definitions were made in each. A `History` is such a record, and says by itself which frames
an environment has and which definitions were made in a frame, in order. The store that the
operations lead to agrees with it. Main statement: `store_refines_history`.
-/

namespace Fexpr

/-! ## Histories -/

/-- The name that a value stands for: that of a symbol, or a string. -/
def Value.name? : Value → Option Text
  | symbol n | text n => some n
  | _ => none

/-- The definitions that entries make: those before the first that names nothing. -/
def definitions : List (Value × Value) → List (Text × Value)
  | [] => []
  | (key, v) :: rest =>
    match key.name? with
    | some n => (n, v) :: definitions rest
    | none => []

theorem definitions_append {es : List (Value × Value)} (h : ∀ e ∈ es, e.1.name?.isSome = true)
    (fs : List (Value × Value)) : definitions (es ++ fs) = definitions es ++ definitions fs := by
  induction es with
  | nil => rfl
  | cons e es ih =>
    obtain ⟨x, hx⟩ := Option.isSome_iff_exists.mp (h e (by simp))
    have hrest := ih fun d hd ↦ h d (by simp [hd])
    simp [definitions, hx, hrest]

namespace Environment

/-- Two entries have different keys, neither the same nor equal. -/
def Apart (d e : Value × Value) : Prop := (e.1.same d.1 || e.1.equal d.1) = false

theorem mergeEntry_of_apart {e : Value × Value} {entries : List (Value × Value)}
    (h : ∀ d ∈ entries, Apart d e) : mergeEntry e.1 e.2 entries = entries ++ [e] := by
  induction entries with
  | nil => rfl
  | cons d rest ih =>
    obtain ⟨hd, hrest⟩ := List.forall_mem_cons.mp h
    have hd : (e.1.same d.1 || e.1.equal d.1) = false := hd
    simp [mergeEntry, hd, ih hrest]

/-- Entries with different keys are those of the dictionary as they stand. -/
theorem merge_of_apart {entries : List (Value × Value)} (h : entries.Pairwise Apart) :
    merge entries = entries := by
  induction entries using List.reverseRecOn with
  | nil => rfl
  | append_singleton entries e ih =>
    obtain ⟨hentries, -, he⟩ := List.pairwise_append.mp h
    have hlast : ∀ d ∈ entries, Apart d e := fun d hd ↦ he d hd e (by simp)
    rw [merge, List.foldl_append, ← merge, ih hentries]
    exact mergeEntry_of_apart hlast

end Environment

/-- Operations on environments one after another, which have made `n` of them. An operation names
only environments made before it. -/
inductive History : Nat → Type
  | start : History 0
  /-- An environment is made, below another one or on its own. -/
  | make {n : Nat} (h : History n) (parent : Option (Fin n)) : History (n + 1)
  /-- A value is given a name. -/
  | define {n : Nat} (h : History n) (f : Fin n) (name v : Value) : History n
  /-- The entries of a dictionary are defined in order. -/
  | update {n : Nat} (h : History n) (f : Fin n) (entries : List (Value × Value)) : History n

namespace History

variable {n : Nat}

/-- The store that operations lead to, whether or not some of them fail. -/
def store {n : Nat} : History n → Store
  | start => .empty
  | make h parent => (Environment.new (parent.map Fin.val)).after h.store
  | define h f name v => (Environment.define f name v).after h.store
  | update h f entries => (Environment.update f entries).after h.store

/-- The parent that an environment was made with. -/
def parent? {n : Nat} : History n → FrameId → Option FrameId
  | start, _ => none
  | make (n := n) h parent, g => if g = n then parent.map Fin.val else h.parent? g
  | define h _ _ _, g | update h _ _, g => h.parent? g

/-- The frames of an environment, innermost first. -/
def chain {n : Nat} : History n → FrameId → List FrameId
  | start, _ => []
  | make (n := n) h parent, g =>
    if g = n then n :: parent.elim [] fun p ↦ h.chain p else h.chain g
  | define h _ _ _, g | update h _ _, g => h.chain g

/-- The definitions made in a frame, in order. A frame starts with that of `current-world`. -/
def log {n : Nat} : History n → FrameId → List (Text × Value)
  | start, _ => []
  | make (n := n) h _, g => if g = n then [(currentWorld, .native (.currentWorld n))] else h.log g
  | define h f name v, g => if g = f then h.log g ++ definitions [(name, v)] else h.log g
  | update h f entries, g =>
    if g = f then h.log g ++ definitions (Environment.merge entries) else h.log g

/-- Whether a name was ever defined in a frame. -/
def defines (h : History n) (g : FrameId) (x : Text) : Bool := ((h.log g).map Prod.fst).contains x

/-- The value of the last definition of a name in a frame. -/
def last? (h : History n) (g : FrameId) (x : Text) : Option Value := (h.log g).reverse.lookup x

/-- The nearest frame of an environment in which a name was ever defined. -/
def find? (h : History n) (f : FrameId) (x : Text) : Option FrameId :=
  (h.chain f).find? fun g ↦ h.defines g x

/-- The names defined in a frame in the order of their first definitions, without
`current-world`. -/
def names (h : History n) (g : FrameId) : List Text :=
  ((h.log g).map Prod.fst).eraseDups.filter (· != currentWorld)

end History

/-! ## Bindings hold the last definitions -/

namespace Bindings

/-- Make definitions in order. -/
def assignAll (ds : List (Text × Value)) (bs : Bindings) : Bindings :=
  ds.foldl (fun bs d ↦ bs.assign d.1 d.2) bs

theorem assignAll_append (ds es : List (Text × Value)) (bs : Bindings) :
    assignAll (ds ++ es) bs = assignAll es (assignAll ds bs) := List.foldl_append ..

theorem assignAll_concat (ds : List (Text × Value)) (x : Text) (v : Value) (bs : Bindings) :
    assignAll (ds ++ [(x, v)]) bs = (assignAll ds bs).assign x v := assignAll_append ..

/-- Binding a name adds it at the end, unless it is there. -/
theorem map_fst_assign (x : Text) (v : Value) (bs : Bindings) :
    (Bindings.assign x v bs).map Prod.fst =
      if x ∈ bs.map Prod.fst then bs.map Prod.fst else bs.map Prod.fst ++ [x] := by
  induction bs with
  | nil => rfl
  | cons b bs ih =>
    obtain ⟨y, w⟩ := b
    by_cases hy : y = x
    · simp [assign, hy]
    · rw [assign, if_neg hy, List.map_cons, ih]
      by_cases hx : x ∈ bs.map Prod.fst
      · simp [hx]
      · simp [hx, Ne.symm hy]

/-- Definitions bind their names in the order of the first ones. -/
theorem map_fst_assignAll (ds : List (Text × Value)) :
    (assignAll ds []).map Prod.fst = (ds.map Prod.fst).eraseDups := by
  induction ds using List.reverseRecOn with
  | nil => rfl
  | append_singleton ds d ih =>
    rw [assignAll_concat, map_fst_assign, ih, List.map_append, List.eraseDups_append]
    by_cases hd : d.1 ∈ ds.map Prod.fst
    · simp [hd, List.removeAll]
    · simp [hd, List.removeAll, List.eraseDups_cons]

/-- Definitions bind each name to the value of the last one. -/
theorem lookup_assignAll (ds : List (Text × Value)) (x : Text) :
    (assignAll ds []).lookup x = ds.reverse.lookup x := by
  induction ds using List.reverseRecOn with
  | nil => rfl
  | append_singleton ds d ih =>
    rw [assignAll_concat, lookup_assign, ih, List.reverse_append, List.reverse_singleton,
      List.singleton_append, List.lookup_cons]
    by_cases hx : x = d.1
    · simp [hx]
    · simp [hx, beq_eq_false_iff_ne.mpr hx]

end Bindings

theorem isSome_lookup_reverse (ds : List (Text × Value)) (x : Text) :
    (ds.reverse.lookup x).isSome = (ds.map Prod.fst).contains x := by
  rw [Bool.eq_iff_iff, List.contains_iff_mem, Option.isSome_iff_ne_none, Ne,
    List.lookup_eq_none_iff]
  simp only [List.mem_reverse, bne_iff_ne, List.mem_map, not_forall, not_not]
  constructor
  · rintro ⟨d, hd, hx⟩
    exact ⟨d, hd, hx.symm⟩
  · rintro ⟨d, hd, hx⟩
    exact ⟨d, hd, hx.symm⟩

/-! ## What the operations do to a store -/

namespace Store

variable {s : Store} {f g : FrameId}

/-- Make definitions in a frame in order. -/
def assignAll (s : Store) (f : FrameId) (ds : List (Text × Value)) : Store :=
  ds.foldl (fun s d ↦ s.assign f d.1 d.2) s

@[simp] theorem assignAll_nil (s : Store) (f : FrameId) : s.assignAll f [] = s := rfl

@[simp] theorem assignAll_cons (s : Store) (f : FrameId) (d : Text × Value)
    (ds : List (Text × Value)) :
    s.assignAll f (d :: ds) = (s.assign f d.1 d.2).assignAll f ds := rfl

@[simp] theorem size_assignAll (s : Store) (f : FrameId) (ds : List (Text × Value)) :
    (s.assignAll f ds).frames.size = s.frames.size := by
  induction ds generalizing s with
  | nil => rfl
  | cons d ds ih => rw [assignAll_cons, ih, size_assign]

@[simp] theorem parent?_assignAll (s : Store) (f g : FrameId) (ds : List (Text × Value)) :
    (s.assignAll f ds).parent? g = s.parent? g := by
  induction ds generalizing s with
  | nil => rfl
  | cons d ds ih => rw [assignAll_cons, ih, parent?_assign]

theorem bindings_assignAll (h : f < s.frames.size) (g : FrameId) (ds : List (Text × Value)) :
    (s.assignAll f ds).bindings g =
      if g = f then Bindings.assignAll ds (s.bindings g) else s.bindings g := by
  induction ds generalizing s with
  | nil => simp [Bindings.assignAll]
  | cons d ds ih =>
    rw [assignAll_cons, ih (by rwa [size_assign]), bindings_assign h]
    split <;> rfl

end Store

namespace Environment

variable (f : FrameId) (s : Store)

theorem nameOf_eq (v : Value) :
    nameOf v s =
      match v.name? with
      | some n => .ok n s
      | none => .error (.fault (.showing (.mismatch .symbol) v.render)) s := by
  cases v <;> rfl

theorem find_eq {name : Value} {x : Text} (h : name.name? = some x) :
    find f name s = .ok (s.find? f x) s := by
  have hn := nameOf_eq s name
  rw [h] at hn
  rw [find, Eval.bind_of_ok hn]
  rfl

theorem contains_eq {name : Value} {x : Text} (h : name.name? = some x) :
    contains (some f) name s = .ok (s.find? f x).isSome s := by
  cases name <;> cases h <;> rfl

theorem lookupValue_eq {name : Value} {x : Text} (h : name.name? = some x) :
    lookupValue (some f) name s =
      match s.lookup? f x with
      | some v => .ok v s
      | none => .error (.fault (.unbound x)) s := by
  have hn := nameOf_eq s name
  rw [h] at hn
  rw [lookupValue, Eval.bind_of_ok hn]
  exact lookup_eq f x s

theorem define_eq (name v : Value) :
    define f name v s =
      match name.name? with
      | some n => .ok v (s.assign f n v)
      | none => .error (.fault (.showing (.mismatch .symbol) name.render)) s := by
  have h := nameOf_eq s name
  cases hn : name.name? with
  | some n =>
    rw [hn] at h
    rw [define, Eval.bind_of_ok h]
    rfl
  | none =>
    rw [hn] at h
    rw [define, Eval.bind_of_error h]

/-- Entries are defined up to the first that names nothing, which is the fault. -/
theorem defineAll_eq (entries : List (Value × Value)) :
    defineAll f entries s =
      match entries.find? fun e ↦ e.1.name?.isNone with
      | some e => .error (.fault (.showing (.mismatch .symbol) e.1.render))
          (s.assignAll f (definitions entries))
      | none => .ok () (s.assignAll f (definitions entries)) := by
  induction entries generalizing s with
  | nil => rfl
  | cons e rest ih =>
    obtain ⟨key, v⟩ := e
    have h := define_eq f s key v
    cases hn : key.name? with
    | some n =>
      rw [hn] at h
      rw [defineAll, Eval.bind_of_ok h, ih]
      simp [definitions, hn]
    | none =>
      rw [hn] at h
      rw [defineAll, Eval.bind_of_error h]
      simp [definitions, hn]

theorem after_define (name v : Value) :
    (define f name v).after s = s.assignAll f (definitions [(name, v)]) := by
  rw [Eval.after, define_eq]
  cases hn : name.name? <;> simp [definitions, hn]

theorem after_update (entries : List (Value × Value)) :
    (update f entries).after s = s.assignAll f (definitions (merge entries)) := by
  rw [Eval.after, update, defineAll_eq]
  cases (merge entries).find? fun e ↦ e.1.name?.isNone <;> rfl

end Environment

/-! ## The store agrees with its history -/

namespace History

variable {n : Nat}

theorem size_store (h : History n) : h.store.frames.size = n := by
  induction h with
  | start => rfl
  | make h parent ih =>
    change (h.store.newFrame (parent.map Fin.val)).frames.size = _
    rw [Store.size_newFrame, ih]
  | define h f name v ih => rw [store, Environment.after_define, Store.size_assignAll, ih]
  | update h f entries ih => rw [store, Environment.after_update, Store.size_assignAll, ih]

/-- A frame binds what was defined in it. -/
theorem bindings_store (h : History n) (g : FrameId) :
    h.store.bindings g = Bindings.assignAll (h.log g) [] := by
  induction h with
  | start => rfl
  | @make n h parent ih =>
    change (h.store.newFrame (parent.map Fin.val)).bindings g = _
    rw [Store.bindings_newFrame, size_store, log]
    split
    next hg =>
      subst hg
      rfl
    next => exact ih
  | define h f name v ih =>
    have hf : f.val < h.store.frames.size := by
      rw [size_store]
      exact f.isLt
    rw [store, Environment.after_define, Store.bindings_assignAll hf, log, ih]
    split
    next => rw [Bindings.assignAll_append]
    next => rfl
  | update h f entries ih =>
    have hf : f.val < h.store.frames.size := by
      rw [size_store]
      exact f.isLt
    rw [store, Environment.after_update, Store.bindings_assignAll hf, log, ih]
    split
    next => rw [Bindings.assignAll_append]
    next => rfl

theorem parent?_store (h : History n) (g : FrameId) : h.store.parent? g = h.parent? g := by
  induction h with
  | start => rfl
  | make h parent ih =>
    change (h.store.newFrame (parent.map Fin.val)).parent? g = _
    rw [Store.parent?_newFrame, size_store, parent?, ih]
  | define h f name v ih =>
    rw [store, Environment.after_define, Store.parent?_assignAll, parent?, ih]
  | update h f entries ih =>
    rw [store, Environment.after_update, Store.parent?_assignAll, parent?, ih]

/-- A parent is older than what is made below it. -/
theorem lt_of_parent? (h : History n) {g p : FrameId} (hp : h.parent? g = some p) : p < g := by
  induction h with
  | start => cases hp
  | @make n h parent ih =>
    rw [parent?] at hp
    split at hp
    next hg =>
      obtain ⟨q, -, rfl⟩ := Option.map_eq_some_iff.mp hp
      rw [hg]
      exact q.isLt
    next => exact ih hp
  | define h f name v ih => exact ih hp
  | update h f entries ih => exact ih hp

/-- The frames of an environment are its own and those of its parent. -/
theorem chain_eq (h : History n) {g : FrameId} (hg : g < n) :
    h.chain g = g :: (h.parent? g).elim [] h.chain := by
  induction h with
  | start => cases hg
  | @make n h parent ih =>
    have hold : ∀ p, p < n → (make h parent).chain p = h.chain p := fun p hp ↦ by
      rw [chain, if_neg (Nat.ne_of_lt hp)]
    rw [chain, parent?]
    split
    next hgn =>
      subst hgn
      cases parent with
      | none => rfl
      | some p => simp [hold p p.isLt]
    next hgn =>
      have hlt : g < n := Nat.lt_of_le_of_ne (Nat.le_of_lt_succ hg) hgn
      rw [ih hlt]
      cases hp : h.parent? g with
      | none => rfl
      | some p => simp [hold p (Nat.lt_trans (h.lt_of_parent? hp) hlt)]
  | define h f name v ih => exact ih hg
  | update h f entries ih => exact ih hg

/-- The store finds the frames of an environment: since parents are older, no walk is cut short. -/
theorem ancestry_store (h : History n) {g : FrameId} (hg : g < n) {count : Nat} (hc : g < count) :
    h.store.ancestry count g = h.chain g := by
  induction count generalizing g with
  | zero => cases hc
  | succ count ih =>
    rw [Store.ancestry, parent?_store, chain_eq h hg]
    cases hp : h.parent? g with
    | none => rfl
    | some p =>
      have hlt := h.lt_of_parent? hp
      exact congrArg (g :: ·)
        (ih (Nat.lt_trans hlt hg) (Nat.lt_of_lt_of_le hlt (Nat.le_of_lt_succ hc)))

theorem chain_store (h : History n) (f : Fin n) : h.store.chain f = h.chain f := by
  rw [Store.chain, size_store]
  exact h.ancestry_store f.isLt f.isLt

theorem get?_store (h : History n) (g : FrameId) (x : Text) : h.store.get? g x = h.last? g x := by
  rw [Store.get?, bindings_store, Bindings.lookup_assignAll, last?]

theorem isSome_last? (h : History n) (g : FrameId) (x : Text) :
    (h.last? g x).isSome = h.defines g x := isSome_lookup_reverse _ _

theorem find?_store (h : History n) (f : Fin n) (x : Text) : h.store.find? f x = h.find? f x := by
  have hdefines : (fun g ↦ (h.store.get? g x).isSome) = fun g ↦ h.defines g x := by
    funext g
    rw [get?_store, isSome_last?]
  rw [Store.find?, chain_store, find?, hdefines]

theorem lookup?_store (h : History n) (f : Fin n) (x : Text) :
    h.store.lookup? f x = (h.find? f x).bind fun g ↦ h.last? g x := by
  have hlast : (fun g ↦ h.store.get? g x) = fun g ↦ h.last? g x := by
    funext g
    exact h.get?_store g x
  rw [Store.lookup?, find?_store, hlast]

/-- Where a name was defined, it has a value. -/
theorem exists_last?_of_find? (h : History n) {f g : FrameId} {x : Text}
    (hg : h.find? f x = some g) :
    ∃ v, h.last? g x = some v := by
  have hdefines := List.find?_some (p := fun g ↦ h.defines g x) hg
  rwa [← isSome_last?, Option.isSome_iff_exists] at hdefines

/-- A name is found in the environment itself or as in its parent. -/
theorem find?_eq (h : History n) (f : Fin n) (x : Text) :
    h.find? f x = if h.defines f x then some f.val else (h.parent? f).bind fun p ↦ h.find? p x := by
  rw [find?, chain_eq h f.isLt, List.find?_cons]
  cases h.defines f x with
  | true => rfl
  | false => cases h.parent? f <;> rfl

theorem names_store (h : History n) (g : FrameId) : h.store.names g = h.names g := by
  rw [Store.names, bindings_store, Bindings.map_fst_assignAll, names]

/-- What an environment sees under a name that it has not defined is what its parent sees. -/
theorem lookup?_store_eq (h : History n) {f p : Fin n} (hp : h.parent? f = some p.val) (x : Text) :
    h.store.lookup? f x = if h.defines f x then h.last? f x else h.store.lookup? p x := by
  rw [lookup?_store, lookup?_store, find?_eq, hp]
  cases h.defines f x <;> rfl

/-- Until an environment defines a name itself, it sees every definition of it made in its
parent. -/
theorem lookup?_store_define (h : History n) {f p : Fin n} (hp : h.parent? f = some p.val)
    (x : Text) (v : Value) :
    (h.define p (.symbol x) v).store.lookup? f x =
      if h.defines f x then h.store.lookup? f x else some v := by
  have hne : f.val ≠ p.val := (Nat.ne_of_lt (h.lt_of_parent? hp)).symm
  have hlog : (h.define p (.symbol x) v).log f = h.log f := if_neg hne
  have hdefines : (h.define p (.symbol x) v).defines f x = h.defines f x := by
    rw [defines, hlog, defines]
  have hlast : (h.define p (.symbol x) v).last? f x = h.last? f x := by rw [last?, hlog, last?]
  have hparent : (h.define p (.symbol x) v).store.lookup? p x = some v := by
    apply Store.lookup?_of_get?
    rw [get?_store, last?, log, if_pos rfl]
    simp [definitions, Value.name?]
  have hp' : (h.define p (.symbol x) v).parent? f = some p.val := hp
  rw [lookup?_store_eq _ hp', hdefines, hlast, hparent, lookup?_store_eq h hp]
  cases h.defines f x <;> rfl

/-- Definitions of valid names, one after another. -/
theorem store_foldl_define (h : History n) (f : Fin n) {entries : List (Value × Value)}
    (hall : ∀ e ∈ entries, e.1.name?.isSome = true) :
    (entries.foldl (fun h e ↦ h.define f e.1 e.2) h).store =
      h.store.assignAll f (definitions entries) := by
  induction entries generalizing h with
  | nil => rfl
  | cons e rest ih =>
    obtain ⟨x, hx⟩ := Option.isSome_iff_exists.mp (hall e (by simp))
    rw [List.foldl_cons, ih _ fun d hd ↦ hall d (by simp [hd]), store, Environment.after_define]
    simp [definitions, hx]

/-- A dictionary with an entry that names nothing is defined up to that entry. -/
theorem update_store_eq_error (h : History n) (f : Fin n)
    {entries before after : List (Value × Value)} {key v : Value}
    (hsplit : Environment.merge entries = before ++ (key, v) :: after)
    (hall : ∀ e ∈ before, e.1.name?.isSome = true) (hkey : key.name? = none) :
    Environment.update f entries h.store =
      .error (.fault (.showing (.mismatch .symbol) key.render))
        (before.foldl (fun h e ↦ h.define f e.1 e.2) h).store := by
  have hbad : (before ++ (key, v) :: after).find? (fun e ↦ e.1.name?.isNone) = some (key, v) := by
    have hnone : before.find? (fun e ↦ e.1.name?.isNone) = none :=
      List.find?_eq_none.mpr fun e he ↦ by simpa [Option.isSome_iff_ne_none] using hall e he
    rw [List.find?_append, hnone, Option.none_or, List.find?_cons, hkey]
    rfl
  have hdefs := definitions_append hall ((key, v) :: after)
  rw [definitions, hkey, List.append_nil] at hdefs
  rw [Environment.update, hsplit, Environment.defineAll_eq, hbad, hdefs,
    store_foldl_define h f hall]

end History

open History

/-- The store refines its history. After any operations, a name given as a symbol or as a string is
found in the nearest frame of an environment in which it was ever defined, and its value is that of
the last definition there; without such a frame it is unbound. An environment sees what its parent
has come to define until it defines the name itself. A definition of what is no name changes
nothing, and the entries of a dictionary, which are those given if their keys are different, are
defined up to the first that is none. An environment is shown with the names of its frames in the
order of their first definitions. -/
theorem store_refines_history {n : Nat} (h : History n) (f : Fin n) (x : Text) :
    (∀ name ∈ [Value.symbol x, Value.text x],
      Environment.find f name h.store = .ok (h.find? f x) h.store ∧
      Environment.contains (some f.val) name h.store = .ok (h.find? f x).isSome h.store ∧
      match h.find? f x with
      | some g => ∃ v, h.last? g x = some v ∧
          Environment.lookupValue (some f.val) name h.store = .ok v h.store
      | none => Environment.lookupValue (some f.val) name h.store =
          .error (.fault (.unbound x)) h.store) ∧
    (∀ p : Fin n, h.parent? f = some p.val →
      (h.store.lookup? f x = if h.defines f x then h.last? f x else h.store.lookup? p x) ∧
      ∀ v, (h.define p (.symbol x) v).store.lookup? f x =
        if h.defines f x then h.store.lookup? f x else some v) ∧
    (∀ name v, name.name? = none → Environment.define f name v h.store =
      .error (.fault (.showing (.mismatch .symbol) name.render)) h.store) ∧
    (∀ entries, entries.Pairwise Environment.Apart → Environment.merge entries = entries) ∧
    (∀ entries before key v after, Environment.merge entries = before ++ (key, v) :: after →
      (∀ e ∈ before, e.1.name?.isSome = true) → key.name? = none →
      Environment.update f entries h.store =
        .error (.fault (.showing (.mismatch .symbol) key.render))
        (before.foldl (fun h e ↦ h.define f e.1 e.2) h).store) ∧
    h.store.detailEnvironment f = ("<Environment chain: " : Text) ++
      List.intercalate (" -> " : Text) ((h.chain f).map fun g ↦
        ("\x7b" : Text) ++ List.intercalate (", " : Text) (h.names g) ++ ("\x7d" : Text)) ++
      (">" : Text) := by
  refine ⟨fun name hname ↦ ?_, fun p hp ↦ ⟨h.lookup?_store_eq hp x, h.lookup?_store_define hp x⟩,
    fun name v hname ↦ ?_, fun entries ↦ Environment.merge_of_apart,
    fun entries before key v after ↦ h.update_store_eq_error f, ?_⟩
  · have hname : name.name? = some x := by
      simp only [List.mem_cons, List.not_mem_nil, or_false] at hname
      rcases hname with rfl | rfl <;> rfl
    rw [Environment.find_eq _ _ hname, Environment.contains_eq _ _ hname,
      Environment.lookupValue_eq _ _ hname, find?_store, lookup?_store]
    refine ⟨rfl, rfl, ?_⟩
    cases hg : h.find? f x with
    | none => rfl
    | some g =>
      obtain ⟨v, hv⟩ := h.exists_last?_of_find? hg
      exact ⟨v, hv, by rw [Option.bind_some, hv]⟩
  · rw [Environment.define_eq, hname]
  · have hframe : h.store.frameText = fun g ↦ ("\x7b" : Text) ++
        List.intercalate (", " : Text) (h.names g) ++ ("\x7d" : Text) := by
      funext g
      rw [Store.frameText, names_store]
      rfl
    rw [Store.detailEnvironment, chain_store, hframe]

end Fexpr
