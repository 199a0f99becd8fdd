import Fexpr.Proofs.Reader.Atoms
import Fexpr.Proofs.Reader.Grammar
import Fexpr.Store

/-!
# Which values can be written

The host writes an integer only up to a number of digits, and a message that is to show a longer one
cannot be made. So a value can be written if no integer that is shown of it is too long
(`Value.isSome_write`). Data that are read never hold such an integer, since the reader keeps to the
same number of digits (`writable_of_readOne`), and their expressions are written like the data
(`Value.write_ofDatum`).
-/

namespace Fexpr

theorem Text.isSome_ofInt? (n : Int) :
    (Text.ofInt? n).isSome = true ↔ n.natAbs < 10 ^ Digit.limit := by
  have hlength : (Text.ofNat n.natAbs).length ≤ Digit.limit ↔ n.natAbs < 10 ^ Digit.limit := by
    rw [Text.ofNat, Text.ofChars, List.length_map]
    exact Nat.length_toDigits_le_iff (by decide) (by decide)
  rw [← hlength, Text.ofInt?]
  split <;> simp_all

/-! ## Formals -/

/-- Formals that are names, or can be shown. -/
def Formal.Writable (p : Formal) : Prop := p ≠ .misfit none

theorem Formal.writable_name (x : Text) : (name x).Writable := by simp [Writable]

theorem Formal.isSome_plain (p : Formal) : p.plain.isSome = true ↔ p.Writable := by
  cases p with
  | name n => simp [plain, Writable]
  | misfit shown => cases shown <;> simp [plain, Writable]

namespace Formals

/-- Formals all of which can be shown. -/
def Writable (f : Formals) : Prop :=
  (∀ p ∈ f.params, p.Writable) ∧ ∀ p, f.rest = some p → p.Writable

theorem isSome_writeParams (ps : List Formal) :
    (writeParams ps).isSome = true ↔ ∀ p ∈ ps, p.Writable := by
  induction ps with
  | nil => simp [writeParams]
  | cons p ps ih =>
    rw [List.forall_mem_cons, ← ih, ← p.isSome_plain]
    cases hp : p.plain <;> cases hps : writeParams ps <;> simp [writeParams, hp, hps]

theorem isSome_writeRest (r : Option Formal) :
    (writeRest r).isSome = true ↔ ∀ p, r = some p → p.Writable := by
  cases r with
  | none => simp [writeRest]
  | some p => simp [writeRest, p.isSome_plain]

theorem isSome_operative (f : Formals) : f.operative.isSome = true ↔ f.Writable := by
  rw [Writable, ← isSome_writeParams, ← isSome_writeRest, operative, render]
  cases writeParams f.params <;> cases writeRest f.rest <;> simp

end Formals

/-! ## Values -/

namespace Value

/-- Values of which no integer is shown that is too long. -/
def Writable : Value → Prop
  | int n => n.natAbs < 10 ^ Digit.limit
  | pair _ h t => h.Writable ∧ t.Writable
  | applicative _ u => u.Writable
  | operative _ formals _ _ => formals.Writable
  | _ => True

/-- A value can be written just if it is writable. -/
theorem isSome_write (v : Value) (inTail : Bool) : (v.write inTail).isSome = true ↔ v.Writable := by
  induction v generalizing inTail with
  | int n => rw [write, Option.isSome_map, Text.isSome_ofInt?, Writable]
  | pair tag h t ihh iht =>
    rw [Writable, ← ihh false, ← iht true, write]
    cases h.write false <;> cases t.write true <;> simp
  | applicative tag u ih =>
    rw [Writable, ← ih false]
    cases u with
    | native n => simp [write]
    | _ =>
      change (Option.map _ _).isSome = true ↔ _
      rw [Option.isSome_map]
  | operative tag formals body closure _ =>
    rw [write, Option.isSome_map, Formals.isSome_operative, Writable]
  | _ => simp [write, Writable]

theorem render_eq_none_iff {v : Value} : v.render = none ↔ ¬ v.Writable := by
  rw [← isSome_write v false, render, Bool.not_eq_true, Option.isSome_eq_false_iff,
    Option.isNone_iff_eq_none]

theorem Writable.exists_render {v : Value} (h : v.Writable) : ∃ t, v.render = some t :=
  Option.isSome_iff_exists.mp ((isSome_write v false).mpr h)

theorem Writable.isSome_detail {v : Value} (h : v.Writable) : v.detail.isSome = true := by
  have hrender : v.render.isSome = true := (isSome_write v false).mpr h
  cases v with
  | absent | text | literal | symbol | environment | native | integerType => rfl
  | _ => exact hrender

/-- What passes from pairs to their parts passes from lists to their elements. -/
theorem forall_mem_of_elements? {p : Value → Prop}
    (hp : ∀ {tag a b}, p (pair tag a b) → p a ∧ p b) {v : Value} {vs : List Value} (hv : p v)
    (hvs : v.elements? = some vs) : ∀ w ∈ vs, p w := by
  induction v generalizing vs with
  | nil =>
    cases hvs
    simp
  | pair tag a b _ ihb =>
    obtain ⟨us, hus, rfl⟩ := Option.map_eq_some_iff.mp hvs
    exact List.forall_mem_cons.mpr ⟨(hp hv).1, ihb (hp hv).2 hus⟩
  | _ => cases hvs

theorem Writable.of_elements? {v : Value} {vs : List Value} (h : v.Writable)
    (hvs : v.elements? = some vs) : ∀ w ∈ vs, w.Writable :=
  forall_mem_of_elements? (p := Writable) id h hvs

theorem writable_listFrom {vs : List Value} (tag : Tag) :
    (listFrom tag vs).Writable ↔ ∀ v ∈ vs, v.Writable := by
  induction vs generalizing tag with
  | nil => simp [listFrom, Writable]
  | cons v vs ih => rw [listFrom, Writable, ih, List.forall_mem_cons]

/-- The least integer that is too long. -/
def tooLong : Value := .int (10 ^ Digit.limit : Nat)

theorem not_writable_tooLong : ¬ tooLong.Writable := by
  rw [tooLong, Writable, Int.natAbs_natCast]
  exact Nat.lt_irrefl _

end Value

namespace Fault

/-- `Shows fault v e`: `e` is the fault that shows `v`, or that of an integer that is too long if
`v` cannot be written. -/
inductive Shows (fault : Template → Fault) (v : Value) : Fault → Prop
  | written {shown : Template} : v.Writable → v.render = some shown → Shows fault v (fault shown)
  | tooLong : ¬ v.Writable → Shows fault v unwritable

variable {fault : Template → Fault} {v : Value} {e : Fault}

theorem showing_of_not_writable (fault : Template → Fault) (h : ¬ v.Writable) :
    showing fault v.render = unwritable := by
  rw [Value.render_eq_none_iff.mpr h, showing]

theorem shows_showing (fault : Template → Fault) (v : Value) :
    Shows fault v (showing fault v.render) := by
  by_cases h : v.Writable
  · obtain ⟨shown, hshown⟩ := h.exists_render
    rw [hshown]
    exact .written h hshown
  · rw [showing_of_not_writable fault h]
    exact .tooLong h

theorem Shows.ne_unwritable (h : Shows fault v e) (hv : v.Writable)
    (hfault : ∀ shown, fault shown ≠ unwritable) : e ≠ unwritable := by
  cases h with
  | written _ _ => exact hfault _
  | tooLong hnot => exact absurd hv hnot

end Fault

/-! ## Data -/

/-- Data without integers that are too long. -/
def Datum.Writable : Datum → Prop
  | int n => n.natAbs < 10 ^ Digit.limit
  | pair h t => h.Writable ∧ t.Writable
  | _ => True

theorem Datum.writable_chain {items : List Datum} {tail : Datum} (hitems : ∀ d ∈ items, d.Writable)
    (htail : tail.Writable) : (chain items tail).Writable := by
  induction items with
  | nil => exact htail
  | cons d items ih =>
    obtain ⟨hd, hitems⟩ := List.forall_mem_cons.mp hitems
    exact ⟨hd, ih hitems⟩

/-- The expression of a datum is written like the datum. -/
theorem Value.write_ofDatum {d : Datum} (h : d.Writable) (tag : Tag) (inTail : Bool) :
    (ofDatum d tag).1.write inTail = some (.ofText (d.write inTail)) := by
  induction d generalizing tag inTail with
  | int n =>
    obtain ⟨t, ht⟩ := Option.isSome_iff_exists.mp ((Text.isSome_ofInt? n).mpr h)
    obtain rfl : Text.ofInt n = t := by
      rw [Text.ofInt?] at ht
      split at ht
      next => exact Option.some.inj ht
      next => cases ht
    cases inTail <;> simp [ofDatum, write, Datum.write, atom, Datum.atom, ht, Text.ofString]
  | pair a b iha ihb =>
    cases inTail <;> simp [ofDatum, write, Datum.write, iha h.1, ihb h.2, Text.ofString]
  | _ => cases inTail <;> simp [ofDatum, write, Datum.write, atom, Datum.atom, Text.ofString]

variable [CharacterNames]

/-- What is read can be written. -/
theorem Derives.writable {ts : List Token} {d : Datum} (h : Derives ts d) : d.Writable := by
  induction h with
  | atom _ _ ha =>
    rcases Reader.atom_cases ha with ⟨n, rfl⟩ | ⟨x, rfl⟩ | ⟨name, rfl⟩
    · exact Reader.natAbs_lt_of_atom ha
    · trivial
    · trivial
  | string => trivial
  | list _ _ _ ih =>
    refine Datum.writable_chain ?_ trivial
    intro e he
    obtain ⟨p, hp, rfl⟩ := List.mem_map.mp he
    exact ih p hp
  | dotted _ _ _ _ _ _ ihs ih =>
    refine Datum.writable_chain ?_ ih
    intro e he
    obtain ⟨p, hp, rfl⟩ := List.mem_map.mp he
    exact ihs p hp

/-- Whatever comes after it, an expression that is read is derived from tokens. -/
theorem Stream.exists_derives {failure : Option ReadError} {s : Reader.State} {us ts : List Token}
    (hs : s.Since us) : ∀ d ∈ (readAllFrom failure s ts).data, ∃ vs, Derives vs d := by
  induction ts generalizing s us with
  | nil => simp [readAllFrom]
  | cons t ts ih =>
    have hstep := hs.step t
    rw [readAllFrom]
    cases hr : s.step t with
    | shift s' =>
      rw [hr] at hstep
      exact ih hstep
    | done d =>
      rw [hr] at hstep
      exact List.forall_mem_cons.mpr ⟨⟨_, hstep⟩, ih Reader.since_start⟩
    | reject e => simp
    | fault e => simp

theorem writable_of_readAll {t : Text} : ∀ d ∈ (readAll t).data, d.Writable := by
  intro d hd
  obtain ⟨vs, hvs⟩ := Stream.exists_derives Reader.since_start d hd
  exact hvs.writable

theorem writable_of_readOne {t : Text} {d : Datum} (h : readOne t = .ok d) : d.Writable :=
  ((readOne_eq_ok_iff t d).mp h).2.writable

end Fexpr
