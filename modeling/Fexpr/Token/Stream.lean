import Fexpr.Datum.Reader
import Fexpr.Token.Lexer

/-!
# Streams of tokens

A stream gives out the tokens of a text one by one and can hold one of them back. When the text
could not be lexed to its end, the failure comes after the last token, once; after that the stream
is at its end.
-/

namespace Fexpr

/-- The tokens that are still to come: the one held back, those after it, and the failure at the
end. -/
structure Stream where
  held : Option Token
  pending : List Token
  failure : Option ReadError
  deriving DecidableEq, Repr

namespace Stream

/-- The stream at its end. -/
def ended : Stream := ⟨none, [], none⟩

/-- The stream of a text. -/
def ofText (t : Text) : Stream := ⟨none, (lex t).tokens, (lex t).failure⟩

/-- All tokens that are still to come. -/
def tokens (s : Stream) : List Token := s.held.toList ++ s.pending

/-- The next token, which is then held back; `none` at the end. -/
def peek (s : Stream) : Except ReadError (Option Token) × Stream :=
  match s.held, s.pending, s.failure with
  | some t, _, _ => (.ok (some t), s)
  | none, t :: ts, e => (.ok (some t), ⟨some t, ts, e⟩)
  | none, [], some e => (.error e, ended)
  | none, [], none => (.ok none, s)

/-- The next token, which is then gone; `none` at the end. -/
def advance (s : Stream) : Except ReadError (Option Token) × Stream :=
  match s.held, s.pending, s.failure with
  | some t, ts, e => (.ok (some t), ⟨none, ts, e⟩)
  | none, t :: ts, e => (.ok (some t), ⟨none, ts, e⟩)
  | none, [], some e => (.error e, ended)
  | none, [], none => (.ok none, s)

variable [CharacterNames]

/-- Read on from a state of the reader to the end of the expression. -/
def readFrom (failure : Option ReadError) :
    Reader.State → List Token → Except ReadError (Option Datum) × Stream
  | s, [] =>
    match failure <|> s.atEnd with
    | some e => (.error e, ended)
    | none => (.ok none, ended)
  | s, t :: ts =>
    match s.step t with
    | .shift s' => readFrom failure s' ts
    | .done d => (.ok (some d), ⟨none, ts, failure⟩)
    | .reject e => (.error e, ⟨some t, ts, failure⟩)
    | .fault e => (.error e, ⟨none, ts, failure⟩)

/-- Read one expression; `none` at the end. -/
def read (s : Stream) : Except ReadError (Option Datum) × Stream :=
  readFrom s.failure (.expression []) s.tokens

/-- The outcome of reading to the end: the expressions in order, the error that stopped it, and the
stream then. -/
structure Reading where
  data : List Datum
  failure : Option ReadError
  rest : Stream
  deriving DecidableEq, Repr

/-- Read on from a state of the reader to the end of the tokens. -/
def readAllFrom (failure : Option ReadError) : Reader.State → List Token → Reading
  | s, [] => ⟨[], failure <|> s.atEnd, ended⟩
  | s, t :: ts =>
    match s.step t with
    | .shift s' => readAllFrom failure s' ts
    | .done d =>
      let r := readAllFrom failure (.expression []) ts
      { r with data := d :: r.data }
    | .reject e => ⟨[], some e, ⟨some t, ts, failure⟩⟩
    | .fault e => ⟨[], some e, ⟨none, ts, failure⟩⟩

/-- Read all expressions up to the end or the first error. -/
def readAll (s : Stream) : Reading := readAllFrom s.failure (.expression []) s.tokens

end Stream

variable [CharacterNames]

/-- The expressions of a text in order, and the error that stopped reading, if one did. -/
def readAll (t : Text) : Stream.Reading := (Stream.ofText t).readAll

/-- The one expression of a text. -/
def readOne (t : Text) : Except ReadError Datum :=
  match (Stream.ofText t).read with
  | (.error e, _) => .error e
  | (.ok none, _) => .error .nothing
  | (.ok (some d), rest) =>
    match rest.peek.1 with
    | .error e => .error e
    | .ok (some t) => .error (.surplus t.position)
    | .ok none => .ok d

end Fexpr
